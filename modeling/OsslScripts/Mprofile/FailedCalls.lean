import OsslScripts.Mprofile.LeakReport

namespace OsslScripts
namespace Mprofile

open Foundation

/-!
# Failed calls

The calls of one thread are made twice, the second time without those that libc
refuses.  A refused `realloc` leaves no record.  A refused `malloc` is recorded as
an `ALLOC` of the null pointer, which no later record consumes, so the log of the
first run is that of the second one with such records in between (`NullPadded`).
-/

/-- libc returns null for a request that is not 0. -/
def Refused (l : Call × Answer) : Prop := l.2.ptr = 0 ∧ l.1.request.size ≠ 0

instance (l : Call × Answer) : Decidable (Refused l) := inferInstanceAs (Decidable (_ ∧ _))

def Call.isMalloc : Call -> Bool
  | .malloc _ => true
  | .free _ => false
  | .realloc _ _ => false

/-- A `malloc` that fails, and for whose record there is memory. -/
def FailureRecorded (l : Call × Answer) : Prop :=
  Refused l ∧ l.1.isMalloc = true ∧ l.2.recordOk = true

instance (l : Call × Answer) : Decidable (FailureRecorded l) := inferInstanceAs (Decidable (_ ∧ _))

/-- A call of a program about whose use of its blocks nothing is known. -/
def callNext (family : Family) (tid : Nat) (w : World) (l : Call × Answer) :
    Except HookFault World :=
  (makeCall family tid w l).map Prod.fst

/-- `build_chains` completes on the records of all profiles. -/
def ChainsComplete (prof : Profiler) : Prop :=
  Exists fun linked => buildChains prof.mergedLog = .ok linked

/-- The largest `mem_current`, 0 if there is no record. -/
def MProfile.peakCurrent (profile : MProfile) : Int :=
  match profile.getMemPeak with
  | none => 0
  | some mr => mr.memCurrent

/-- The addresses and the sizes of the leaks. -/
def MProfile.leakedBlocks (profile : MProfile) (fuel : Nat) : Option (List (UInt64 × Option Int)) :=
  (profile.leaks fuel).map
  (fun found => found.map (fun mr => (mr.mprMem, profile.getLeakSz fuel mr)))

/-- Two profiles say the same of the memory. -/
structure SameReport (profile profile' : MProfile) : Prop where
  peak : profile.peakCurrent = profile'.peakCurrent
  last : profile.lastCurrent = profile'.lastCurrent
  total : profile.getTotalMem = profile'.getTotalMem
  leaks : forall fuel, profile.leakedBlocks fuel = profile'.leakedBlocks fuel

/-- Chains are built for both or for none, and what is saved gives the same report. -/
def FailuresNeutral (prof prof' : Profiler) : Prop :=
  (ChainsComplete prof ↔ ChainsComplete prof') ∧
    forall linkChains copyBlock copyBlock' doc doc',
      mprofileSave copyBlock linkChains prof = .ok doc ->
      mprofileSave copyBlock' linkChains prof' = .ok doc' ->
        SameReport (MProfile.ofDocument doc) (MProfile.ofDocument doc')

/-- The first log is the second one with `ALLOC`s of the null pointer in between. -/
inductive NullPadded : Nat -> List MprofileRecord -> List MprofileRecord -> Prop where
  | nil : NullPadded 0 [] []
  | both {k : Nat} {log log' : List MprofileRecord} {r r' : MprofileRecord}
    (before : NullPadded k log log')
      (sameState : r.mprState = r'.mprState) (sameMem : r.mprMem = r'.mprMem)
      (sameRealloc : r.mprRealloc = r'.mprRealloc)
      (moved : r.mprState = .realloc -> r.mprRealloc ≠ 0) :
      NullPadded k (log ++ [r]) (log' ++ [r'])
  | failure {k : Nat} {log log' : List MprofileRecord} {r : MprofileRecord}
    (before : NullPadded k log log')
      (isAlloc : r.mprState = .alloc) (isNull : r.mprMem = 0) : NullPadded (k + 1) (log ++ [r]) log'

/-! ## Stacks have no part in the report -/

section Unfiled

/-- The records of a document without their stacks, and nothing else. -/
def Document.unfiled (doc : Document) : Document :=
  ⟨⟨0, 0⟩, doc.allocations.map MprofileRecord.unfiled, []⟩

def MemRecord.unfiled (found : MemRecord) : MemRecord := ⟨found.mr.unfiled, found.memCurrent⟩

variable {doc doc' : Document} {fuel : Nat} {mr : MprofileRecord}

theorem calcCurrent_unfiled (total : Int) (log : List MprofileRecord) :
    MProfile.calcCurrent total (log.map MprofileRecord.unfiled) =
      (MProfile.calcCurrent total log).map MemRecord.unfiled := by
  induction log generalizing total with
  | nil => rfl
  | cons mr rest inductionHypothesis =>
      rw [List.map_cons, MProfile.calcCurrent, MProfile.calcCurrent, List.map_cons,
        inductionHypothesis]
      rfl

theorem memRecords_unfiled (doc : Document) :
    (MProfile.ofDocument doc.unfiled).memRecords =
      (MProfile.ofDocument doc).memRecords.map MemRecord.unfiled :=
  calcCurrent_unfiled 0 doc.allocations

theorem getMr_unfiled (opId : Nat) :
    (MProfile.ofDocument doc.unfiled).getMr opId =
      ((MProfile.ofDocument doc).getMr opId).map MemRecord.unfiled := by
  rw [MProfile.getMr, MProfile.getMr, memRecords_unfiled, List.length_map]
  split_ifs
  · rfl
  · rw [List.getElem?_map]

theorem chainEnd_unfiled :
    (MProfile.ofDocument doc.unfiled).chainEnd fuel mr.unfiled =
      ((MProfile.ofDocument doc).chainEnd fuel mr).map MprofileRecord.unfiled := by
  induction fuel generalizing mr with
  | zero => rfl
  | succ fuel inductionHypothesis =>
      have sameNext : mr.unfiled.mprNextId = mr.mprNextId := rfl
      rw [MProfile.chainEnd, MProfile.chainEnd, sameNext, getMr_unfiled]
      cases (MProfile.ofDocument doc).getMr mr.mprNextId with
      | none => rfl
      | some next => exact inductionHypothesis

theorem isLeak_unfiled :
    (MProfile.ofDocument doc.unfiled).isLeak fuel mr.unfiled =
      (MProfile.ofDocument doc).isLeak fuel mr := by
  have sameState : mr.unfiled.mprState = mr.mprState := rfl
  rw [MProfile.isLeak, MProfile.isLeak, sameState, chainEnd_unfiled]
  split_ifs
  · rfl
  · rw [Option.map_map]
    rfl

theorem getLeakSz_unfiled :
    (MProfile.ofDocument doc.unfiled).getLeakSz fuel mr.unfiled =
      (MProfile.ofDocument doc).getLeakSz fuel mr := by
  induction fuel generalizing mr with
  | zero => rfl
  | succ fuel inductionHypothesis =>
      have next : (MProfile.ofDocument doc.unfiled).getNext mr.unfiled =
          ((MProfile.ofDocument doc).getNext mr).map MemRecord.unfiled := by
        have sameNext : mr.unfiled.mprNextId = mr.mprNextId := rfl
        rw [MProfile.getNext, MProfile.getNext, sameNext, getMr_unfiled]
        split_ifs <;> rfl
      rw [MProfile.getLeakSz, MProfile.getLeakSz, next]
      cases (MProfile.ofDocument doc).getNext mr with
      | none => rfl
      | some found =>
          have onward : (MProfile.ofDocument doc.unfiled).getLeakSz fuel found.unfiled.mr =
              (MProfile.ofDocument doc).getLeakSz fuel found.mr := inductionHypothesis
          simp only [Option.map_some, onward]
          rfl

theorem leaks_unfiled :
    (MProfile.ofDocument doc.unfiled).leaks fuel =
      ((MProfile.ofDocument doc).leaks fuel).map
        (fun found => found.map MprofileRecord.unfiled) := by
  have records : (MProfile.ofDocument doc.unfiled).memRecords.map MemRecord.mr =
      ((MProfile.ofDocument doc).memRecords.map MemRecord.mr).map MprofileRecord.unfiled := by
    rw [memRecords_unfiled, List.map_map, List.map_map]
    rfl
  rw [MProfile.leaks, MProfile.leaks, records]
  induction (MProfile.ofDocument doc).memRecords.map MemRecord.mr with
  | nil => rfl
  | cons mr rest inductionHypothesis =>
      rw [List.map_cons, List.foldr_cons, List.foldr_cons, isLeak_unfiled, inductionHypothesis]
      generalize List.foldr _ _ rest = found
      cases (MProfile.ofDocument doc).isLeak fuel mr with
      | none => rfl
      | some leak => cases leak <;> cases found <;> rfl

theorem leakedBlocks_unfiled :
    (MProfile.ofDocument doc.unfiled).leakedBlocks fuel =
      (MProfile.ofDocument doc).leakedBlocks fuel := by
  rw [MProfile.leakedBlocks, MProfile.leakedBlocks, leaks_unfiled, Option.map_map]
  refine congrArg (fun f => Option.map f ((MProfile.ofDocument doc).leaks fuel))
    (funext fun found => ?_)
  rw [Function.comp_apply, List.map_map]
  refine List.map_congr_left (fun mr _ => ?_)
  rw [Function.comp_apply, getLeakSz_unfiled]
  rfl

theorem firstMax_unfiled (best : MemRecord) (records : List MemRecord) :
    MProfile.firstMax best.unfiled (records.map MemRecord.unfiled) =
      (MProfile.firstMax best records).unfiled := by
  induction records generalizing best with
  | nil => rfl
  | cons found rest inductionHypothesis =>
      have sameTotals : found.unfiled.memCurrent = found.memCurrent ∧
          best.unfiled.memCurrent = best.memCurrent := ⟨rfl, rfl⟩
      rw [List.map_cons, MProfile.firstMax, MProfile.firstMax, sameTotals.1, sameTotals.2,
        ← inductionHypothesis]
      split_ifs <;> rfl

theorem peakCurrent_unfiled :
    (MProfile.ofDocument doc.unfiled).peakCurrent = (MProfile.ofDocument doc).peakCurrent := by
  rw [MProfile.peakCurrent, MProfile.peakCurrent, MProfile.getMemPeak, MProfile.getMemPeak,
    memRecords_unfiled]
  cases (MProfile.ofDocument doc).memRecords with
  | nil => rfl
  | cons found rest =>
      simp only [List.map_cons, firstMax_unfiled]
      rfl

theorem getTotalMem_unfiled :
    (MProfile.ofDocument doc.unfiled).getTotalMem = (MProfile.ofDocument doc).getTotalMem := by
  rw [MProfile.getTotalMem, MProfile.getTotalMem, memRecords_unfiled, List.map_map, List.map_map,
    List.map_map]
  rfl

/-- Documents with the same records up to stacks give the same report. -/
theorem sameReport_of_unfiled (same : doc.allocations.map MprofileRecord.unfiled =
    doc'.allocations.map MprofileRecord.unfiled) :
    SameReport (MProfile.ofDocument doc) (MProfile.ofDocument doc') := by
  have records : doc.unfiled = doc'.unfiled := congrArg (fun log => Document.mk ⟨0, 0⟩ log []) same
  refine ⟨?_, ?_, ?_, fun fuel => ?_⟩
  · rw [← peakCurrent_unfiled, records, peakCurrent_unfiled]
  · have deltas : forall d : Document, (d.unfiled.allocations.map MprofileRecord.mprDelta).sum =
        (d.allocations.map MprofileRecord.mprDelta).sum := by
      intro d
      rw [Document.unfiled, List.map_map]
      rfl
    rw [lastCurrent_ofDocument, lastCurrent_ofDocument, ← deltas doc, ← deltas doc', records]
  · rw [← getTotalMem_unfiled, records, getTotalMem_unfiled]
  · rw [← leakedBlocks_unfiled, records, leakedBlocks_unfiled]

end Unfiled

/-! ## Stacks have no part in the chains -/

section Links

variable {log log' linked linked' : List MprofileRecord} {i j : Nat}

theorem linkedBy_unfiled : LinkedBy (log.map MprofileRecord.unfiled) j i ↔ LinkedBy log j i := by
  have consumes : forall k, consumed (log.map MprofileRecord.unfiled) k = consumed log k := by
    intro k
    rw [consumed, consumed, List.getElem?_map]
    cases log[k]? <;> rfl
  have produces : forall k, produced (log.map MprofileRecord.unfiled) k = produced log k := by
    intro k
    rw [produced, produced, List.getElem?_map]
    cases log[k]? <;> rfl
  unfold LinkedBy LastProducer
  simp only [consumes, produces]

theorem recordAt_unfiled (inside : i < log.length) :
    recordAt (log.map MprofileRecord.unfiled) i = (recordAt log i).unfiled := by
  rw [recordAt, recordAt, List.getD_eq_getElem?_getD, List.getElem?_map,
    List.getElem?_eq_getElem inside,
    List.getD_eq_getElem _ _ inside]
  rfl

theorem eq_unfiled_of_parts {r r' : MprofileRecord} (same : r.bare.unfiled = r'.bare.unfiled)
    (samePrev : r.mprPrevId = r'.mprPrevId) (sameNext : r.mprNextId = r'.mprNextId) :
    r.unfiled = r'.unfiled := by
  have parts : forall x : MprofileRecord,
      x.unfiled = { x.bare.unfiled with mprPrevId := x.mprPrevId, mprNextId := x.mprNextId } :=
        fun _ => rfl
  rw [parts r, parts r', same, samePrev, sameNext]

/-- The links of logs that are the same up to stacks. -/
theorem Linked.unfiled (facts : Linked log linked) (facts' : Linked log' linked')
    (same : log.map MprofileRecord.unfiled = log'.map MprofileRecord.unfiled) :
    linked.map MprofileRecord.unfiled = linked'.map MprofileRecord.unfiled := by
  have sameLinks : forall j i, LinkedBy log j i ↔ LinkedBy log' j i := by
    intro j i
    rw [← linkedBy_unfiled, same, linkedBy_unfiled]
  have sameLength : log.length = log'.length := by
    have lengths := congrArg List.length same
    rwa [List.length_map, List.length_map] at lengths
  have sameRecord : forall i, i < log.length ->
      (recordAt log i).unfiled = (recordAt log' i).unfiled := by
    intro i inside
    rw [← recordAt_unfiled inside, same, recordAt_unfiled (sameLength ▸ inside)]
  have sameId : forall i, i < log.length -> (recordAt log i).mprId = (recordAt log' i).mprId := by
    intro i inside
    have ids := congrArg MprofileRecord.mprId (sameRecord i inside)
    rwa [mprId_unfiled, mprId_unfiled] at ids
  have position : forall l : List MprofileRecord, l.map MprofileRecord.unfiled =
      (List.range l.length).map (fun i => (recordAt l i).unfiled) := by
    intro l
    conv_lhs => rw [← eq_map_recordAt l]
    rw [List.map_map]
    rfl
  rw [position linked, position linked', facts.length, facts'.length, ← sameLength]
  refine List.map_congr_left (fun i member => ?_)
  have inside := List.mem_range.mp member
  apply eq_unfiled_of_parts
  · rw [facts.recordAt_bare (facts.length.symm ▸ inside),
      facts'.recordAt_bare (facts'.length.symm ▸ sameLength ▸ inside)]
    exact sameRecord i inside
  · by_cases isLinked : Exists fun k => LinkedBy log i k
    · rcases isLinked with ⟨k, link⟩
      rw [(facts.link i k link).1, (facts'.link i k ((sameLinks i k).mp link)).1]
      exact sameId k (link.lt.trans link.lt_length)
    · rw [facts.noPrev i (fun k link => isLinked ⟨k, link⟩),
        facts'.noPrev i (fun k link => isLinked ⟨k, (sameLinks i k).mpr link⟩)]
  · by_cases isLinked : Exists fun k => LinkedBy log k i
    · rcases isLinked with ⟨k, link⟩
      rw [(facts.link k i link).2, (facts'.link k i ((sameLinks k i).mp link)).2]
      exact sameId k link.lt_length
    · rw [facts.noNext i (fun k link => isLinked ⟨k, link⟩),
        facts'.noNext i (fun k link => isLinked ⟨k, (sameLinks k i).mpr link⟩)]

end Links

/-! ## The records of failures -/

section Padding

variable {k : Nat} {log log' : List MprofileRecord}

/-- Each of the additional records is an `ALLOC`. -/
theorem NullPadded.allocs (padded : NullPadded k log log') :
    log.countP (fun r => r.mprState = .alloc) = log'.countP (fun r => r.mprState = .alloc) + k := by
  induction padded with
  | nil => rfl
  | both before sameState _ _ _ inductionHypothesis =>
      rw [List.countP_append, List.countP_append, List.countP_singleton, List.countP_singleton,
        inductionHypothesis, sameState]
      omega
  | failure before isAlloc _ inductionHypothesis =>
      rw [List.countP_append, List.countP_singleton, inductionHypothesis, isAlloc]
      rfl

/-- The addresses of the first list are those of the second one and `k` times null. -/
structure Padding (k : Nat) (mems mems' : List UInt64) : Prop where
  nulls : mems.count 0 = mems'.count 0 + k
  others : mems.filter (fun x => x ≠ 0) = mems'.filter (fun x => x ≠ 0)

theorem Padding.length {mems mems' : List UInt64} (padding : Padding k mems mems') :
    mems.length = mems'.length + k := by
  have split : forall l : List UInt64, l.length =
      l.count 0 + (l.filter (fun x => x ≠ 0)).length := by
    intro l
    induction l with
    | nil => rfl
    | cons x rest inductionHypothesis =>
        by_cases null : x = 0
        · simp [null, inductionHypothesis]
          omega
        · simp [null, inductionHypothesis]
          omega
  rw [split mems, split mems', padding.nulls, padding.others]
  omega

/-- What a record does to the addresses of the open blocks. -/
def memStep (mems : List UInt64) (r : MprofileRecord) : List UInt64 :=
  match r.mprState with
  | .alloc => mems ++ [r.mprMem]
  | .free => if r.mprMem = 0 then mems else mems.filter (fun x => x ≠ r.mprMem)
  | .realloc => mems.map (fun x => if x = r.mprRealloc then r.mprMem else x)

theorem map_mem_openStep (pos : Nat) (blocks : List OpenBlock) (r : MprofileRecord) :
    (openStep pos blocks r).map OpenBlock.mem = memStep (blocks.map OpenBlock.mem) r := by
  unfold openStep memStep
  cases r.mprState with
  | alloc => rw [List.map_append, List.map_singleton]
  | free =>
      simp only
      split_ifs
      · rfl
      · rw [List.filter_map]
        rfl
  | realloc =>
      simp only [List.map_map]
      refine List.map_congr_left (fun block _ => ?_)
      rw [Function.comp_apply, Function.comp_apply]
      split_ifs <;> rfl

/-- Addresses that change, null staying as it is. -/
theorem Padding.map {mems mems' : List UInt64} (padding : Padding k mems mems')
    {f : UInt64 -> UInt64}
    (null : f 0 = 0) : Padding k (mems.map f) (mems'.map f) := by
  have nulls : forall l : List UInt64, (l.map f).count 0 =
      l.count 0 + (l.filter (fun x => x ≠ 0)).countP (fun x => f x = 0) := by
    intro l
    induction l with
    | nil => rfl
    | cons x rest inductionHypothesis =>
        by_cases isNull : x = 0
        · simp [isNull, null, inductionHypothesis]
          omega
        · by_cases becomesNull : f x = 0
          · simp [isNull, becomesNull, inductionHypothesis]
            omega
          · simp [isNull, becomesNull, inductionHypothesis]
  have others : forall l : List UInt64, (l.map f).filter (fun x => x ≠ 0) =
      ((l.filter (fun x => x ≠ 0)).map f).filter (fun x => x ≠ 0) := by
    intro l
    induction l with
    | nil => rfl
    | cons x rest inductionHypothesis =>
        by_cases isNull : x = 0
        · simp only [List.map_cons, isNull, null, ne_eq, not_true_eq_false, decide_false,
            Bool.false_eq_true,
            not_false_eq_true, List.filter_cons_of_neg]
          exact inductionHypothesis
        · by_cases becomesNull : f x = 0
          · simpa [isNull, becomesNull] using inductionHypothesis
          · simpa [isNull, becomesNull] using inductionHypothesis
  constructor
  · rw [nulls, nulls, padding.nulls, padding.others]
    omega
  · rw [others, others mems', padding.others]

theorem Padding.step {mems mems' : List UInt64} (padding : Padding k mems mems')
    {r r' : MprofileRecord}
    (sameState : r.mprState = r'.mprState) (sameMem : r.mprMem = r'.mprMem)
    (sameRealloc : r.mprRealloc = r'.mprRealloc)
    (moved : r.mprState = .realloc -> r.mprRealloc ≠ 0) :
    Padding k (memStep mems r) (memStep mems' r') := by
  unfold memStep
  rw [← sameState, ← sameMem, ← sameRealloc]
  cases state : r.mprState with
  | alloc =>
      constructor
      · rw [List.count_append, List.count_append, padding.nulls]
        omega
      · rw [List.filter_append, List.filter_append, padding.others]
  | free =>
      by_cases null : r.mprMem = 0
      · simp only [if_pos null]
        exact padding
      · simp only [if_neg null]
        have stays : forall l : List UInt64, (l.filter (fun x => x ≠ r.mprMem)).count 0 =
            l.count 0 :=
          fun l => List.count_filter (decide_eq_true (Ne.symm null))
        constructor
        · rw [stays, stays, padding.nulls]
        · rw [List.filter_comm, padding.others, List.filter_comm]
  | realloc => exact padding.map (if_neg (Ne.symm (moved state)))

/-- The blocks that are open but for the failures. -/
theorem NullPadded.openBlocks (padded : NullPadded k log log') :
    Padding k ((openBlocks log).map OpenBlock.mem)
      ((Mprofile.openBlocks log').map OpenBlock.mem) := by
  induction padded with
  | nil => exact ⟨rfl, rfl⟩
  | both before sameState sameMem sameRealloc moved inductionHypothesis =>
      rw [openBlocks_append, openBlocks_append, map_mem_openStep, map_mem_openStep]
      exact inductionHypothesis.step sameState sameMem sameRealloc moved
  | failure before isAlloc isNull inductionHypothesis =>
      rw [openBlocks_append, map_mem_openStep, memStep, isAlloc, isNull]
      constructor
      · rw [List.count_append, inductionHypothesis.nulls]
        rfl
      · rw [List.filter_append, inductionHypothesis.others]
        exact List.append_nil _

/-- The records of one call in both logs. -/
theorem NullPadded.records (padded : NullPadded k log log') {heap : UInt64 -> Option Block}
    {answer : Answer}
    {call : Call} {out : TracedCall} (outcome : TracedOutcome heap answer call out)
    (mprId mprId' : Nat) :
    NullPadded k (log ++ out.records answer mprId) (log' ++ out.records answer mprId') := by
  have moved : forall mpr, mpr ∈ out.logged -> mpr.mprState = .realloc -> mpr.mprRealloc ≠ 0 := by
    intro mpr logged isRealloc
    cases outcome with
    | refused _ => cases Option.mem_some.mp logged; cases isRealloc
    | made _ _ _ => cases Option.mem_some.mp logged; cases isRealloc
    | freed _ _ => cases Option.mem_some.mp logged; cases isRealloc
    | ended _ _ => cases Option.mem_some.mp logged; cases isRealloc
    | kept _ _ _ => cases logged
    | @resized b sz origSz mh _ _ _ _ _ _ _ =>
        cases Option.mem_some.mp logged
        by_cases null : b = 0
        · rw [if_pos null] at isRealloc
          cases isRealloc
        · rw [if_neg null]
          exact null
  rw [TracedCall.records, TracedCall.records]
  split_ifs
  · cases isLogged : out.logged with
    | none =>
        rw [Option.toList_none, List.map_nil, List.map_nil, List.append_nil, List.append_nil]
        exact padded
    | some mpr => exact padded.both rfl rfl rfl (moved mpr (Option.mem_def.mpr isLogged))
  · rw [List.append_nil, List.append_nil]
    exact padded

end Padding

/-! ## Two runs -/

/-- The first run has made all calls, the second one those that were not refused, and
`k` failures were recorded. -/
structure Alongside (tid k : Nat) (w v : World) : Prop where
  heap : w.heap = v.heap
  logs : Exists fun log => Exists fun log' => Solo w.prof tid log ∧ Solo v.prof tid log' ∧
    NullPadded k log log' ∧ (k = 0 -> log = log')

section Runs

variable {family : Family} {tid k : Nat} {w w' v v' : World} {l : Call × Answer}

theorem alongside_init (tid : Nat) : Alongside tid 0 World.init World.init :=
  ⟨rfl, [], [], solo_init tid, solo_init tid, .nil, fun _ => rfl⟩

theorem callNext_ok (stepped : callNext family tid w l = .ok w') :
    Exists fun rv => makeCall family tid w (l.1, l.2) = .ok (w', rv) := by
  unfold callNext at stepped
  cases made : makeCall family tid w l with
  | error fault => rw [made] at stepped; cases stepped
  | ok result =>
      rw [made] at stepped
      cases stepped
      exact ⟨result.2, rfl⟩

/-- A call that both runs make. -/
theorem Alongside.both (traced : family ≠ .stats) (alongside : Alongside tid k w v)
    (stepped : callNext family tid w l = .ok w') (stepped' : callNext family tid v l = .ok v') :
    Alongside tid k w' v' := by
  rcases alongside.logs with ⟨log, log', solo, solo', padded, same⟩
  rcases callNext_ok stepped with ⟨rv, made⟩
  rcases callNext_ok stepped' with ⟨rv', made'⟩
  rcases solo.madeCall traced made with ⟨out, ran, heapAfter, -, soloAfter⟩
  rcases solo'.madeCall traced made' with ⟨out', ran', heapAfter', -, soloAfter'⟩
  have sameOut : out = out' := by
    rw [alongside.heap, ran'] at ran
    exact (Except.ok.inj ran).symm
  subst sameOut
  refine ⟨heapAfter.trans heapAfter'.symm, _, _, soloAfter, soloAfter',
    padded.records (traced_outcome ran) _ _, fun none => ?_⟩
  rw [← solo.length, ← solo'.length, same none]

/-- A call that libc refuses, and that only the first run makes. -/
theorem Alongside.refused (traced : family ≠ .stats) (alongside : Alongside tid k w v)
    (refused : Refused l)
    (stepped : callNext family tid w l = .ok w') :
    Alongside tid (k + if FailureRecorded l then 1 else 0) w' v := by
  rcases alongside.logs with ⟨log, log', solo, solo', padded, same⟩
  rcases callNext_ok stepped with ⟨rv, made⟩
  rcases solo.madeCall traced made with ⟨out, ran, heapAfter, -, soloAfter⟩
  rcases l with ⟨call, answer⟩
  rcases refused with ⟨noPtr, isRequest⟩
  cases traced_outcome ran with
  | @refused sz heap' taken =>
      have sameHeap : w'.heap = v.heap := by
        rw [heapAfter, ← alongside.heap]
        exact (malloc_frame taken).2.2.2 rfl
      by_cases recordOk : answer.recordOk = true
      · have recorded : FailureRecorded (Call.malloc sz, answer) :=
          ⟨⟨noPtr, isRequest⟩, rfl, recordOk⟩
        rw [TracedCall.records, if_pos recordOk] at soloAfter
        rw [if_pos recorded]
        exact ⟨sameHeap, _, log', soloAfter, solo', padded.failure rfl rfl,
          fun impossible => absurd impossible (Nat.succ_ne_zero k)⟩
      · have unrecorded : ¬ FailureRecorded (Call.malloc sz, answer) :=
          fun recorded => recordOk recorded.2.2
        rw [TracedCall.records, if_neg recordOk, List.append_nil] at soloAfter
        rw [if_neg unrecorded, Nat.add_zero]
        exact ⟨sameHeap, log, log', soloAfter, solo', padded, same⟩
  | made taken isBlock _ => exact absurd ((malloc_result taken).trans noPtr) isBlock
  | freed _ _ => exact absurd rfl isRequest
  | ended _ _ => exact absurd rfl isRequest
  | @kept b sz origSz heap' isSize read taken =>
      have unrecorded : ¬ FailureRecorded (Call.realloc b sz, answer) := fun recorded => by
        cases recorded.2.1
      have request : sz + sizeofMemhdr ≠ 0 := by
        have size : (Call.realloc b sz).request.size = sz + sizeofMemhdr := if_pos isSize
        rwa [size] at isRequest
      have sameHeap : w'.heap = v.heap := by
        rw [heapAfter, ← alongside.heap]
        exact realloc_failed (fun _ wraps => absurd wraps request) taken
      have noRecord : TracedCall.records ⟨heap', 0, none⟩ answer (w.prof.mprId + 1) = [] :=
        ite_self _
      rw [noRecord, List.append_nil] at soloAfter
      rw [if_neg unrecorded, Nat.add_zero]
      exact ⟨sameHeap, log, log', soloAfter, solo', padded, same⟩
  | resized isSize _ taken isBlock _ => exact absurd ((realloc_result taken).trans noPtr) isBlock

/-- The runs side by side: the first one has recorded each failure once. -/
theorem Alongside.run (traced : family ≠ .stats) {calls : List (Call × Answer)}
    (alongside : Alongside tid k w v) (ran : exec (callNext family tid) w calls = .ok w')
    (ran' : exec (callNext family tid) v (calls.filter (fun l => ¬ Refused l)) = .ok v') :
    Alongside tid (k + calls.countP (fun l => FailureRecorded l)) w' v' := by
  induction calls generalizing w v k with
  | nil =>
      cases ran
      cases ran'
      exact alongside
  | cons l rest inductionHypothesis =>
      rcases exec_cons_ok ran with ⟨middle, stepped, onward⟩
      have count : k + (l :: rest).countP (fun l => FailureRecorded l) =
          (k + if FailureRecorded l then 1 else 0) + rest.countP (fun l => FailureRecorded l) := by
        rw [List.countP_cons]
        simp only [decide_eq_true_eq]
        omega
      rw [count]
      by_cases refused : Refused l
      · rw [List.filter_cons, if_neg (by simpa using refused)] at ran'
        exact inductionHypothesis (alongside.refused traced refused stepped) onward ran'
      · have unrecorded : ¬ FailureRecorded l := fun recorded => refused recorded.1
        rw [List.filter_cons, if_pos (decide_eq_true refused)] at ran'
        rcases exec_cons_ok ran' with ⟨middle', stepped', onward'⟩
        rw [if_neg unrecorded, Nat.add_zero]
        exact inductionHypothesis (alongside.both traced stepped stepped') onward onward'

end Runs

/-! ## What is saved -/

section Saved

variable {prof prof' : Profiler} {tid : Nat} {log : List MprofileRecord} {linkChains : Bool}
  {copyBlock copyBlock' : Nat -> Option (Int -> UInt64)} {doc doc' : Document} {fuel : Nat}

theorem Solo.chainsComplete (solo : Solo prof tid log) :
    ChainsComplete prof ↔ replay log ≠ none := by
  have bare := (solo.sorted rfl).2.2
  rw [← solo.merged, replay_unfiled, ChainsComplete]
  constructor
  · rintro ⟨linked, built⟩ conflict
    rcases buildChains_conflict prof.mergedLog bare conflict with ⟨stop, stopped, -⟩
    rw [built] at stopped
    cases stopped
  · intro complete
    cases replayed : replay prof.mergedLog with
    | none => exact absurd replayed complete
    | some live =>
        rcases buildChains_linked prof.mergedLog bare replayed with ⟨linked, built, -⟩
        exact ⟨linked, built⟩

/-- The links of what is saved with chains. -/
theorem linked_of_built {sorter : List MprofileRecord} (bare : forall r, r ∈ sorter -> r.bare = r)
    (built : buildChains sorter = .ok doc.allocations) :
    Linked sorter doc.allocations ∧ Exists fun live => replay sorter = some live := by
  cases replayed : replay sorter with
  | none =>
      rcases buildChains_conflict sorter bare replayed with ⟨stop, stopped, -⟩
      rw [built] at stopped
      cases stopped
  | some live =>
      rcases buildChains_linked sorter bare replayed with ⟨linked, isBuilt, facts⟩
      rw [built] at isBuilt
      cases isBuilt
      exact ⟨facts, live, rfl⟩

/-- Processes with one log save the same records up to stacks. -/
theorem Solo.sameRecords (solo : Solo prof tid log) (solo' : Solo prof' tid log)
    (saved : mprofileSave copyBlock linkChains prof = .ok doc)
    (saved' : mprofileSave copyBlock' linkChains prof' = .ok doc') :
    doc.allocations.map MprofileRecord.unfiled = doc'.allocations.map MprofileRecord.unfiled := by
  rcases mprofileSave_ok solo.fresh saved with ⟨sorter, same, links⟩
  rcases mprofileSave_ok solo'.fresh saved' with ⟨sorter', same', links'⟩
  rcases solo.sorted same with ⟨isLog, -, bare⟩
  rcases solo'.sorted same' with ⟨isLog', -, bare'⟩
  cases linkChains with
  | false =>
      rw [show doc.allocations = sorter from links, show doc'.allocations = sorter' from links',
        isLog, isLog']
  | true =>
      exact (linked_of_built bare links).1.unfiled (linked_of_built bare' links').1
        (isLog.trans isLog'.symm)

/-- Without chains, every `ALLOC` is a leak. -/
theorem leaks_unlinked (unlinked : forall r, r ∈ doc.allocations -> r.mprNextId = 0) :
    (MProfile.ofDocument doc).leaks (fuel + 1) =
      some (doc.allocations.filter (fun r => r.mprState = .alloc)) := by
  have records : (MProfile.ofDocument doc).memRecords.map MemRecord.mr = doc.allocations :=
    MProfile.map_mr_calcCurrent 0 doc.allocations
  have decided : forall mr, mr ∈ (MProfile.ofDocument doc).memRecords.map MemRecord.mr ->
      (MProfile.ofDocument doc).isLeak (fuel + 1) mr = some (decide (mr.mprState = .alloc)) := by
    intro mr member
    rw [records] at member
    rw [MProfile.isLeak, MProfile.chainEnd, unlinked mr member, MProfile.getMr_zero]
    simp only [Option.map_some]
    cases mr.mprState with
    | alloc => simp
    | free => rfl
    | realloc => rfl
  rw [leaks_eq_filter decided, records]

/-- The number of leaks. -/
theorem Solo.leaks_length (solo : Solo prof tid log)
    (saved : mprofileSave copyBlock linkChains prof = .ok doc)
    (enough : doc.allocations.length < fuel) :
    Exists fun found => (MProfile.ofDocument doc).leaks fuel = some found ∧
      found.length = if linkChains then (openBlocks log).length
        else log.countP (fun r => r.mprState = .alloc) := by
  rcases mprofileSave_ok solo.fresh saved with ⟨sorter, same, links⟩
  rcases solo.sorted same with ⟨isLog, gapFree, bare⟩
  cases linkChains with
  | false =>
      have isSorter : doc.allocations = sorter := links
      have unlinked : forall r, r ∈ doc.allocations -> r.mprNextId = 0 := by
        intro r member
        rw [← bare r (isSorter ▸ member)]
        rfl
      cases fuel with
      | zero => exact absurd enough (Nat.not_lt_zero _)
      | succ fuel =>
          refine ⟨_, leaks_unlinked unlinked, ?_⟩
          rw [if_neg Bool.false_ne_true, ← List.countP_eq_length_filter, ← isLog, List.countP_map,
            isSorter]
          rfl
  | true =>
      rcases linked_of_built bare links with ⟨facts, live, replayed⟩
      refine ⟨_, (leaks_openBlocks replayed facts gapFree rfl (Nat.le_of_lt enough)).1, ?_⟩
      rw [List.length_map, if_pos rfl, ← isLog, openBlocks_unfiled]

end Saved

/-- Failed calls are neutral as long as no failure of `malloc` is recorded.  A failure that
is recorded shows in the records, and in every report that can be made of them. -/
theorem failures_neutral_iff (family : Family) (traced : family ≠ .stats) (tid : Nat)
    (calls : List (Call × Answer)) (w v : World)
    (ran : exec (callNext family tid) World.init calls = .ok w)
    (ran' : exec (callNext family tid) World.init (calls.filter (fun l => ¬ Refused l)) = .ok v) :
    ((forall l, l ∈ calls -> ¬ FailureRecorded l) -> FailuresNeutral w.prof v.prof) ∧
    (w.prof.mergedLog.map MprofileRecord.unfiled = v.prof.mergedLog.map MprofileRecord.unfiled ↔
      forall l, l ∈ calls -> ¬ FailureRecorded l) ∧
    forall linkChains copyBlock copyBlock' doc doc',
      mprofileSave copyBlock linkChains w.prof = .ok doc ->
      mprofileSave copyBlock' linkChains v.prof = .ok doc' ->
        (SameReport (MProfile.ofDocument doc) (MProfile.ofDocument doc') ↔
          forall l, l ∈ calls -> ¬ FailureRecorded l) := by
  have alongside := (alongside_init tid).run traced ran ran'
  rw [Nat.zero_add] at alongside
  rcases alongside.logs with ⟨log, log', solo, solo', padded, same⟩
  have none_iff : calls.countP (fun l => FailureRecorded l) = 0 ↔ forall l, l ∈ calls ->
      ¬ FailureRecorded l := by
    rw [List.countP_eq_zero]
    simp only [decide_eq_true_eq]
  have sameReport : (forall l, l ∈ calls -> ¬ FailureRecorded l) ->
      forall linkChains copyBlock copyBlock' doc doc',
        mprofileSave copyBlock linkChains w.prof = .ok doc ->
        mprofileSave copyBlock' linkChains v.prof = .ok doc' ->
          SameReport (MProfile.ofDocument doc) (MProfile.ofDocument doc') := by
    intro none linkChains copyBlock copyBlock' doc doc' saved saved'
    have sameLog := same (none_iff.mpr none)
    subst sameLog
    exact sameReport_of_unfiled (solo.sameRecords solo' saved saved')
  refine ⟨fun none => ⟨?_, sameReport none⟩, ⟨fun sameRecords => ?_, fun none => ?_⟩, ?_⟩
  · rw [solo.chainsComplete, solo'.chainsComplete, same (none_iff.mpr none)]
  · rw [solo.merged, solo'.merged] at sameRecords
    have allocs := padded.allocs
    rw [sameRecords] at allocs
    exact none_iff.mp (by omega)
  · rw [solo.merged, solo'.merged, same (none_iff.mpr none)]
  · intro linkChains copyBlock copyBlock' doc doc' saved saved'
    refine ⟨fun report => ?_, fun none =>
      sameReport none linkChains copyBlock copyBlock' doc doc' saved saved'⟩
    have enough : doc.allocations.length <
      doc.allocations.length + doc'.allocations.length + 1 := by omega
    have enough' : doc'.allocations.length <
      doc.allocations.length + doc'.allocations.length + 1 := by omega
    rcases solo.leaks_length saved enough with ⟨found, leaks, length⟩
    rcases solo'.leaks_length saved' enough' with ⟨found', leaks', length'⟩
    have sameLeaks := report.leaks (doc.allocations.length + doc'.allocations.length + 1)
    rw [MProfile.leakedBlocks, MProfile.leakedBlocks, leaks, leaks'] at sameLeaks
    have lengths := congrArg List.length (Option.some.inj sameLeaks)
    rw [List.length_map, List.length_map, length, length'] at lengths
    have blocks := padded.openBlocks.length
    rw [List.length_map, List.length_map] at blocks
    have allocs := padded.allocs
    apply none_iff.mp
    split_ifs at lengths
    · omega
    · omega

/-- A block that cannot be resized, and one that cannot be made by `realloc`. -/
def refusedCalls : List (Call × Answer) :=
  [(.realloc 0 7, answering 0), (.malloc 8, answering 4096), (.realloc 4112 100, answering 0),
    (.malloc 16, answering 8192), (.free 4112, answering 0)]

theorem failures_neutral_refusedCalls :
    Exists fun w => Exists fun v => Exists fun doc => Exists fun doc' =>
    exec (callNext .trace 0) World.init refusedCalls = .ok w ∧
      exec (callNext .trace 0) World.init (refusedCalls.filter (fun l => ¬ Refused l)) = .ok v ∧
      mprofileSave (fun _ => none) true w.prof = .ok doc ∧
      mprofileSave (fun _ => none) true v.prof = .ok doc' ∧
      (MProfile.ofDocument doc).leakedBlocks 4 = some [(8208, some 16)] ∧
      SameReport (MProfile.ofDocument doc) (MProfile.ofDocument doc') := by
  have reached : Exists fun w => exec (callNext .trace 0) World.init refusedCalls = .ok w ∧
      (mprofileSave (fun _ => none) true w.prof).toOption.map
        (fun doc => (MProfile.ofDocument doc).leakedBlocks 4) = some (some [(8208, some 16)]) :=
    reaches_of_check (by decide +kernel)
  have reached' : Exists fun v =>
      exec (callNext .trace 0) World.init (refusedCalls.filter (fun l => ¬ Refused l)) = .ok v ∧
      (mprofileSave (fun _ => none) true v.prof).toOption.isSome = true :=
    reaches_of_check (by decide +kernel)
  rcases reached with ⟨w, ran, document⟩
  rcases reached' with ⟨v, ran', document'⟩
  cases saved : mprofileSave (fun _ => none) true w.prof with
  | error fault => rw [saved] at document; cases document
  | ok doc =>
      cases saved' : mprofileSave (fun _ => none) true v.prof with
      | error fault => rw [saved'] at document'; cases document'
      | ok doc' =>
          rw [saved] at document
          have neutral := failures_neutral_iff .trace (by decide) 0 refusedCalls w v ran ran'
          exact ⟨w, v, doc, doc', ran, ran', saved, saved', Option.some.inj document,
            (neutral.1 (by decide +kernel)).2 true _ _ doc doc' saved saved'⟩

/-- A block is made, and another one is refused. -/
def failedCalls : List (Call × Answer) := [(.malloc 8, answering 4096), (.malloc 16, answering 0)]

theorem failedCalls_not_neutral :
    ¬ forall (calls : List (Call × Answer)) w v, exec (callNext .trace 0) World.init calls =
      .ok w ->
      exec (callNext .trace 0) World.init (calls.filter (fun l => ¬ Refused l)) = .ok v ->
        FailuresNeutral w.prof v.prof := by
  intro always
  have reached : Exists fun w => exec (callNext .trace 0) World.init failedCalls = .ok w ∧
      (mprofileSave (fun _ => none) true w.prof).toOption.map
        (fun doc => (MProfile.ofDocument doc).getTotalMem) = some 24 :=
    reaches_of_check (by decide +kernel)
  have reached' : Exists fun v =>
      exec (callNext .trace 0) World.init (failedCalls.filter (fun l => ¬ Refused l)) = .ok v ∧
      (mprofileSave (fun _ => none) true v.prof).toOption.map
        (fun doc => (MProfile.ofDocument doc).getTotalMem) = some 8 :=
    reaches_of_check (by decide +kernel)
  rcases reached with ⟨w, ran, document⟩
  rcases reached' with ⟨v, ran', document'⟩
  cases saved : mprofileSave (fun _ => none) true w.prof with
  | error fault => rw [saved] at document; cases document
  | ok doc =>
      cases saved' : mprofileSave (fun _ => none) true v.prof with
      | error fault => rw [saved'] at document'; cases document'
      | ok doc' =>
          rw [saved] at document
          rw [saved'] at document'
          have total : (MProfile.ofDocument doc).getTotalMem = 24 := Option.some.inj document
          have total' : (MProfile.ofDocument doc').getTotalMem = 8 := Option.some.inj document'
          have same := ((always failedCalls w v ran ran').2 true _ _ doc doc' saved saved').total
          rw [total, total'] at same
          exact absurd same (by decide)

end Mprofile
end OsslScripts
