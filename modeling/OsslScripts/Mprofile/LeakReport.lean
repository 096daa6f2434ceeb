import OsslScripts.Mprofile.HeldBlocks

namespace OsslScripts
namespace Mprofile

open Foundation

/-!
# The leak report

An application of one thread that frees and reallocs only what it holds runs
under a tracing hook, and its profile is saved with chains.  What it still holds
then is what the reader reports (`LeaksExact`).  On the way, the log and the
blocks that the application holds say the same of every block (`Reported`): where
it is, which record began it, and how large it is.
-/

/-- The record that began a block: its id and its address. -/
structure Origin where
  mprId : Nat
  mem : UInt64
deriving DecidableEq, Repr

/-- The block as its log has it. -/
def HeldBlock.opened (h : HeldBlock Origin) : OpenBlock :=
  ⟨h.ptr, h.tag.mprId - 1, h.tag.mem, h.sz.toNat⟩

/-- A call of an application that keeps track of what it holds. -/
def ownNext (family : Family) (tid : Nat) (s : World × List (HeldBlock Origin))
    (l : Call × Answer) :
    Except (Stop HookFault) (World × List (HeldBlock Origin)) :=
  if l.1.Legal s.2 then
    match makeCall family tid s.1 l with
    | .ok (w, rv) => .ok (w, l.1.settle ⟨w.prof.mprId, rv⟩ rv s.2)
    | .error fault => .error (.fault fault)
  else .error .disabled

/-- Every `malloc`, and every `realloc` of the null pointer to a size, succeeds. -/
def Provided (l : Call × Answer) : Prop :=
  match l.1 with
  | .malloc _ => l.2.ptr ≠ 0
  | .free _ => True
  | .realloc b sz => b = 0 -> sz ≠ 0 -> l.2.ptr ≠ 0

instance : (l : Call × Answer) -> Decidable (Provided l)
  | (.malloc _, answer) => inferInstanceAs (Decidable (answer.ptr ≠ 0))
  | (.free _, _) => instDecidableTrue
  | (.realloc b sz, answer) => inferInstanceAs (Decidable (b = 0 -> sz ≠ 0 -> answer.ptr ≠ 0))

/-- `mem_current` of the last record, 0 if there is none. -/
def MProfile.lastCurrent (profile : MProfile) : Int :=
  match profile.memRecords.getLast? with
  | none => 0
  | some mr => mr.memCurrent

/-- `leaks` finds the `ALLOC` of each of these blocks and no other record, and the
blocks have the sizes that `get_leak_sz` gives. -/
structure LeaksExact (profile : MProfile) (fuel : Nat) (held : List (HeldBlock Origin)) : Prop where
  report : Exists fun found => profile.leaks fuel = some found ∧
    found.map (fun mr => Origin.mk mr.mprId mr.mprMem) = held.map HeldBlock.tag ∧
    (forall mr, mr ∈ found -> mr.mprState = .alloc) ∧ (found.map MprofileRecord.mprId).Nodup ∧
    found.map (profile.getLeakSz fuel) = held.map (fun h => some (h.sz.toNat : Int))
  total : (held.map (fun h => (h.sz.toNat : Int))).sum = profile.lastCurrent

/-- The calls run, chains are built, and the leak report is exact. -/
def ReportsLeaks (family : Family) (tid : Nat) (calls : List (Call × Answer)) : Prop :=
  (forall stop, exec (ownNext family tid) (World.init, []) calls = .error stop ->
    stop = .disabled ∨ stop = .fault .notLibc) ∧
  forall w held, exec (ownNext family tid) (World.init, []) calls = .ok (w, held) ->
    forall copyBlock, (forall stop, mprofileSave copyBlock true w.prof ≠ .error (.chains stop)) ∧
      forall doc fuel, mprofileSave copyBlock true w.prof = .ok doc ->
        doc.allocations.length ≤ fuel ->
        LeaksExact (MProfile.ofDocument doc) fuel held

/-- The log and the application agree on the blocks. -/
structure Reported (log : List MprofileRecord) (held : List (HeldBlock Origin)) : Prop where
  live : replay log = some (held.map HeldBlock.ptr).toFinset
  blocks : openBlocks log = held.map HeldBlock.opened
  total : (log.map MprofileRecord.mprDelta).sum = (held.map (fun h => (h.sz.toNat : Int))).sum
  numbered : forall h, h ∈ held -> 0 < h.tag.mprId
  small : forall h, h ∈ held -> h.sz.toNat < 2 ^ 63

/-! ## One more record -/

section Records

variable {log : List MprofileRecord} {r : MprofileRecord} {held : List (HeldBlock Origin)}
  {h : HeldBlock Origin} {sz : UInt64}

/-- A record that does not conflict with the live addresses. -/
theorem replay_append {live after : Finset UInt64} (replayed : replay log = some live)
    (consumes : forall x, r.consumes = some x -> x ∈ live)
    (produces : forall y, r.produces = some y -> y ∈ live -> r.consumes = some y)
    (isAfter : forall x, x ∈ after ↔ r.produces = some x ∨ x ∈ live ∧ r.consumes ≠ some x) :
    replay (log ++ [r]) = some after := by
  have whole : replay (log ++ [r]) = replayStep live r := by
    rw [replay, replayFrom_append, show replayFrom ∅ log = some live from replayed]
    simp only [replayFrom]
    cases replayStep live r <;> rfl
  rw [whole]
  cases stepped : replayStep live r with
  | none =>
      rcases (replayStep_none_iff live r).mp stepped with
        ⟨x, isConsumed, absent⟩ | ⟨y, isProduced, present, other⟩
      · exact absurd (consumes x isConsumed) absent
      · exact absurd (produces y isProduced present) other
  | some result =>
      congr 1
      ext x
      rw [mem_replayStep stepped, isAfter]

theorem sum_deltas_append : ((log ++ [r]).map MprofileRecord.mprDelta).sum =
    (log.map MprofileRecord.mprDelta).sum + r.mprDelta := by
  rw [List.map_append, List.sum_append, List.map_singleton, List.sum_singleton]

/-- An `ALLOC` at an address that is not in use. -/
theorem Reported.alloc (reported : Reported log held) (isAlloc : r.mprState = .alloc)
    (new : forall h, h ∈ held -> h.ptr ≠ r.mprMem) (exact : r.mprDelta = sz.toNat)
    (fits : sz.toNat < 2 ^ 63) :
    Reported (log ++ [r]) (held ++ [⟨r.mprMem, sz, ⟨log.length + 1, r.mprMem⟩⟩]) := by
  have consumes : r.consumes = none := by rw [MprofileRecord.consumes, isAlloc]
  have produces : r.produces = some r.mprMem := by rw [MprofileRecord.produces, isAlloc]
  refine ⟨?_, ?_, ?_, fun h member => ?_, fun h member => ?_⟩
  · apply replay_append reported.live
    · intro x isConsumed
      rw [consumes] at isConsumed
      cases isConsumed
    · intro y isProduced present
      rw [produces] at isProduced
      cases isProduced
      rcases List.mem_map.mp (List.mem_toFinset.mp present) with ⟨h, member, same⟩
      exact absurd same (new h member)
    · intro x
      rw [List.mem_toFinset, List.mem_toFinset, List.map_append, List.mem_append,
        List.map_singleton,
        List.mem_singleton, consumes, produces]
      constructor
      · rintro (old | isNew)
        · exact Or.inr ⟨old, (Option.some_ne_none x).symm⟩
        · exact Or.inl (congrArg some isNew.symm)
      · rintro (isNew | old)
        · exact Or.inr (Option.some.inj isNew).symm
        · exact Or.inl old.1
  · rw [openBlocks_append, reported.blocks, openStep, isAlloc]
    simp only [List.map_append, List.map_singleton, HeldBlock.opened, exact, Nat.add_sub_cancel]
  · rw [sum_deltas_append, reported.total, List.map_append, List.sum_append, List.map_singleton,
      List.sum_singleton, exact]
  · rcases List.mem_append.mp member with old | isNew
    · exact reported.numbered h old
    · rw [List.mem_singleton.mp isNew]
      exact Nat.succ_pos _
  · rcases List.mem_append.mp member with old | isNew
    · exact reported.small h old
    · rw [List.mem_singleton.mp isNew]
      exact fits

/-- A `FREE` of the null pointer. -/
theorem Reported.nothing (reported : Reported log held) (isFree : r.mprState = .free)
    (null : r.mprMem = 0) (exact : r.mprDelta = 0) : Reported (log ++ [r]) held := by
  have consumes : r.consumes = none := by
    rw [MprofileRecord.consumes, isFree]
    exact if_pos null
  have produces : r.produces = none := by rw [MprofileRecord.produces, isFree]
  refine ⟨?_, ?_, ?_, reported.numbered, reported.small⟩
  · apply replay_append reported.live
    · intro x isConsumed
      rw [consumes] at isConsumed
      cases isConsumed
    · intro y isProduced
      rw [produces] at isProduced
      cases isProduced
    · intro x
      simp [consumes, produces]
  · rw [openBlocks_append, reported.blocks, openStep, isFree]
    simp only [if_pos null]
  · rw [sum_deltas_append, reported.total, exact, Int.add_zero]

/-- A `FREE` of a block. -/
theorem Reported.release (reported : Reported log held) (isFree : r.mprState = .free)
    (apart : (held.map HeldBlock.ptr).Nodup) (member : h ∈ held) (here : r.mprMem = h.ptr)
    (isPointer : h.ptr ≠ 0) (exact : r.mprDelta = -(h.sz.toNat : Int)) :
    Reported (log ++ [r]) (held.filter (fun k => k.ptr ≠ h.ptr)) := by
  have consumes : r.consumes = some h.ptr := by
    rw [MprofileRecord.consumes, isFree, here]
    exact if_neg isPointer
  have produces : r.produces = none := by rw [MprofileRecord.produces, isFree]
  have blocks : openBlocks (log ++ [r]) = (held.filter (fun k => k.ptr ≠ h.ptr)).map
      HeldBlock.opened := by
    rw [openBlocks_append, reported.blocks, openStep, isFree, here]
    simp only [if_neg isPointer]
    exact List.filter_map
  have sums := sum_of_key (fun k : HeldBlock Origin => (k.sz.toNat : Int)) apart member
  refine ⟨?_, blocks, ?_, fun k present => reported.numbered k (List.mem_filter.mp present).1,
    fun k present => reported.small k (List.mem_filter.mp present).1⟩
  · apply replay_append reported.live
    · intro x isConsumed
      rw [consumes] at isConsumed
      cases isConsumed
      exact List.mem_toFinset.mpr (List.mem_map_of_mem member)
    · intro y isProduced
      rw [produces] at isProduced
      cases isProduced
    · intro x
      simp only [List.mem_toFinset, List.mem_map, List.mem_filter, consumes, produces,
        decide_eq_true_eq]
      constructor
      · rintro ⟨k, ⟨present, different⟩, rfl⟩
        exact Or.inr ⟨⟨k, present, rfl⟩, fun same => different (Option.some.inj same).symm⟩
      · rintro (impossible | ⟨⟨k, present, rfl⟩, different⟩)
        · cases impossible
        · exact ⟨k, ⟨present, fun same => different (by rw [same])⟩, rfl⟩
  · rw [sum_deltas_append, reported.total, sums.1, exact]
    omega

/-- A `REALLOC` of a block, to where it is or to a new address. -/
theorem Reported.resize (reported : Reported log held) (isRealloc : r.mprState = .realloc)
    (apart : (held.map HeldBlock.ptr).Nodup) (member : h ∈ held) (here : r.mprRealloc = h.ptr)
    (new : forall k, k ∈ held -> k.ptr ≠ h.ptr -> k.ptr ≠ r.mprMem)
    (exact : r.mprDelta = (sz.toNat : Int) - h.sz.toNat) (fits : sz.toNat < 2 ^ 63) :
    Reported (log ++ [r])
      (held.map (fun k => if k.ptr = h.ptr then ⟨r.mprMem, sz, k.tag⟩ else k)) := by
  have consumes : r.consumes = some h.ptr := by rw [MprofileRecord.consumes, isRealloc, here]
  have produces : r.produces = some r.mprMem := by rw [MprofileRecord.produces, isRealloc]
  rcases split_of_key apart member with ⟨before, after, whole, -, changed⟩
  have same : forall k, k ∈ held -> k.ptr = h.ptr -> k = h := fun k present equal =>
    List.inj_on_of_nodup_map apart present member equal
  refine ⟨?_, ?_, ?_, fun k present => ?_, fun k present => ?_⟩
  · apply replay_append reported.live
    · intro x isConsumed
      rw [consumes] at isConsumed
      cases isConsumed
      exact List.mem_toFinset.mpr (List.mem_map_of_mem member)
    · intro y isProduced present
      rw [produces] at isProduced
      cases isProduced
      rcases List.mem_map.mp (List.mem_toFinset.mp present) with ⟨k, isHeld, equal⟩
      by_cases isArgument : k.ptr = h.ptr
      · rw [consumes, ← isArgument, equal]
      · exact absurd equal (new k isHeld isArgument)
    · intro x
      rw [changed (fun k => ⟨r.mprMem, sz, k.tag⟩), whole]
      rw [whole, List.map_append, List.map_cons, List.nodup_middle, List.nodup_cons,
        ← List.map_append] at apart
      have others : forall k, k ∈ before ++ after -> k.ptr ≠ h.ptr :=
        fun k present equal => apart.1 (equal ▸ List.mem_map_of_mem present)
      simp only [List.mem_toFinset, List.map_append, List.map_cons, List.mem_append, List.mem_cons,
        consumes, produces, ne_eq, Option.some.injEq]
      constructor
      · rintro (isBefore | rfl | isAfter)
        · rcases List.mem_map.mp isBefore with ⟨k, present, rfl⟩
          exact Or.inr ⟨Or.inl isBefore, (others k (List.mem_append_left _ present)).symm⟩
        · exact Or.inl rfl
        · rcases List.mem_map.mp isAfter with ⟨k, present, rfl⟩
          exact Or.inr ⟨Or.inr (Or.inr isAfter), (others k (List.mem_append_right _ present)).symm⟩
      · rintro (isNew | ⟨isBefore | isOld | isAfter, different⟩)
        · exact Or.inr (Or.inl isNew.symm)
        · exact Or.inl isBefore
        · exact absurd isOld.symm different
        · exact Or.inr (Or.inr isAfter)
  · rw [openBlocks_append, reported.blocks, openStep, isRealloc, here]
    simp only [List.map_map]
    refine List.map_congr_left (fun k present => ?_)
    rw [Function.comp_apply, Function.comp_apply, HeldBlock.opened]
    by_cases isArgument : k.ptr = h.ptr
    · rw [if_pos isArgument, if_pos isArgument, same k present isArgument, OpenBlock.moved,
        HeldBlock.opened,
        exact]
      simp only [OpenBlock.mk.injEq, true_and]
      omega
    · rw [if_neg isArgument, if_neg isArgument, HeldBlock.opened]
  · have sums := sum_of_key (fun k : HeldBlock Origin => (k.sz.toNat : Int)) apart member
    rw [sum_deltas_append, reported.total, sums.1, sums.2 (fun k => ⟨r.mprMem, sz, k.tag⟩), exact]
    change _ = (sz.toNat : Int) + _
    omega
  · rcases List.mem_map.mp present with ⟨old, isOld, rfl⟩
    split_ifs
    · exact reported.numbered old isOld
    · exact reported.numbered old isOld
  · rcases List.mem_map.mp present with ⟨old, isOld, rfl⟩
    split_ifs
    · exact fits
    · exact reported.small old isOld

end Records

/-! ## A call -/

section Calls

variable {log : List MprofileRecord} {held : List (HeldBlock Origin)}
  {heap : UInt64 -> Option Block}
  {answer : Answer} {out : TracedCall}

/-- A `FREE` of what the application may pass. -/
theorem Reported.freed (reported : Reported log held) (holding : Holding heap held) {b sz : UInt64}
    (legal : b = 0 ∨ b ∈ held.map HeldBlock.ptr) (read : argumentSize heap b = .ok sz)
    {r : MprofileRecord}
    (isFree : r.mprState = .free) (here : r.mprMem = b) (exact : r.mprDelta = toSsize (sz * -1)) :
    Reported (log ++ [r]) (held.filter (fun k => k.ptr ≠ b)) := by
  by_cases null : b = 0
  · have whole : held.filter (fun k => k.ptr ≠ b) = held :=
      List.filter_eq_self.mpr
        (fun k present => decide_eq_true (null ▸ (holding.headed k present).1))
    have isNothing : sz = 0 := by
      rw [null] at read
      cases read
      rfl
    rw [whole]
    apply reported.nothing isFree (here.trans null)
    rw [exact, isNothing]
    decide
  · rcases List.mem_map.mp (legal.resolve_left null) with ⟨h, member, rfl⟩
    rw [holding.argumentSize member] at read
    cases read
    apply reported.release isFree holding.apart member here null
    rw [exact, toSsize_neg_iff]
    exact Nat.le_of_lt (reported.small h member)

/-- The `ALLOC` of a block that the application holds from now on. -/
theorem Reported.made (reported : Reported log held) {rv sz : UInt64} {tag : Origin}
    (after : Holding heap (held ++ [⟨rv, sz, tag⟩])) (small : sz.toNat < 2 ^ 63)
    {r : MprofileRecord}
    (isAlloc : r.mprState = .alloc) (here : r.mprMem = rv) (exact : r.mprDelta = toSsize sz) :
    Reported (log ++ [r]) (held ++ [⟨rv, sz, ⟨log.length + 1, rv⟩⟩]) := by
  subst here
  refine reported.alloc isAlloc (fun k present same => ?_) (exact.trans (toSsize_small small)) small
  have apart := after.apart
  rw [List.map_append, List.nodup_append] at apart
  exact apart.2.2 _ (List.mem_map_of_mem present) r.mprMem (List.mem_singleton.mpr rfl) same

/-- The `REALLOC` of a block of the application. -/
theorem Reported.resized (reported : Reported log held) (holding : Holding heap held)
    {h : HeldBlock Origin}
    (member : h ∈ held) {rv sz : UInt64} {heap' : UInt64 -> Option Block}
    (after : Holding heap' (held.map (fun k => if k.ptr = h.ptr then ⟨rv, sz, k.tag⟩ else k)))
    (small : sz.toNat < 2 ^ 63) {r : MprofileRecord} (isRealloc : r.mprState = .realloc)
    (here : r.mprMem = rv) (argument : r.mprRealloc = h.ptr)
    (exact : r.mprDelta = toSsize (sz - h.sz)) :
    Reported (log ++ [r]) (held.map (fun k => if k.ptr = h.ptr then ⟨rv, sz, k.tag⟩ else k)) := by
  subst here
  apply reported.resize isRealloc holding.apart member argument
  · exact elsewhere_of_key holding.apart member after.apart
  · have orig := reported.small h member
    rw [exact, toSsize_sub_iff sz h.sz small]
    omega
  · exact small

/-- A call leaves the log and the application in agreement. -/
theorem Reported.call (reported : Reported log held) (holding : Holding heap held) {call : Call}
    (legal : call.Legal held) (provided : Provided (call, answer)) (fits : call.Fits answer)
    (recordOk : answer.recordOk = true) (outcome : TracedOutcome heap answer call out)
    (mprId : Nat) :
    Reported (log ++ out.records answer mprId)
      (call.settle ⟨(log ++ out.records answer mprId).length, out.rv⟩ out.rv held) := by
  have after := holding.call fits.2 outcome ⟨(log ++ out.records answer mprId).length, out.rv⟩
  rw [TracedCall.records, if_pos recordOk] at after ⊢
  cases outcome with
  | refused taken => exact absurd (malloc_result taken).symm provided
  | @made sz mh middle heap' taken isBlock stored =>
      have isPointer := stored_pointer after.heapWf stored
      simp only [Call.settle, if_neg isPointer, Option.toList_some, List.map_singleton,
        List.length_append,
        List.length_singleton] at after ⊢
      exact reported.made after (fits.1 (malloc_result taken ▸ isBlock)) rfl rfl rfl
  | @freed b sz heap' read released =>
      exact reported.freed holding legal read rfl rfl rfl
  | @ended b sz q heap' read taken =>
      simp only [Call.settle, if_pos]
      exact reported.freed holding legal read rfl rfl rfl
  | @kept b sz origSz heap' isSize read taken =>
      simp only [Call.settle, if_neg isSize, if_pos, Option.toList_none, List.map_nil,
        List.append_nil]
      exact reported
  | @resized b sz origSz mh middle heap' isSize read taken isBlock stored =>
      have isPointer := stored_pointer after.heapWf stored
      have small := fits.1 (realloc_result taken ▸ isBlock)
      simp only [Call.settle, if_neg isSize, if_neg isPointer, Option.toList_some,
        List.map_singleton,
        List.length_append, List.length_singleton] at after ⊢
      by_cases null : b = 0
      · simp only [if_pos null] at after ⊢
        exact reported.made after small rfl rfl rfl
      · rcases List.mem_map.mp (legal.resolve_left null) with ⟨h, member, same⟩
        have argument : b = h.ptr := same.symm
        subst argument
        rw [holding.argumentSize member] at read
        cases read
        simp only [if_neg null] at after ⊢
        exact reported.resized holding member after small rfl rfl rfl rfl

end Calls

/-! ## A run -/

/-- The application follows its blocks, and the log does so too. -/
structure Reporting (tid : Nat) (s : World × List (HeldBlock Origin)) : Prop where
  holding : Holding s.1.heap s.2
  agrees : Exists fun log => Solo s.1.prof tid log ∧ Reported log s.2

section Runs

variable {family : Family} {tid : Nat} {s s' : World × List (HeldBlock Origin)} {l : Call × Answer}

theorem reporting_init (tid : Nat) : Reporting tid (World.init, []) :=
  ⟨holding_init, [], solo_init tid, rfl, rfl, rfl, fun _ member => absurd member List.not_mem_nil,
    fun _ member => absurd member List.not_mem_nil⟩

theorem Reporting.next (traced : family ≠ .stats) (reporting : Reporting tid s)
    (grants : l.2.Grants)
    (provided : Provided l) (fits : l.1.Fits l.2)
    (stepped : ownNext family tid s l = .ok s') : Reporting tid s' := by
  rcases reporting.agrees with ⟨log, solo, reported⟩
  unfold ownNext at stepped
  by_cases legal : l.1.Legal s.2
  · rw [if_pos legal] at stepped
    cases made : makeCall family tid s.1 l with
    | error fault => rw [made] at stepped; cases stepped
    | ok result =>
        rcases result with ⟨w, rv⟩
        rw [made] at stepped
        cases stepped
        rcases solo.madeCall traced made with ⟨out, ran, sameHeap, rfl, soloAfter⟩
        have outcome := traced_outcome ran
        have numbered := soloAfter.length
        refine ⟨?_, _, soloAfter, ?_⟩
        · rw [sameHeap]
          exact reporting.holding.call fits.2 outcome _
        · rw [← numbered]
          exact reported.call reporting.holding legal provided fits grants.2 outcome _
  · rw [if_neg legal] at stepped
    cases stepped

/-- A call of an application that follows its blocks fails only if it passes none of them,
or if an answer is none that libc may give. -/
theorem Reporting.stops (traced : family ≠ .stats) (reporting : Reporting tid s)
    (grants : l.2.Grants)
    (fits : l.1.Fits l.2)
    {stop : Stop HookFault} (stopped : ownNext family tid s l = .error stop) :
    stop = .disabled ∨ stop = .fault .notLibc := by
  rcases reporting.agrees with ⟨log, solo, -⟩
  unfold ownNext at stopped
  by_cases legal : l.1.Legal s.2
  · rw [if_pos legal] at stopped
    cases made : makeCall family tid s.1 l with
    | ok result => rw [made] at stopped; cases stopped
    | error fault =>
        rw [made] at stopped
        cases stopped
        rcases solo.madeCall_fault traced grants made with failed | isFault
        · rw [reporting.holding.traced_fault legal fits failed]
          exact Or.inr rfl
        · rw [isFault]
          exact Or.inr rfl
  · rw [if_neg legal] at stopped
    cases stopped
    exact Or.inl rfl

end Runs

/-! ## What is saved -/

section Saved

variable {prof : Profiler} {tid : Nat} {log : List MprofileRecord} {held : List (HeldBlock Origin)}
  {copyBlock : Nat -> Option (Int -> UInt64)} {doc : Document} {fuel : Nat}

/-- Stacks have no part in the blocks of a log. -/
theorem openBlocks_unfiled (log : List MprofileRecord) :
    openBlocks (log.map MprofileRecord.unfiled) = openBlocks log := by
  unfold openBlocks
  generalize ([] : List OpenBlock) = blocks
  generalize 0 = pos
  induction log generalizing pos blocks with
  | nil => rfl
  | cons mpr rest inductionHypothesis =>
      rw [List.map_cons, openFrom, openFrom, inductionHypothesis]
      rfl

/-- The last running total is the sum of all deltas. -/
theorem lastCurrent_ofDocument (doc : Document) :
    (MProfile.ofDocument doc).lastCurrent = (doc.allocations.map MprofileRecord.mprDelta).sum := by
  rw [MProfile.lastCurrent, MProfile.ofDocument]
  induction doc.allocations using List.reverseRecOn with
  | nil => rfl
  | append_singleton records mr _ =>
      rw [MProfile.calcCurrent_append, MProfile.calcCurrent, MProfile.calcCurrent,
        List.getLast?_concat,
        List.map_append, List.sum_append, List.map_singleton, List.sum_singleton, Int.zero_add]

/-- The records that are sorted for a process of one thread. -/
theorem Solo.sorted (solo : Solo prof tid log) {sorter : List MprofileRecord}
    (same : sorter.map MprofileRecord.unfiled = prof.mergedLog.map MprofileRecord.unfiled) :
    sorter.map MprofileRecord.unfiled = log ∧ GapFree sorter ∧ forall r, r ∈ sorter ->
      r.bare = r := by
  have isLog : sorter.map MprofileRecord.unfiled = log := same.trans solo.merged
  refine ⟨isLog, fun i inside => ?_, fun r member => ?_⟩
  · have inLog : i < log.length := by rwa [← isLog, List.length_map]
    have ids := solo.gapFree i inLog
    rw [← isLog, recordAt, List.getD_eq_getElem?_getD, List.getElem?_map,
      List.getElem?_eq_getElem inside] at ids
    rw [recordAt, List.getD_eq_getElem _ _ inside]
    exact ids
  · have blank := solo.blank r.unfiled (isLog ▸ List.mem_map_of_mem member)
    exact bare_of_unlinked blank.1 blank.2.1

/-- The chains of an application that follows its blocks are built. -/
theorem Reported.chained (reported : Reported log held) (solo : Solo prof tid log)
    (stop : ChainStop) :
    mprofileSave copyBlock true prof ≠ .error (.chains stop) := by
  intro failed
  rcases mprofileSave_mergedLog solo.fresh _ failed with
    (null | ⟨reason, merge⟩) | ⟨other, -, sorter, same, stopped⟩
  · cases null
  · cases merge
  · rcases solo.sorted same with ⟨isLog, -, bare⟩
    have replayed : replay sorter = some (held.map HeldBlock.ptr).toFinset := by
      rw [← replay_unfiled, isLog, reported.live]
    rcases buildChains_linked sorter bare replayed with ⟨linked, built, -⟩
    rw [built] at stopped
    cases stopped

/-- What the reader finds in what is saved of an application that follows its blocks. -/
theorem Reported.leaksExact (reported : Reported log held) (solo : Solo prof tid log)
    (saved : mprofileSave copyBlock true prof = .ok doc) (enough : doc.allocations.length ≤ fuel) :
    LeaksExact (MProfile.ofDocument doc) fuel held := by
  rcases mprofileSave_ok solo.fresh saved with ⟨sorter, same, built⟩
  rcases solo.sorted same with ⟨isLog, gapFree, bare⟩
  have replayed : replay sorter = some (held.map HeldBlock.ptr).toFinset := by
    rw [← replay_unfiled, isLog, reported.live]
  have blocks : openBlocks sorter = held.map HeldBlock.opened := by
    rw [← openBlocks_unfiled, isLog, reported.blocks]
  rcases buildChains_linked sorter bare replayed with ⟨linked, isBuilt, facts⟩
  have isLinked : doc.allocations = linked := by
    rw [if_pos rfl, isBuilt] at built
    exact (Except.ok.inj built).symm
  have opened := opened_openBlocks replayed
  rcases leaks_openBlocks replayed facts gapFree isLinked (isLinked ▸ enough) with ⟨leaks, sizes⟩
  have inside : forall block, block ∈ openBlocks sorter -> block.start < linked.length :=
    fun block member => facts.length.symm ▸ (opened.blocksOf block member).inside
  have ids : forall block, block ∈ openBlocks sorter ->
      (recordAt linked block.start).mprId = block.start + 1 :=
    fun block member => (facts.id _).trans (gapFree _ (opened.blocksOf block member).inside)
  constructor
  · refine ⟨_, leaks, ?_, fun mr member => ?_, ?_, ?_⟩
    · rw [List.map_map]
      calc (openBlocks sorter).map (_ ∘ fun block => recordAt linked block.start)
          = (openBlocks sorter).map (fun block => Origin.mk (block.start + 1) block.origin) := by
            refine List.map_congr_left (fun block member => ?_)
            rw [Function.comp_apply, ids block member, (facts.sameRecord (inside block member)).2.1,
              (opened.blocksOf block member).origin]
        _ = held.map HeldBlock.tag := by
            rw [blocks, List.map_map]
            refine List.map_congr_left (fun h member => ?_)
            rw [Function.comp_apply, HeldBlock.opened,
              Nat.sub_add_cancel (reported.numbered h member)]
    · rcases List.mem_map.mp member with ⟨block, isBlock, rfl⟩
      rw [(facts.sameRecord (inside block isBlock)).1]
      exact (opened.blocksOf block isBlock).alloc
    · rw [List.map_map]
      have increasing : ((openBlocks sorter).map (fun block => block.start + 1)).Pairwise
          (fun a b => a < b) :=
        List.pairwise_map.mpr ((List.pairwise_map.mp opened.ordered).imp Nat.succ_lt_succ)
      rw [List.map_congr_left (g := fun block => block.start + 1) ids]
      exact increasing.imp Nat.ne_of_lt
    · rw [List.map_map, blocks, List.map_map]
      refine List.map_congr_left (fun h member => ?_)
      exact sizes h.opened (blocks ▸ List.mem_map_of_mem member)
  · rw [lastCurrent_ofDocument, solo.savedDeltas saved, reported.total]

end Saved

/-- Whatever an application of one thread does with its blocks, the leak report is
exact: it names the `ALLOC` of each block that is still held, and no other, with the
size that was last asked for, and the sizes add up to the last `mem_current`. -/
theorem leaks_exact (family : Family) (traced : family ≠ .stats) (tid : Nat)
    (calls : List (Call × Answer)) (granted : forall l, l ∈ calls -> l.2.Grants)
    (provided : forall l, l ∈ calls -> Provided l) (fits : forall l, l ∈ calls -> l.1.Fits l.2) :
    ReportsLeaks family tid calls := by
  have meets : Meets (ownNext family tid) (fun _ l => l.2.Grants ∧ Provided l ∧ l.1.Fits l.2)
      (World.init, []) calls :=
    meets_of_forall (fun l member => ⟨granted l member, provided l member, fits l member⟩)
  have kept : forall s l s', Reporting tid s -> l.2.Grants ∧ Provided l ∧ l.1.Fits l.2 ->
      ownNext family tid s l = .ok s' -> Reporting tid s' :=
    fun s l s' reporting fine => reporting.next traced fine.1 fine.2.1 fine.2.2
  constructor
  · intro stop stopped
    refine exec_stops_of_meets (Reporting tid)
      (fun stop => stop = .disabled ∨ stop = .fault .notLibc) kept
      (fun s l stop reporting fine failed => ?_) (reporting_init tid) meets stopped
    exact reporting.stops traced fine.1 fine.2.2 failed
  · intro w held executed copyBlock
    rcases (exec_invariant (Reporting tid) kept (reporting_init tid) meets executed).agrees with
      ⟨log, solo, reported⟩
    exact ⟨reported.chained solo, fun doc fuel saved enough =>
      reported.leaksExact solo saved enough⟩

/-- Two blocks are freed in the two ways that there are, one moves, a size is refused,
and a freed address is used again. -/
def recycledCalls : List (Call × Answer) :=
  [(.malloc 8, answering 4096), (.realloc 0 5, answering 8192),
    (.realloc 4112 100, answering 12288),
    (.free 0, answering 0), (.realloc 8208 0, answering 0), (.malloc 3, answering 4096),
    (.realloc 12304 7, answering 0), (.realloc 0 0, answering 0), (.malloc 40, answering 16384),
    (.free 16400, answering 0)]

theorem leaks_exact_recycledCalls : Exists fun w => Exists fun doc =>
    exec (ownNext .trace 0) (World.init, []) recycledCalls =
        .ok (w, [⟨12304, 100, ⟨1, 4112⟩⟩, ⟨4112, 3, ⟨6, 4112⟩⟩]) ∧
      mprofileSave (fun _ => none) true w.prof = .ok doc ∧
      LeaksExact (MProfile.ofDocument doc) doc.allocations.length
        [⟨12304, 100, ⟨1, 4112⟩⟩, ⟨4112, 3, ⟨6, 4112⟩⟩] := by
  have reached : Exists fun s => exec (ownNext .trace 0) (World.init, []) recycledCalls = .ok s ∧
      s.2 = [⟨12304, 100, ⟨1, 4112⟩⟩, ⟨4112, 3, ⟨6, 4112⟩⟩] ∧
      (mprofileSave (fun _ => none) true s.1.prof).toOption.isSome = true :=
    reaches_of_check (by decide +kernel)
  rcases reached with ⟨⟨w, held⟩, executed, rfl, document⟩
  cases saved : mprofileSave (fun _ => none) true w.prof with
  | error fault => rw [saved] at document; cases document
  | ok doc =>
      have exact := leaks_exact .trace (by decide) 0 recycledCalls (by decide +kernel)
        (by decide +kernel) (by decide +kernel)
      exact ⟨w, doc, executed, saved,
        (exact.2 w _ executed (fun _ => none)).2 doc _ saved (Nat.le_refl _)⟩

/-- A block is resized to the size that wraps around, and its address is given out again. -/
def wrappedCalls : List (Call × Answer) :=
  [(.malloc 8, answering 4096), (.realloc 4112 0xFFFFFFFFFFFFFFF0, answering 0),
    (.malloc 8, answering 4096)]

theorem wrappedCalls_not_reported :
    ¬ forall calls : List (Call × Answer), (forall l, l ∈ calls -> l.2.Grants) ->
      (forall l, l ∈ calls -> Provided l) -> ReportsLeaks .trace 0 calls := by
  intro always
  have reached : Exists fun s => exec (ownNext .trace 0) (World.init, []) wrappedCalls = .ok s ∧
      mprofileSave (fun _ => none) true s.1.prof = .error (.chains .allocFound) :=
    reaches_of_check (by decide +kernel)
  rcases reached with ⟨⟨w, held⟩, executed, stopped⟩
  have reports := always wrappedCalls (by decide +kernel) (by decide +kernel)
  exact (reports.2 w held executed (fun _ => none)).1 _ stopped

end Mprofile
end OsslScripts
