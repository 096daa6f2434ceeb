import OsslScripts.Mprofile.ChainWalk

namespace OsslScripts
namespace Mprofile

/-!
# The blocks that a log leaves open

A log read as a history of blocks: an `ALLOC` begins a block, a `REALLOC` moves
and resizes it, and a `FREE` ends it.  `MProfile.leaks` comes to the same list
by following the links that `build_chains` wrote.  What connects the two is the
life of a block (`Life`): the chain of links from its `ALLOC` on, with the sum
of the deltas along the way.
-/

/-- A block: its address, the position and the address of its `ALLOC`, and its
size as the deltas add up to it. -/
structure OpenBlock where
  mem : UInt64
  start : Nat
  origin : UInt64
  size : Int
deriving DecidableEq, Repr

/-- A `REALLOC` moves the block and changes its size. -/
def OpenBlock.moved (block : OpenBlock) (mpr : MprofileRecord) : OpenBlock :=
  { block with mem := mpr.mprMem, size := block.size + mpr.mprDelta }

/-- The open blocks after the record at a position. -/
def openStep (pos : Nat) (blocks : List OpenBlock) (mpr : MprofileRecord) : List OpenBlock :=
  match mpr.mprState with
  | .alloc => blocks ++ [⟨mpr.mprMem, pos, mpr.mprMem, mpr.mprDelta⟩]
  | .free =>
      if mpr.mprMem = 0 then blocks else blocks.filter (fun block => block.mem ≠ mpr.mprMem)
  | .realloc =>
      blocks.map (fun block => if block.mem = mpr.mprRealloc then block.moved mpr else block)

def openFrom : Nat -> List OpenBlock -> List MprofileRecord -> List OpenBlock
  | _, blocks, [] => blocks
  | pos, blocks, mpr :: rest => openFrom (pos + 1) (openStep pos blocks mpr) rest

/-- The blocks that are open at the end of a log, in the order of their allocation. -/
def openBlocks (log : List MprofileRecord) : List OpenBlock := openFrom 0 [] log

/-- The links lead from the record at `i` to the record at `e`, which has no
successor, and the deltas of the records on the way add up to `size`. -/
inductive Life (log : List MprofileRecord) : Nat -> Nat -> Int -> Prop where
  | last {i : Nat} (unlinked : forall j, ¬ LinkedBy log j i) :
    Life log i i (recordAt log i).mprDelta
  | next {i j e : Nat} {size : Int} (link : LinkedBy log j i) (rest : Life log j e size) :
      Life log i e ((recordAt log i).mprDelta + size)

/-- The block ends with a `FREE`. -/
def Ended (log : List MprofileRecord) (i : Nat) : Prop :=
  Exists fun e => Exists fun size =>
    Life log i e size ∧ e < log.length ∧ (recordAt log e).mprState = .free

/-- A block of the list is that of an `ALLOC`, whose life has led to the last
producer of its address. -/
structure OpenBlock.Of (log : List MprofileRecord) (block : OpenBlock) : Prop where
  inside : block.start < log.length
  alloc : (recordAt log block.start).mprState = .alloc
  origin : (recordAt log block.start).mprMem = block.origin
  life : Exists fun e => OpenAt log block.mem e ∧ Life log block.start e block.size

/-- The list holds the blocks of the `ALLOC`s that no `FREE` has ended. -/
structure Opened (log : List MprofileRecord) (blocks : List OpenBlock) : Prop where
  ordered : (blocks.map OpenBlock.start).Pairwise (fun a b => a < b)
  blocksOf : forall block, block ∈ blocks -> block.Of log
  complete : forall i, i < log.length -> (recordAt log i).mprState = .alloc ->
    i ∈ blocks.map OpenBlock.start ∨ Ended log i

section Lives

variable {log : List MprofileRecord} {r : MprofileRecord} {i e : Nat} {size : Int}

theorem openFrom_append (pos : Nat) (blocks : List OpenBlock) (first second : List MprofileRecord) :
    openFrom pos blocks (first ++ second) =
      openFrom (pos + first.length) (openFrom pos blocks first) second := by
  induction first generalizing pos blocks with
  | nil => rfl
  | cons mpr rest inductionHypothesis =>
      have shift : pos + (mpr :: rest).length = pos + 1 + rest.length := by
        rw [List.length_cons]
        omega
      rw [List.cons_append, openFrom, openFrom, inductionHypothesis, shift]

theorem openBlocks_append (log : List MprofileRecord) (r : MprofileRecord) :
    openBlocks (log ++ [r]) = openStep log.length (openBlocks log) r := by
  rw [openBlocks, openFrom_append, Nat.zero_add]
  rfl

/-- The last record has no successor. -/
theorem not_linkedBy_length (j : Nat) : ¬ LinkedBy (log ++ [r]) j log.length := by
  intro linkedBy
  have before := linkedBy.lt
  have inside := linkedBy.lt_length
  rw [List.length_append, List.length_singleton] at inside
  omega

theorem life_append_length : Life (log ++ [r]) log.length log.length r.mprDelta := by
  have single : Life (log ++ [r]) log.length log.length
      (recordAt (log ++ [r]) log.length).mprDelta :=
    Life.last not_linkedBy_length
  rwa [recordAt_append_length] at single

/-- A life that is not taken further stays as it is. -/
theorem Life.append (life : Life log i e size) (inside : e < log.length)
    (unlinked : forall x, r.consumes = some x -> ¬ LastProducer log x e log.length) :
    Life (log ++ [r]) i e size := by
  induction life with
  | last none =>
      rw [← recordAt_append_left inside (r := r)]
      refine Life.last (fun j linkedBy => ?_)
      rcases linkedBy_append_cases linkedBy with ⟨_, old⟩ | isLast
      · exact none j old
      · subst isLast
        rcases linkedBy_append_length.mp linkedBy with ⟨x, consumes, producer⟩
        exact unlinked x consumes producer
  | next link rest inductionHypothesis =>
      rw [← recordAt_append_left (link.lt.trans link.lt_length) (r := r)]
      exact Life.next ((linkedBy_append_left link.lt_length).mpr link)
        (inductionHypothesis inside unlinked)

/-- A record that consumes what the last record produced takes the life further. -/
theorem Life.extend {x : UInt64} (life : Life log i e size) (consumes : r.consumes = some x)
    (producer : LastProducer log x e log.length) :
    Life (log ++ [r]) i log.length (size + r.mprDelta) := by
  induction life with
  | last none =>
      rw [← recordAt_append_left producer.1 (r := r)]
      exact Life.next (linkedBy_append_length.mpr ⟨x, consumes, producer⟩) life_append_length
  | next link rest inductionHypothesis =>
      rw [← recordAt_append_left (link.lt.trans link.lt_length) (r := r), Int.add_assoc]
      exact Life.next ((linkedBy_append_left link.lt_length).mpr link)
        (inductionHypothesis producer)

/-- A block that ended stays ended. -/
theorem Ended.append (released : Ended log i) : Ended (log ++ [r]) i := by
  rcases released with ⟨e, size, life, inside, free⟩
  refine ⟨e, size, life.append inside (fun x consumes producer => ?_), ?_, ?_⟩
  · have nothing : produced log e = none := by
      rw [produced_eq inside, MprofileRecord.produces, free]
    rw [producer.2.1] at nothing
    cases nothing
  · rw [List.length_append]
    exact Nat.lt_add_right _ inside
  · rwa [recordAt_append_left inside]

end Lives

/-! ## One more record -/

section Steps

variable {log : List MprofileRecord} {r : MprofileRecord} {blocks : List OpenBlock}
  {block : OpenBlock}

/-- A block that the record neither consumes nor overwrites. -/
theorem OpenBlock.Of.append (isBlock : block.Of log) (notProduced : r.produces ≠ some block.mem)
    (notConsumed : r.consumes ≠ some block.mem) : block.Of (log ++ [r]) := by
  rcases isBlock.life with ⟨e, isOpen, life⟩
  refine ⟨?_, ?_, ?_, e,
    (openAt_append_old isOpen.lt_length).mpr ⟨isOpen, notProduced, notConsumed⟩,
    life.append isOpen.lt_length (fun x consumes producer => ?_)⟩
  · rw [List.length_append]
    exact Nat.lt_add_right _ isBlock.inside
  · rw [recordAt_append_left isBlock.inside]
    exact isBlock.alloc
  · rw [recordAt_append_left isBlock.inside]
    exact isBlock.origin
  · have same : x = block.mem := Option.some.inj (producer.2.1.symm.trans isOpen.1.2.1)
    exact notConsumed (same ▸ consumes)

/-- The block that a `REALLOC` moves. -/
theorem OpenBlock.Of.move (isBlock : block.Of log) (consumes : r.consumes = some block.mem)
    (produces : r.produces = some r.mprMem) : (block.moved r).Of (log ++ [r]) := by
  rcases isBlock.life with ⟨e, isOpen, life⟩
  refine ⟨?_, ?_, ?_, log.length, openAt_append_length.mpr produces, life.extend consumes isOpen.1⟩
  · rw [List.length_append]
    exact Nat.lt_add_right _ isBlock.inside
  · exact (congrArg MprofileRecord.mprState (recordAt_append_left isBlock.inside)).trans
      isBlock.alloc
  · exact (congrArg MprofileRecord.mprMem (recordAt_append_left isBlock.inside)).trans
      isBlock.origin

/-- The block that a `FREE` ends. -/
theorem OpenBlock.Of.release (isBlock : block.Of log) (consumes : r.consumes = some block.mem)
    (free : r.mprState = .free) : Ended (log ++ [r]) block.start := by
  rcases isBlock.life with ⟨e, isOpen, life⟩
  refine ⟨log.length, block.size + r.mprDelta, life.extend consumes isOpen.1, ?_, ?_⟩
  · rw [List.length_append, List.length_singleton]
    exact Nat.lt_succ_self _
  · rw [recordAt_append_length]
    exact free

/-- The `ALLOC`s of the longer log. -/
theorem Opened.completeAppend (opened : Opened log blocks) {after : List OpenBlock}
    (kept : forall i, i ∈ blocks.map OpenBlock.start ->
      i ∈ after.map OpenBlock.start ∨ Ended (log ++ [r]) i)
    (new : r.mprState = .alloc -> log.length ∈ after.map OpenBlock.start) (i : Nat)
    (inside : i < (log ++ [r]).length) (alloc : (recordAt (log ++ [r]) i).mprState = .alloc) :
    i ∈ after.map OpenBlock.start ∨ Ended (log ++ [r]) i := by
  rw [List.length_append, List.length_singleton] at inside
  by_cases isLast : i = log.length
  · subst isLast
    rw [recordAt_append_length] at alloc
    exact Or.inl (new alloc)
  · have old : i < log.length := by omega
    rw [recordAt_append_left old] at alloc
    rcases opened.complete i old alloc with present | released
    · exact kept i present
    · exact Or.inr released.append

/-- What a record does to the list of open blocks. -/
theorem Opened.step {live after : Finset UInt64} (opened : Opened log blocks)
    (lives : forall x e, OpenAt log x e -> x ∈ live) (replayed : replayStep live r = some after) :
    Opened (log ++ [r]) (openStep log.length blocks r) := by
  have noConflict : ¬ replayStep live r = none := by
    rw [replayed]
    exact Option.some_ne_none after
  rw [replayStep_none_iff, not_or] at noConflict
  -- an address in use is not produced, unless the record consumes it
  have apart : forall block, block ∈ blocks -> r.consumes ≠ some block.mem ->
      r.produces ≠ some block.mem := by
    intro block member notConsumed produces
    rcases (opened.blocksOf block member).life with ⟨e, isOpen, -⟩
    exact noConflict.2 ⟨block.mem, produces, lives _ e isOpen, notConsumed⟩
  unfold openStep
  cases state : r.mprState with
  | alloc =>
      have consumes : r.consumes = none := by rw [MprofileRecord.consumes, state]
      have produces : r.produces = some r.mprMem := by rw [MprofileRecord.produces, state]
      refine ⟨?_, fun block member => ?_, opened.completeAppend (fun i present => ?_) (fun _ => ?_)⟩
      · rw [List.map_append]
        refine List.pairwise_append.mpr ⟨opened.ordered, List.pairwise_singleton _ _,
          fun a old b new => ?_⟩
        rcases List.mem_map.mp old with ⟨block, member, rfl⟩
        rw [List.mem_singleton.mp new]
        exact (opened.blocksOf block member).inside
      · rcases List.mem_append.mp member with old | new
        · have notConsumed : r.consumes ≠ some block.mem := by
            rw [consumes]
            exact (Option.some_ne_none _).symm
          exact (opened.blocksOf block old).append (apart block old notConsumed) notConsumed
        · rw [List.mem_singleton.mp new]
          refine ⟨?_, ?_, ?_, log.length, openAt_append_length.mpr produces, life_append_length⟩
          · rw [List.length_append, List.length_singleton]
            exact Nat.lt_succ_self _
          · rw [recordAt_append_length]
            exact state
          · rw [recordAt_append_length]
      · rw [List.map_append]
        exact Or.inl (List.mem_append_left _ present)
      · rw [List.map_append]
        exact List.mem_append_right _ (List.mem_singleton.mpr rfl)
  | free =>
      have produces : forall x, r.produces ≠ some x := by
        intro x
        rw [MprofileRecord.produces, state]
        exact (Option.some_ne_none x).symm
      by_cases null : r.mprMem = 0
      · have consumes : forall x, r.consumes ≠ some x := by
          intro x
          rw [MprofileRecord.consumes, state]
          simp only [if_pos null]
          exact (Option.some_ne_none x).symm
        simp only [if_pos null]
        refine ⟨opened.ordered, fun block member => ?_,
          opened.completeAppend (fun i present => Or.inl present) (fun alloc => ?_)⟩
        · exact (opened.blocksOf block member).append (produces _) (consumes _)
        · rw [state] at alloc
          cases alloc
      · have consumes : r.consumes = some r.mprMem := by
          rw [MprofileRecord.consumes, state]
          exact if_neg null
        simp only [if_neg null]
        refine ⟨?_, fun block member => ?_,
          opened.completeAppend (fun i present => ?_) (fun alloc => ?_)⟩
        · exact opened.ordered.sublist (List.filter_sublist.map _)
        · rcases List.mem_filter.mp member with ⟨old, different⟩
          refine (opened.blocksOf block old).append (produces _) (fun same => ?_)
          rw [consumes] at same
          exact of_decide_eq_true different (Option.some.inj same).symm
        · rcases List.mem_map.mp present with ⟨block, member, rfl⟩
          by_cases here : block.mem = r.mprMem
          · exact Or.inr ((opened.blocksOf block member).release (by rw [consumes, here]) state)
          · exact Or.inl (List.mem_map_of_mem (List.mem_filter.mpr ⟨member, decide_eq_true here⟩))
        · rw [state] at alloc
          cases alloc
  | realloc =>
      have consumes : r.consumes = some r.mprRealloc := by rw [MprofileRecord.consumes, state]
      have produces : r.produces = some r.mprMem := by rw [MprofileRecord.produces, state]
      have sameStarts : (blocks.map (fun block =>
          if block.mem = r.mprRealloc then block.moved r else block)).map OpenBlock.start =
            blocks.map OpenBlock.start := by
        rw [List.map_map]
        refine List.map_congr_left (fun block _ => ?_)
        rw [Function.comp_apply]
        split_ifs <;> rfl
      refine ⟨?_, fun block member => ?_,
        opened.completeAppend (fun i present => ?_) (fun alloc => ?_)⟩
      · rw [sameStarts]
        exact opened.ordered
      · rcases List.mem_map.mp member with ⟨old, isOld, rfl⟩
        by_cases here : old.mem = r.mprRealloc
        · rw [if_pos here]
          exact (opened.blocksOf old isOld).move (by rw [consumes, here]) produces
        · have notConsumed : r.consumes ≠ some old.mem := by
            rw [consumes]
            exact fun same => here (Option.some.inj same).symm
          rw [if_neg here]
          exact (opened.blocksOf old isOld).append (apart old isOld notConsumed) notConsumed
      · rw [sameStarts]
        exact Or.inl present
      · rw [state] at alloc
        cases alloc

end Steps

/-- An address with an open block is live. -/
theorem live_of_openAt {log : List MprofileRecord} {live : Finset UInt64}
    (replayed : replay log = some live) {x : UInt64} {e : Nat} (isOpen : OpenAt log x e) :
    x ∈ live := by
  induction log using List.reverseRecOn generalizing live e with
  | nil => exact absurd isOpen.lt_length (Nat.not_lt_zero e)
  | append_singleton log r inductionHypothesis =>
      rw [replay, replayFrom_append] at replayed
      cases before : replayFrom ∅ log with
      | none => rw [before] at replayed; cases replayed
      | some middle =>
          rw [before] at replayed
          simp only [replayFrom] at replayed
          cases stepped : replayStep middle r with
          | none => rw [stepped] at replayed; cases replayed
          | some after =>
              rw [stepped] at replayed
              cases replayed
              rw [mem_replayStep stepped]
              rcases openAt_append_exists.mp ⟨e, isOpen⟩ with produces | ⟨⟨i, old⟩, notConsumed⟩
              · exact Or.inl produces
              · exact Or.inr ⟨inductionHypothesis before old, notConsumed⟩

/-- In a log that replays, the open blocks are those of the `ALLOC`s that no `FREE` has ended. -/
theorem opened_openBlocks {log : List MprofileRecord} {live : Finset UInt64}
    (replayed : replay log = some live) : Opened log (openBlocks log) := by
  induction log using List.reverseRecOn generalizing live with
  | nil =>
      exact ⟨List.Pairwise.nil, fun block member => absurd member List.not_mem_nil,
        fun i inside _ => absurd inside (Nat.not_lt_zero i)⟩
  | append_singleton log r inductionHypothesis =>
      rw [replay, replayFrom_append] at replayed
      cases before : replayFrom ∅ log with
      | none => rw [before] at replayed; cases replayed
      | some middle =>
          rw [before] at replayed
          simp only [replayFrom] at replayed
          cases stepped : replayStep middle r with
          | none => rw [stepped] at replayed; cases replayed
          | some after =>
              rw [openBlocks_append]
              exact (inductionHypothesis before).step
                (fun x e isOpen => live_of_openAt before isOpen) stepped

/-! ## What the reader finds -/

section Reading

variable {log linked : List MprofileRecord} {doc : Document} {fuel i e : Nat} {size : Int}

/-- Linking changes only the links of a record. -/
theorem Linked.sameRecord (facts : Linked log linked) (inside : i < linked.length) :
    (recordAt linked i).mprState = (recordAt log i).mprState ∧
      (recordAt linked i).mprMem = (recordAt log i).mprMem ∧
        (recordAt linked i).mprDelta = (recordAt log i).mprDelta := by
  rw [← facts.recordAt_bare inside]
  exact ⟨rfl, rfl, rfl⟩

/-- The loops of `is_leak` and `get_leak_sz` follow the life of a block. -/
theorem Life.read (life : Life log i e size) (facts : Linked log linked) (gapFree : GapFree log)
    (saved : doc.allocations = linked) (inside : i < linked.length)
    (enough : linked.length ≤ fuel + i) :
    (MProfile.ofDocument doc).chainEnd fuel (recordAt linked i) = some (recordAt linked e) ∧
      (MProfile.ofDocument doc).getLeakSz fuel (recordAt linked i) = some size := by
  induction life generalizing fuel with
  | @last i unlinked =>
      have noNext := facts.noNext i unlinked
      have delta := (facts.sameRecord inside).2.2
      cases fuel with
      | zero => omega
      | succ fuel =>
          constructor
          · rw [MProfile.chainEnd, noNext, MProfile.getMr_zero]
          · rw [MProfile.getLeakSz, MProfile.getNext, if_neg (not_not.mpr noNext), delta]
  | @next i j e size link rest inductionHypothesis =>
      have before := link.lt
      have insideJ : j < linked.length := facts.length.symm ▸ link.lt_length
      have isNext : (recordAt linked i).mprNextId = j + 1 := by
        rw [(facts.link j i link).2, gapFree j link.lt_length]
      have delta := (facts.sameRecord inside).2.2
      cases fuel with
      | zero => omega
      | succ fuel =>
          have onward := @inductionHypothesis fuel insideJ (by omega)
          cases lookup : (MProfile.ofDocument doc).getMr (j + 1) with
          | none =>
              have present := MProfile.getMr_isSome doc (j + 1) (by omega) (by rw [saved]; omega)
              rw [lookup] at present
              cases present
          | some found =>
              have here := (MProfile.getMr_some lookup).2.2
              have same : found.mr = recordAt linked j := by
                rw [saved, Nat.add_sub_cancel] at here
                rw [recordAt, List.getD_eq_getElem?_getD, here, Option.getD_some]
              constructor
              · rw [MProfile.chainEnd, isNext, lookup]
                simp only [same]
                exact onward.1
              · rw [MProfile.getLeakSz, MProfile.getNext, isNext,
                  if_pos (Nat.succ_ne_zero j), lookup]
                simp only [same]
                rw [onward.2, delta]
                rfl

/-- Whether the record at a position is a leak. -/
theorem isLeak_recordAt (opened : Opened log (openBlocks log)) (facts : Linked log linked)
    (gapFree : GapFree log) (saved : doc.allocations = linked) (inside : i < linked.length)
    (enough : linked.length ≤ fuel + i) :
    (MProfile.ofDocument doc).isLeak fuel (recordAt linked i) =
      some (decide (i ∈ (openBlocks log).map OpenBlock.start)) := by
  have inLog : i < log.length := facts.length ▸ inside
  rw [MProfile.isLeak, (facts.sameRecord inside).1]
  by_cases present : i ∈ (openBlocks log).map OpenBlock.start
  · rcases List.mem_map.mp present with ⟨block, member, rfl⟩
    have isBlock := opened.blocksOf block member
    rcases isBlock.life with ⟨e, isOpen, life⟩
    have insideE : e < linked.length := facts.length.symm ▸ isOpen.lt_length
    have notFree : (recordAt linked e).mprState ≠ .free := by
      intro free
      have produces := isOpen.1.2.1
      rw [produced_eq isOpen.lt_length, MprofileRecord.produces, ← (facts.sameRecord insideE).1,
        free] at produces
      cases produces
    rw [if_neg (not_not.mpr isBlock.alloc), (life.read facts gapFree saved inside enough).1,
      Option.map_some, decide_eq_true present, decide_eq_true notFree]
  · rw [decide_eq_false present]
    by_cases alloc : (recordAt log i).mprState = .alloc
    · rcases (opened.complete i inLog alloc).resolve_left present with
        ⟨e, size, life, insideE, free⟩
      have isFree : ¬ (recordAt linked e).mprState ≠ .free := by
        rw [(facts.sameRecord (facts.length.symm ▸ insideE)).1]
        exact not_not.mpr free
      rw [if_neg (not_not.mpr alloc), (life.read facts gapFree saved inside enough).1,
        Option.map_some,
        decide_eq_false isFree]
    · rw [if_pos alloc]

/-- `leaks` filters the records. -/
theorem leaks_eq_filter {profile : MProfile} {leak : MprofileRecord -> Bool}
    (decided : forall mr, mr ∈ profile.memRecords.map MemRecord.mr ->
      profile.isLeak fuel mr = some (leak mr)) :
    profile.leaks fuel = some ((profile.memRecords.map MemRecord.mr).filter leak) := by
  unfold MProfile.leaks
  generalize profile.memRecords.map MemRecord.mr = records at decided
  induction records with
  | nil => rfl
  | cons mr rest inductionHypothesis =>
      have onward :=
        inductionHypothesis (fun other member => decided other (List.mem_cons_of_mem mr member))
      rw [List.foldr_cons, onward, decided mr List.mem_cons_self, List.filter_cons]
      cases leak mr <;> rfl

/-- Increasing positions are what a filter leaves of all positions. -/
theorem filter_range_mem {starts : List Nat} {n : Nat}
    (ordered : starts.Pairwise (fun a b => a < b))
    (below : forall i, i ∈ starts -> i < n) :
    (List.range n).filter (fun i => decide (i ∈ starts)) = starts := by
  have sorted : ((List.range n).filter (fun i => decide (i ∈ starts))).Pairwise
      (fun a b => a < b) :=
    List.pairwise_lt_range.filter _
  refine List.Perm.eq_of_pairwise (fun a b _ _ less greater => absurd less (Nat.lt_asymm greater))
    sorted ordered ?_
  refine (List.perm_ext_iff_of_nodup (sorted.imp Nat.ne_of_lt) (ordered.imp Nat.ne_of_lt)).mpr
    (fun i => ?_)
  rw [List.mem_filter, List.mem_range, decide_eq_true_eq]
  exact ⟨fun parts => parts.2, fun member => ⟨below i member, member⟩⟩

theorem eq_map_recordAt (log : List MprofileRecord) :
    (List.range log.length).map (recordAt log) = log := by
  apply List.ext_getElem
  · rw [List.length_map, List.length_range]
  · intro i _ inside
    rw [List.getElem_map, List.getElem_range, recordAt, List.getD_eq_getElem _ _ inside]

/-- In a linked log, `leaks` finds the `ALLOC`s of open blocks, and `get_leak_sz` their sizes. -/
theorem leaks_openBlocks {live : Finset UInt64} (replayed : replay log = some live)
    (facts : Linked log linked) (gapFree : GapFree log) (saved : doc.allocations = linked)
    (enough : linked.length ≤ fuel) :
    (MProfile.ofDocument doc).leaks fuel =
        some ((openBlocks log).map (fun block => recordAt linked block.start)) ∧
      forall block, block ∈ openBlocks log ->
        (MProfile.ofDocument doc).getLeakSz fuel (recordAt linked block.start) =
          some block.size := by
  have opened := opened_openBlocks replayed
  have below : forall i, i ∈ (openBlocks log).map OpenBlock.start -> i < linked.length := by
    intro i present
    rcases List.mem_map.mp present with ⟨block, member, rfl⟩
    exact facts.length.symm ▸ (opened.blocksOf block member).inside
  have records : (MProfile.ofDocument doc).memRecords.map MemRecord.mr = linked := by
    rw [← saved]
    exact MProfile.map_mr_calcCurrent 0 doc.allocations
  -- a record is known by its id
  have position : forall i, i < linked.length -> (recordAt linked i).mprId - 1 = i := by
    intro i inside
    rw [facts.id, gapFree i (facts.length ▸ inside), Nat.add_sub_cancel]
  constructor
  · have decided : forall mr, mr ∈ (MProfile.ofDocument doc).memRecords.map MemRecord.mr ->
        (MProfile.ofDocument doc).isLeak fuel mr =
          some (decide (mr.mprId - 1 ∈ (openBlocks log).map OpenBlock.start)) := by
      intro mr member
      rw [records] at member
      rcases mem_recordAt member with ⟨i, inside, rfl⟩
      rw [position i inside]
      exact isLeak_recordAt opened facts gapFree saved inside (by omega)
    rw [leaks_eq_filter decided, records]
    refine congrArg some ?_
    calc linked.filter (fun mr => decide (mr.mprId - 1 ∈ (openBlocks log).map OpenBlock.start))
        = ((List.range linked.length).map (recordAt linked)).filter
            (fun mr => decide (mr.mprId - 1 ∈ (openBlocks log).map OpenBlock.start)) := by
          rw [eq_map_recordAt]
      _ = ((List.range linked.length).filter
            (fun i => decide (i ∈ (openBlocks log).map OpenBlock.start))).map
                (recordAt linked) := by
          rw [List.filter_map]
          refine congrArg _ (List.filter_congr (fun i member => ?_))
          rw [Function.comp_apply, position i (List.mem_range.mp member)]
      _ = ((openBlocks log).map OpenBlock.start).map (recordAt linked) := by
          rw [filter_range_mem opened.ordered below]
      _ = (openBlocks log).map (fun block => recordAt linked block.start) := List.map_map
  · intro block member
    rcases (opened.blocksOf block member).life with ⟨e, isOpen, life⟩
    have inside := below block.start (List.mem_map_of_mem member)
    exact (life.read facts gapFree saved inside (by omega)).2

end Reading

end Mprofile
end OsslScripts
