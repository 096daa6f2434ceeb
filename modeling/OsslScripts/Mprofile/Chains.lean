import OsslScripts.Mprofile.Reader
import Mathlib.Data.List.GetD

namespace OsslScripts
namespace Mprofile

open Foundation

/-!
# Allocation chains

What `build_chains` does to a whole log.  A record that consumes an address is
linked with the last record before it that produced this address
(`LinkedBy`).  The tree of open blocks holds, for every live address, exactly
the record which would be linked next (`OpenAt`); this is the invariant that
relates the tree, the links written so far and the replay of the log.

Positions in the queue stand for the records themselves.
-/

section Positions

/-- The address that the record at a position produces. -/
def produced (log : List MprofileRecord) (i : Nat) : Option UInt64 :=
  log[i]?.bind MprofileRecord.produces

/-- The address that the record at a position consumes. -/
def consumed (log : List MprofileRecord) (i : Nat) : Option UInt64 :=
  log[i]?.bind MprofileRecord.consumes

/-- The record at `i` is the last one before `j` to produce the address. -/
def LastProducer (log : List MprofileRecord) (x : UInt64) (i j : Nat) : Prop :=
  i < j ∧ produced log i = some x ∧ forall k, i < k -> k < j -> produced log k ≠ some x

/-- The record at `j` consumes an address that the record at `i` was the last to produce. -/
def LinkedBy (log : List MprofileRecord) (j i : Nat) : Prop :=
  Exists fun x => consumed log j = some x ∧ LastProducer log x i j

/-- The block of the record at `i` is open at the end of the log. -/
def OpenAt (log : List MprofileRecord) (x : UInt64) (i : Nat) : Prop :=
  LastProducer log x i log.length ∧ forall k, i < k -> k < log.length -> consumed log k ≠ some x

variable {log : List MprofileRecord} {r : MprofileRecord} {x : UInt64} {i j : Nat}

theorem LastProducer.unique {i' : Nat} (first : LastProducer log x i j)
    (second : LastProducer log x i' j) : i = i' := by
  rcases Nat.lt_trichotomy i i' with earlier | same | later
  · exact absurd second.2.1 (first.2.2 i' earlier second.1)
  · exact same
  · exact absurd first.2.1 (second.2.2 i later first.1)

/-- A consuming record has at most one predecessor. -/
theorem LinkedBy.unique {i' : Nat} (first : LinkedBy log j i) (second : LinkedBy log j i') :
    i = i' := by
  rcases first with ⟨x, consumesX, lastX⟩
  rcases second with ⟨y, consumesY, lastY⟩
  rw [consumesX] at consumesY
  cases consumesY
  exact lastX.unique lastY

theorem LinkedBy.lt (linked : LinkedBy log j i) : i < j := by
  rcases linked with ⟨x, consumes, last⟩
  exact last.1

theorem lt_length_of_consumed (consumes : consumed log j = some x) : j < log.length := by
  by_contra beyond
  rw [consumed, List.getElem?_eq_none (Nat.le_of_not_lt beyond)] at consumes
  cases consumes

theorem LinkedBy.lt_length (linked : LinkedBy log j i) : j < log.length := by
  rcases linked with ⟨x, consumes, -⟩
  exact lt_length_of_consumed consumes

theorem produced_append_left (inside : i < log.length) :
    produced (log ++ [r]) i = produced log i := by
  rw [produced, produced, List.getElem?_append_left inside]

theorem consumed_append_left (inside : i < log.length) :
    consumed (log ++ [r]) i = consumed log i := by
  rw [consumed, consumed, List.getElem?_append_left inside]

theorem produced_append_length : produced (log ++ [r]) log.length = r.produces := by
  rw [produced, List.getElem?_append_right (Nat.le_refl _), Nat.sub_self]
  rfl

theorem consumed_append_length : consumed (log ++ [r]) log.length = r.consumes := by
  rw [consumed, List.getElem?_append_right (Nat.le_refl _), Nat.sub_self]
  rfl

theorem lastProducer_append (upTo : j ≤ log.length) :
    LastProducer (log ++ [r]) x i j ↔ LastProducer log x i j := by
  constructor
  · rintro ⟨before, produces, last⟩
    rw [produced_append_left (by omega)] at produces
    refine ⟨before, produces, fun k after inside => ?_⟩
    have := last k after inside
    rwa [produced_append_left (by omega)] at this
  · rintro ⟨before, produces, last⟩
    refine ⟨before, by rwa [produced_append_left (by omega)], fun k after inside => ?_⟩
    rw [produced_append_left (by omega)]
    exact last k after inside

theorem linkedBy_append_left (inside : j < log.length) :
    LinkedBy (log ++ [r]) j i ↔ LinkedBy log j i := by
  unfold LinkedBy
  simp only [consumed_append_left inside, lastProducer_append (Nat.le_of_lt inside)]

theorem linkedBy_append_length :
    LinkedBy (log ++ [r]) log.length i ↔
      Exists fun x => r.consumes = some x ∧ LastProducer log x i log.length := by
  unfold LinkedBy
  simp only [consumed_append_length, lastProducer_append (Nat.le_refl _)]

/-- An open block has no successor yet. -/
theorem OpenAt.not_linked (isOpen : OpenAt log x i) : ¬ LinkedBy log j i := by
  rintro ⟨y, consumes, before, produces, -⟩
  have same : x = y := Option.some.inj (isOpen.1.2.1.symm.trans produces)
  subst same
  exact isOpen.2 j before (lt_length_of_consumed consumes) consumes

/-- Whether an older block is open after one more record. -/
theorem openAt_append_old (old : i < log.length) :
    OpenAt (log ++ [r]) x i ↔ OpenAt log x i ∧ r.produces ≠ some x ∧ r.consumes ≠ some x := by
  have longer : (log ++ [r]).length = log.length + 1 := by simp
  constructor
  · rintro ⟨⟨-, produces, last⟩, unconsumed⟩
    rw [longer] at last unconsumed
    rw [produced_append_left old] at produces
    refine ⟨⟨⟨old, produces, fun k after inside => ?_⟩, fun k after inside => ?_⟩, ?_, ?_⟩
    · have := last k after (by omega)
      rwa [produced_append_left inside] at this
    · have := unconsumed k after (by omega)
      rwa [consumed_append_left inside] at this
    · have := last log.length old (by omega)
      rwa [produced_append_length] at this
    · have := unconsumed log.length old (by omega)
      rwa [consumed_append_length] at this
  · rintro ⟨⟨⟨-, produces, last⟩, unconsumed⟩, notProduced, notConsumed⟩
    refine ⟨⟨by omega, by rwa [produced_append_left old], fun k after inside => ?_⟩,
      fun k after inside => ?_⟩
    · rw [longer] at inside
      by_cases here : k = log.length
      · rw [here, produced_append_length]; exact notProduced
      · rw [produced_append_left (by omega)]; exact last k after (by omega)
    · rw [longer] at inside
      by_cases here : k = log.length
      · rw [here, consumed_append_length]; exact notConsumed
      · rw [consumed_append_left (by omega)]; exact unconsumed k after (by omega)

/-- The block of the last record is open if the record produces one. -/
theorem openAt_append_length : OpenAt (log ++ [r]) x log.length ↔ r.produces = some x := by
  have longer : (log ++ [r]).length = log.length + 1 := by simp
  constructor
  · rintro ⟨⟨-, produces, -⟩, -⟩
    rwa [produced_append_length] at produces
  · intro produces
    exact ⟨⟨by omega, by rwa [produced_append_length], fun k after inside => by omega⟩,
      fun k after inside => by omega⟩

theorem OpenAt.lt_length (isOpen : OpenAt log x i) : i < log.length := isOpen.1.1

end Positions

/-! ## The links written so far -/

/-- The record at a position. -/
def recordAt (log : List MprofileRecord) (i : Nat) : MprofileRecord := log.getD i default

/-- A record without its links. -/
def MprofileRecord.bare (r : MprofileRecord) : MprofileRecord :=
  { r with mprPrevId := 0, mprNextId := 0 }

theorem bare_of_unlinked {mpr : MprofileRecord} (prev : mpr.mprPrevId = 0)
    (next : mpr.mprNextId = 0) : mpr.bare = mpr := by
  cases mpr
  simp only at prev next
  rw [MprofileRecord.bare, prev, next]

/-- The links in a queue are those of the log, and no others. -/
structure Linked (log linked : List MprofileRecord) : Prop where
  bare : linked.map MprofileRecord.bare = log
  link : forall j i, LinkedBy log j i ->
    (recordAt linked j).mprPrevId = (recordAt log i).mprId ∧
      (recordAt linked i).mprNextId = (recordAt log j).mprId
  noPrev : forall j, (forall i, ¬ LinkedBy log j i) -> (recordAt linked j).mprPrevId = 0
  noNext : forall i, (forall j, ¬ LinkedBy log j i) -> (recordAt linked i).mprNextId = 0

section Links

variable {log linked : List MprofileRecord} {r : MprofileRecord} {x : UInt64} {i j : Nat}

theorem recordAt_append_left (inside : i < log.length) :
    recordAt (log ++ [r]) i = recordAt log i := by
  rw [recordAt, recordAt, List.getD_append _ _ _ _ inside]

theorem recordAt_append_length : recordAt (log ++ [r]) log.length = r := by
  rw [recordAt, List.getD_append_right _ _ _ _ (Nat.le_refl _), Nat.sub_self]
  rfl

theorem recordAt_beyond (beyond : log.length ≤ i) : recordAt log i = default := by
  rw [recordAt, List.getD_eq_default _ _ beyond]

/-- A link changes no record but for its links. -/
theorem map_bare_modify (log : List MprofileRecord) (i nextId : Nat) :
    (log.modify i (fun r => { r with mprNextId := nextId })).map MprofileRecord.bare =
      log.map MprofileRecord.bare := by
  apply List.ext_getElem?
  intro k
  rw [List.getElem?_map, List.getElem?_map, List.getElem?_modify]
  by_cases same : i = k
  · simp only [if_pos same]
    cases log[k]? <;> rfl
  · simp only [if_neg same]
    cases log[k]? <;> rfl

theorem recordAt_modify_self {f : MprofileRecord -> MprofileRecord} (inside : i < log.length) :
    recordAt (log.modify i f) i = f (recordAt log i) := by
  simp only [recordAt, List.getD_eq_getElem?_getD, List.getElem?_modify_eq,
    List.getElem?_eq_getElem inside, Option.map_eq_map, Option.map_some, Option.getD_some]

theorem recordAt_modify_of_ne {f : MprofileRecord -> MprofileRecord} (different : i ≠ j) :
    recordAt (log.modify i f) j = recordAt log j := by
  simp only [recordAt, List.getD_eq_getElem?_getD, List.getElem?_modify_ne _ _ different]

theorem Linked.length (facts : Linked log linked) : linked.length = log.length := by
  rw [← facts.bare, List.length_map]

theorem Linked.id (facts : Linked log linked) (i : Nat) :
    (recordAt linked i).mprId = (recordAt log i).mprId := by
  by_cases inside : i < linked.length
  · have inLog : i < log.length := facts.length ▸ inside
    have same : (linked.map MprofileRecord.bare)[i]? = log[i]? := by rw [facts.bare]
    rw [List.getElem?_map, List.getElem?_eq_getElem inside, List.getElem?_eq_getElem inLog] at same
    rw [recordAt, recordAt, List.getD_eq_getElem _ _ inside, List.getD_eq_getElem _ _ inLog,
      ← Option.some.inj same]
    rfl
  · rw [recordAt_beyond (Nat.le_of_not_lt inside),
      recordAt_beyond (facts.length ▸ Nat.le_of_not_lt inside)]

/-- A link of the longer log is a link of the log, or ends in the new record. -/
theorem linkedBy_append_cases (linkedBy : LinkedBy (log ++ [r]) j i) :
    (j < log.length ∧ LinkedBy log j i) ∨ j = log.length := by
  by_cases inside : j < log.length
  · exact Or.inl ⟨inside, (linkedBy_append_left inside).mp linkedBy⟩
  · have := linkedBy.lt_length
    rw [List.length_append, List.length_singleton] at this
    exact Or.inr (by omega)

/-- A record that is linked with nothing leaves all links as they are. -/
theorem Linked.append (facts : Linked log linked) (fresh : r.bare = r)
    (consumesNothing : r.consumes = none) : Linked (log ++ [r]) (linked ++ [r]) := by
  have sameLength := facts.length
  have noLink : forall i, ¬ LinkedBy (log ++ [r]) log.length i := by
    intro i linkedBy
    rcases linkedBy_append_length.mp linkedBy with ⟨x, consumes, -⟩
    rw [consumesNothing] at consumes
    cases consumes
  refine ⟨by rw [List.map_append, facts.bare, List.map_singleton, fresh], ?_, ?_, ?_⟩
  · intro j i linkedBy
    rcases linkedBy_append_cases linkedBy with ⟨inside, old⟩ | last
    · have before := old.lt
      rw [recordAt_append_left (by omega), recordAt_append_left (by omega),
        recordAt_append_left (by omega), recordAt_append_left (by omega)]
      exact facts.link j i old
    · exact absurd (last ▸ linkedBy) (noLink i)
  · intro j unlinked
    rcases Nat.lt_trichotomy j log.length with inside | last | beyond
    · rw [recordAt_append_left (by omega)]
      exact facts.noPrev j (fun i old => unlinked i ((linkedBy_append_left inside).mpr old))
    · rw [last, ← sameLength, recordAt_append_length, ← fresh]
      rfl
    · rw [recordAt_beyond (by rw [List.length_append, List.length_singleton]; omega)]
      rfl
  · intro i unlinked
    rcases Nat.lt_trichotomy i log.length with inside | last | beyond
    · rw [recordAt_append_left (by omega)]
      exact facts.noNext i
        (fun j old => unlinked j ((linkedBy_append_left old.lt_length).mpr old))
    · rw [last, ← sameLength, recordAt_append_length, ← fresh]
      rfl
    · rw [recordAt_beyond (by rw [List.length_append, List.length_singleton]; omega)]
      rfl

/-- A record that consumes an open block is linked with it, both ways. -/
theorem Linked.append_link (facts : Linked log linked) (fresh : r.bare = r)
    (consumes : r.consumes = some x) (isOpen : OpenAt log x i) :
    Linked (log ++ [r])
      (linked.modify i (fun old => { old with mprNextId := r.mprId }) ++
        [{ r with mprPrevId := (recordAt linked i).mprId }]) := by
  have sameLength := facts.length
  have opened := isOpen.lt_length
  have modified : (linked.modify i (fun old => { old with mprNextId := r.mprId })).length =
      log.length := by rw [List.length_modify, sameLength]
  have theLink : forall i', LinkedBy (log ++ [r]) log.length i' ↔ i' = i := by
    intro i'
    rw [linkedBy_append_length]
    constructor
    · rintro ⟨y, consumesY, last⟩
      rw [consumes] at consumesY
      cases consumesY
      exact last.unique isOpen.1
    · rintro rfl
      exact ⟨x, consumes, isOpen.1⟩
  refine ⟨?_, ?_, ?_, ?_⟩
  · have last : ({ r with mprPrevId := (recordAt linked i).mprId } : MprofileRecord).bare = r :=
      fresh
    rw [List.map_append, map_bare_modify, facts.bare, List.map_singleton, last]
  · intro j i' linkedBy
    rcases linkedBy_append_cases linkedBy with ⟨inside, old⟩ | last
    · have before := old.lt
      -- the block at `i` was open, so no older link leaves it
      have other : i ≠ i' := by
        rintro rfl
        exact isOpen.not_linked old
      rw [recordAt_append_left (by omega), recordAt_append_left (by omega),
        recordAt_append_left (by omega), recordAt_append_left (by omega),
        recordAt_modify_of_ne other]
      by_cases here : i = j
      · subst here
        rw [recordAt_modify_self (by omega)]
        exact facts.link i i' old
      · rw [recordAt_modify_of_ne here]
        exact facts.link j i' old
    · rw [last] at linkedBy ⊢
      rw [(theLink i').mp linkedBy]
      constructor
      · rw [← modified, recordAt_append_length, recordAt_append_left opened]
        exact facts.id i
      · rw [recordAt_append_left (by omega), recordAt_modify_self (by omega),
          recordAt_append_length]
  · intro j unlinked
    rcases Nat.lt_trichotomy j log.length with inside | last | beyond
    · have prev := facts.noPrev j
        (fun i old => unlinked i ((linkedBy_append_left inside).mpr old))
      rw [recordAt_append_left (by omega)]
      by_cases here : i = j
      · subst here
        rw [recordAt_modify_self (by omega)]
        exact prev
      · rw [recordAt_modify_of_ne here]
        exact prev
    · exact absurd ((theLink i).mpr rfl) (last ▸ unlinked i)
    · rw [recordAt_beyond (by rw [List.length_append, List.length_singleton]; omega)]
      rfl
  · intro i' unlinked
    rcases Nat.lt_trichotomy i' log.length with inside | last | beyond
    · have other : i ≠ i' := by
        rintro rfl
        exact unlinked log.length ((theLink i).mpr rfl)
      rw [recordAt_append_left (by omega), recordAt_modify_of_ne other]
      exact facts.noNext i'
        (fun j old => unlinked j ((linkedBy_append_left old.lt_length).mpr old))
    · rw [last, ← modified, recordAt_append_length, ← fresh]
      rfl
    · rw [recordAt_beyond (by rw [List.length_append, List.length_singleton]; omega)]
      rfl

end Links

/-! ## The tree of open blocks -/

/-- The tree holds the open blocks, each under the address it was opened with. -/
structure OpenTree (log : List MprofileRecord) (memtree : List MemNode) : Prop where
  sorted : OrderedTree.Sorted (fun node => node.mprMem.toNat) memtree
  mem : forall node, node ∈ memtree ↔ OpenAt log node.mprMem node.pos

/-- The tree in the middle of a step: the consumed block is gone. -/
structure RestTree (log : List MprofileRecord) (r : MprofileRecord) (memtree : List MemNode) :
    Prop where
  sorted : OrderedTree.Sorted (fun node => node.mprMem.toNat) memtree
  mem : forall node, node ∈ memtree ↔
    OpenAt log node.mprMem node.pos ∧ r.consumes ≠ some node.mprMem

/-- What the loop of `build_chains` keeps, next to the replay of the log. -/
structure ChainInv (log : List MprofileRecord) (st : ChainState) (live : Finset UInt64) :
    Prop where
  linked : Linked log st.linked
  tree : OpenTree log st.memtree
  live : forall x, x ∈ live ↔ Exists fun i => OpenAt log x i

section Steps

variable {log : List MprofileRecord} {r : MprofileRecord} {st : ChainState}
  {live : Finset UInt64} {x : UInt64}

/-- Whether an address is live after one more record. -/
theorem openAt_append_exists :
    (Exists fun i => OpenAt (log ++ [r]) x i) ↔
      r.produces = some x ∨ (Exists fun i => OpenAt log x i) ∧ r.consumes ≠ some x := by
  constructor
  · rintro ⟨i, isOpen⟩
    have inside := isOpen.lt_length
    rw [List.length_append, List.length_singleton] at inside
    by_cases last : i = log.length
    · exact Or.inl (openAt_append_length.mp (last ▸ isOpen))
    · have old := (openAt_append_old (by omega)).mp isOpen
      exact Or.inr ⟨⟨i, old.1⟩, old.2.2⟩
  · rintro (produces | ⟨⟨i, isOpen⟩, notConsumed⟩)
    · exact ⟨log.length, openAt_append_length.mpr produces⟩
    · by_cases produces : r.produces = some x
      · exact ⟨log.length, openAt_append_length.mpr produces⟩
      · exact ⟨i, (openAt_append_old isOpen.lt_length).mpr ⟨isOpen, produces, notConsumed⟩⟩

/-- The stop of `build_chains` when the consumed address is not open. -/
def MprofileRecord.missing (r : MprofileRecord) : ChainStop :=
  if r.mprState = .free then .freeNotAllocated else .reallocNotAllocated

/-- The stop of `build_chains` when the produced address is open. -/
def MprofileRecord.present (r : MprofileRecord) : ChainStop :=
  if r.mprState = .alloc then .allocFound else .reallocFound

/-- The first half of a turn: consume. -/
def consumePhase (st : ChainState) (r : MprofileRecord) :
    Except ChainStop (ChainState × MprofileRecord) :=
  match r.consumes with
  | none => .ok (st, r)
  | some x => consumeBlock st x r.missing r

/-- The second half of a turn: produce. -/
def producePhase (r : MprofileRecord) (st : ChainState) (linkedMpr : MprofileRecord) :
    Except ChainStop ChainState :=
  match r.produces with
  | none => .ok { st with linked := st.linked ++ [linkedMpr] }
  | some _ => openBlock st r.present linkedMpr

/-- The three kinds of records take the same two halves. -/
theorem chainStep_eq (st : ChainState) (r : MprofileRecord) :
    chainStep st r =
      match consumePhase st r with
      | .error stop => .error stop
      | .ok (st, linkedMpr) => producePhase r st linkedMpr := by
  unfold chainStep consumePhase producePhase MprofileRecord.consumes MprofileRecord.produces
    MprofileRecord.missing MprofileRecord.present
  cases state : r.mprState with
  | alloc => rfl
  | free =>
      by_cases null : r.mprMem = 0
      · simp only [if_pos null]
      · simp only [if_neg null]
        rfl
  | realloc => rfl

/-- Consuming an address that is not live stops the loop. -/
theorem consumePhase_missing (inv : ChainInv log st live) (consumes : r.consumes = some x)
    (absent : x ∉ live) : consumePhase st r = .error r.missing := by
  have none : OrderedTree.find (fun node => threeWay x.toNat node.mprMem.toNat) st.memtree =
      none := by
    rw [OrderedTree.find_eq_none_iff (k := x.toNat)
      (fun node _ => show _ ↔ node.mprMem.toNat = x.toNat by rw [threeWay_zero_iff, eq_comm])]
    intro node member same
    have isOpen := (inv.tree.mem node).mp member
    rw [UInt64.toNat_inj.mp same] at isOpen
    exact absent ((inv.live x).mpr ⟨node.pos, isOpen⟩)
  rw [consumePhase, consumes]
  simp only [consumeBlock, none]

/-- Consuming a live address links the record and takes the block out of the tree. -/
theorem consumePhase_ok (inv : ChainInv log st live) (fresh : r.bare = r)
    (consumable : forall x, r.consumes = some x -> x ∈ live) :
    Exists fun result : ChainState × MprofileRecord =>
      consumePhase st r = .ok result ∧ Linked (log ++ [r]) (result.1.linked ++ [result.2]) ∧
        RestTree log r result.1.memtree ∧ result.2.mprMem = r.mprMem := by
  cases consumes : r.consumes with
  | none =>
      refine ⟨(st, r), by rw [consumePhase, consumes], inv.linked.append fresh consumes,
        ⟨inv.tree.sorted, fun node => ?_⟩, rfl⟩
      rw [inv.tree.mem, consumes]
      simp
  | some x =>
      rcases (inv.live x).mp (consumable x consumes) with ⟨i, isOpen⟩
      have found : OrderedTree.find (fun node => threeWay x.toNat node.mprMem.toNat) st.memtree =
          some ⟨x, i⟩ := by
        rw [OrderedTree.find_eq_some_iff (k := x.toNat)
          (fun node _ => show _ ↔ node.mprMem.toNat = x.toNat by rw [threeWay_zero_iff, eq_comm])
          inv.tree.sorted]
        exact ⟨(inv.tree.mem ⟨x, i⟩).mpr isOpen, rfl⟩
      have noNext : (recordAt st.linked i).mprNextId = 0 :=
        inv.linked.noNext i (fun _ => isOpen.not_linked)
      have noPrev : r.mprPrevId = 0 := by rw [← fresh]; rfl
      have phase : consumePhase st r = .ok
          (⟨st.linked.modify i (fun old => { old with mprNextId := r.mprId }),
            st.memtree.erase ⟨x, i⟩⟩,
           { r with mprPrevId := (recordAt st.linked i).mprId }) := by
        rw [consumePhase, consumes]
        simp only [consumeBlock, found]
        rw [if_neg (fun linked => linked noNext), if_neg (fun linked => linked noPrev)]
        rfl
      refine ⟨_, phase, inv.linked.append_link fresh consumes isOpen,
        ⟨inv.tree.sorted.sublist (List.erase_sublist ..), fun node => ?_⟩, rfl⟩
      rw [inv.tree.sorted.nodup.mem_erase_iff, inv.tree.mem, consumes, Ne, Ne, Option.some.injEq]
      constructor
      · rintro ⟨different, nodeOpen⟩
        refine ⟨nodeOpen, fun same => different ?_⟩
        -- one address has one open block
        subst same
        rw [← nodeOpen.1.unique isOpen.1]
      · rintro ⟨nodeOpen, different⟩
        exact ⟨fun same => different (by rw [same]), nodeOpen⟩

/-- Without a produced address the rest is the tree of the longer log. -/
theorem RestTree.openTree {memtree : List MemNode} (rest : RestTree log r memtree)
    (produces : r.produces = none) : OpenTree (log ++ [r]) memtree := by
  refine ⟨rest.sorted, fun node => ?_⟩
  rw [rest.mem]
  constructor
  · rintro ⟨isOpen, notConsumed⟩
    exact (openAt_append_old isOpen.lt_length).mpr ⟨isOpen, by rw [produces]; simp, notConsumed⟩
  · intro isOpen
    have inside := isOpen.lt_length
    rw [List.length_append, List.length_singleton] at inside
    by_cases last : node.pos = log.length
    · rw [last, openAt_append_length, produces] at isOpen
      cases isOpen
    · have old := (openAt_append_old (by omega)).mp isOpen
      exact ⟨old.1, old.2.2⟩

/-- The new block joins the rest unless its address is open. -/
theorem RestTree.openTree_insert {memtree tree : List MemNode} {y : UInt64}
    (rest : RestTree log r memtree) (produces : r.produces = some y)
    (absent : forall node, node ∈ memtree -> node.mprMem ≠ y)
    (inserted : OrderedTree.Sorted (fun node => node.mprMem.toNat) tree)
    (perm : tree.Perm (⟨y, log.length⟩ :: memtree)) : OpenTree (log ++ [r]) tree := by
  refine ⟨inserted, fun node => ?_⟩
  rw [perm.mem_iff, List.mem_cons, rest.mem]
  constructor
  · rintro (rfl | ⟨isOpen, notConsumed⟩)
    · exact openAt_append_length.mpr produces
    · refine (openAt_append_old isOpen.lt_length).mpr ⟨isOpen, fun same => ?_, notConsumed⟩
      rw [produces] at same
      exact absent node ((rest.mem node).mpr ⟨isOpen, notConsumed⟩) (Option.some.inj same).symm
  · intro isOpen
    have inside := isOpen.lt_length
    rw [List.length_append, List.length_singleton] at inside
    by_cases last : node.pos = log.length
    · rw [last, openAt_append_length, produces] at isOpen
      cases node with
      | mk mem pos =>
          cases last
          cases isOpen
          exact Or.inl rfl
    · have old := (openAt_append_old (by omega)).mp isOpen
      exact Or.inr ⟨old.1, old.2.2⟩

theorem recordMemCompare_keyed (a b : MemNode) :
    (recordMemCompare a b < 0 ↔ a.mprMem.toNat < b.mprMem.toNat) ∧
      (recordMemCompare a b = 0 ↔ a.mprMem.toNat = b.mprMem.toNat) :=
  ⟨threeWay_neg_iff _ _, threeWay_zero_iff _ _⟩

theorem produces_eq {y : UInt64} (produces : r.produces = some y) : y = r.mprMem := by
  unfold MprofileRecord.produces at produces
  cases state : r.mprState <;> rw [state] at produces <;> cases produces <;> rfl

/-- Whether the produced address is among the rest. -/
theorem RestTree.present_iff {memtree : List MemNode} (inv : ChainInv log st live)
    (rest : RestTree log r memtree) (y : UInt64) :
    (Exists fun node => node ∈ memtree ∧ node.mprMem = y) ↔ y ∈ live ∧ r.consumes ≠ some y := by
  constructor
  · rintro ⟨node, member, rfl⟩
    have parts := (rest.mem node).mp member
    exact ⟨(inv.live _).mpr ⟨node.pos, parts.1⟩, parts.2⟩
  · rintro ⟨isLive, notConsumed⟩
    rcases (inv.live y).mp isLive with ⟨i, isOpen⟩
    exact ⟨⟨y, i⟩, (rest.mem ⟨y, i⟩).mpr ⟨isOpen, notConsumed⟩, rfl⟩

/-- A conflict in the replay is a call of `abort`. -/
theorem chainStep_conflict (inv : ChainInv log st live) (fresh : r.bare = r)
    (conflict : replayStep live r = none) :
    Exists fun stop => chainStep st r = .error stop ∧ stop.isAssert = false := by
  have missing : r.missing.isAssert = false := by
    unfold MprofileRecord.missing
    split_ifs <;> rfl
  have present : r.present.isAssert = false := by
    unfold MprofileRecord.present
    split_ifs <;> rfl
  by_cases consumable : forall x, r.consumes = some x -> x ∈ live
  · rcases (replayStep_none_iff live r).mp conflict with
      ⟨x, consumes, absent⟩ | ⟨y, produces, clash⟩
    · exact absurd (consumable x consumes) absent
    · rcases consumePhase_ok inv fresh consumable with ⟨⟨st', r'⟩, phase, linked, rest, sameMem⟩
      rcases (rest.present_iff inv y).mpr clash with ⟨node, member, sameKey⟩
      refine ⟨r.present, ?_, present⟩
      have refused : OrderedTree.insert recordMemCompare ⟨r'.mprMem, st'.linked.length⟩
          st'.memtree = (st'.memtree, some node) := by
        refine OrderedTree.insert_found (fun z _ => recordMemCompare_keyed _ z) rest.sorted
          member ?_
        rw [sameKey, sameMem, produces_eq produces]
      rw [chainStep_eq, phase]
      simp only [producePhase, produces, openBlock, refused]
  · push Not at consumable
    rcases consumable with ⟨x, consumes, absent⟩
    refine ⟨r.missing, ?_, missing⟩
    rw [chainStep_eq, consumePhase_missing inv consumes absent]

/-- A record that replays is linked, and the invariant holds for the longer log. -/
theorem chainStep_ok {after : Finset UInt64} (inv : ChainInv log st live) (fresh : r.bare = r)
    (replayed : replayStep live r = some after) :
    Exists fun st' => chainStep st r = .ok st' ∧ ChainInv (log ++ [r]) st' after := by
  have noConflict : ¬ replayStep live r = none := by rw [replayed]; simp
  rw [replayStep_none_iff, not_or] at noConflict
  have consumable : forall x, r.consumes = some x -> x ∈ live := fun x consumes =>
    by_contra (fun absent => noConflict.1 ⟨x, consumes, absent⟩)
  have nowLive : forall x, x ∈ after ↔ Exists fun i => OpenAt (log ++ [r]) x i := fun x => by
    rw [mem_replayStep replayed, openAt_append_exists, inv.live]
  rcases consumePhase_ok inv fresh consumable with ⟨⟨st', r'⟩, phase, linked, rest, sameMem⟩
  have sameLength : st'.linked.length = log.length := by
    have := linked.length
    rw [List.length_append, List.length_append] at this
    exact Nat.add_right_cancel this
  cases produces : r.produces with
  | none =>
      refine ⟨{ st' with linked := st'.linked ++ [r'] }, ?_,
        ⟨linked, rest.openTree produces, nowLive⟩⟩
      rw [chainStep_eq, phase]
      simp only [producePhase, produces]
  | some y =>
      have absent : forall node, node ∈ st'.memtree -> node.mprMem ≠ y := fun node member same =>
        noConflict.2 ⟨y, produces, (rest.present_iff inv y).mp ⟨node, member, same⟩⟩
      have key : (⟨r'.mprMem, st'.linked.length⟩ : MemNode) = ⟨y, log.length⟩ := by
        rw [sameMem, sameLength, produces_eq produces]
      have inserted := OrderedTree.insert_fresh (x := ⟨y, log.length⟩)
        (fun z (_ : z ∈ st'.memtree) => recordMemCompare_keyed _ z)
        (fun node member same => absent node member (UInt64.toNat_inj.mp same))
      refine ⟨⟨st'.linked ++ [r'],
          (OrderedTree.insert recordMemCompare ⟨y, log.length⟩ st'.memtree).1⟩,
        ?_, ⟨linked, rest.openTree_insert produces absent (inserted.2.2 rest.sorted) inserted.2.1,
          nowLive⟩⟩
      rw [chainStep_eq, phase]
      simp only [producePhase, produces, openBlock, key]
      cases result : OrderedTree.insert recordMemCompare ⟨y, log.length⟩ st'.memtree with
      | mk tree refused =>
          have accepted := inserted.1
          rw [result] at accepted
          simp only at accepted
          rw [accepted]

/-- The loop follows the replay of the rest of the queue. -/
theorem chainLoop_spec (inv : ChainInv log st live) (rest : List MprofileRecord)
    (fresh : forall r, r ∈ rest -> r.bare = r) :
    match replayFrom live rest with
    | none => Exists fun stop => chainLoop st rest = .error stop ∧ stop.isAssert = false
    | some after =>
      Exists fun st' => chainLoop st rest = .ok st' ∧ ChainInv (log ++ rest) st' after := by
  induction rest generalizing log st live with
  | nil =>
      rw [replayFrom, List.append_nil]
      exact ⟨st, rfl, inv⟩
  | cons r rest inductionHypothesis =>
      have freshHead := fresh r List.mem_cons_self
      rw [replayFrom, chainLoop]
      cases replayed : replayStep live r with
      | none =>
          rcases chainStep_conflict inv freshHead replayed with ⟨stop, stopped, notAssert⟩
          exact ⟨stop, by rw [stopped], notAssert⟩
      | some after =>
          rcases chainStep_ok inv freshHead replayed with ⟨st', stepped, kept⟩
          have onward :=
            inductionHypothesis kept (fun q member => fresh q (List.mem_cons_of_mem r member))
          rw [List.append_assoc, List.singleton_append] at onward
          rw [stepped]
          exact onward

theorem chainInv_nil : ChainInv [] ⟨[], []⟩ ∅ := by
  have nothing : forall x i, ¬ OpenAt [] x i := fun x i isOpen => Nat.not_lt_zero i isOpen.lt_length
  refine ⟨⟨rfl, ?_, fun j _ => rfl, fun i _ => rfl⟩, ⟨List.Pairwise.nil, fun node => ?_⟩,
    fun x => ?_⟩
  · exact fun j i linkedBy => absurd linkedBy.lt_length (Nat.not_lt_zero j)
  · exact ⟨fun member => absurd member List.not_mem_nil, fun isOpen => absurd isOpen (nothing _ _)⟩
  · exact ⟨fun member => absurd member (Finset.notMem_empty x),
      fun ⟨i, isOpen⟩ => absurd isOpen (nothing x i)⟩

/-- `build_chains` fails exactly on a conflict, and never in an assertion. -/
theorem buildChains_conflict (log : List MprofileRecord) (fresh : forall r, r ∈ log -> r.bare = r)
    (conflict : replay log = none) :
    Exists fun stop => buildChains log = .error stop ∧ stop.isAssert = false := by
  have loop := chainLoop_spec chainInv_nil log fresh
  rw [show replayFrom ∅ log = none from conflict] at loop
  rcases loop with ⟨stop, stopped, notAssert⟩
  exact ⟨stop, by rw [buildChains, stopped], notAssert⟩

/-- `build_chains` links a log which replays. -/
theorem buildChains_linked (log : List MprofileRecord) (fresh : forall r, r ∈ log -> r.bare = r)
    {live : Finset UInt64} (replayed : replay log = some live) :
    Exists fun linked => buildChains log = .ok linked ∧ Linked log linked := by
  have loop := chainLoop_spec chainInv_nil log fresh
  rw [show replayFrom ∅ log = some live from replayed] at loop
  rcases loop with ⟨st, looped, inv⟩
  exact ⟨st.linked, by rw [buildChains, looped], inv.linked⟩

/-- `build_chains` sets links and nothing else, whatever the log. -/
theorem chainStep_bare {st st' : ChainState} {mpr : MprofileRecord}
    (stepped : chainStep st mpr = .ok st') :
    st'.linked.map MprofileRecord.bare = st.linked.map MprofileRecord.bare ++ [mpr.bare] := by
  have opened : forall (before : ChainState) (present : ChainStop) (r : MprofileRecord) after,
      openBlock before present r = .ok after ->
        after.linked.map MprofileRecord.bare = before.linked.map
            MprofileRecord.bare ++ [r.bare] := by
    intro before present r after isOpen
    rw [openBlock] at isOpen
    split at isOpen
    · cases isOpen
    · cases isOpen
      exact List.map_append
  have consumed : forall (key : UInt64) (missing : ChainStop) middle,
      consumeBlock st key missing mpr = .ok middle ->
        middle.1.linked.map MprofileRecord.bare = st.linked.map MprofileRecord.bare ∧
          middle.2.bare = mpr.bare := by
    intro key missing middle isConsumed
    rw [consumeBlock] at isConsumed
    split at isConsumed
    · cases isConsumed
    · simp only at isConsumed
      split_ifs at isConsumed
      cases isConsumed
      exact ⟨map_bare_modify _ _ _, rfl⟩
  rw [chainStep] at stepped
  split at stepped
  · exact opened _ _ _ _ stepped
  · split_ifs at stepped
    · cases stepped
      exact List.map_append
    · split at stepped
      · cases stepped
      · rename_i isConsumed
        cases stepped
        have parts := consumed _ _ _ isConsumed
        rw [List.map_append, List.map_singleton, parts.1, parts.2]
  · split at stepped
    · cases stepped
    · rename_i isConsumed
      have parts := consumed _ _ _ isConsumed
      rw [opened _ _ _ _ stepped, parts.1, parts.2]

theorem chainLoop_bare {st st' : ChainState} {log : List MprofileRecord}
    (looped : chainLoop st log = .ok st') :
    st'.linked.map MprofileRecord.bare =
      st.linked.map MprofileRecord.bare ++ log.map MprofileRecord.bare := by
  induction log generalizing st with
  | nil =>
      cases looped
      exact (List.append_nil _).symm
  | cons mpr rest inductionHypothesis =>
      rw [chainLoop] at looped
      cases stepped : chainStep st mpr with
      | error stop => rw [stepped] at looped; cases looped
      | ok middle =>
          rw [stepped] at looped
          rw [inductionHypothesis looped, chainStep_bare stepped, List.append_assoc, List.map_cons]
          rfl

theorem buildChains_bare {log linked : List MprofileRecord} (built : buildChains log = .ok linked) :
    linked.map MprofileRecord.bare = log.map MprofileRecord.bare := by
  rw [buildChains] at built
  cases looped : chainLoop ⟨[], []⟩ log with
  | error stop => rw [looped] at built; cases built
  | ok st =>
      rw [looped] at built
      cases built
      exact chainLoop_bare looped

end Steps

end Mprofile
end OsslScripts
