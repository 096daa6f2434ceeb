import OsslScripts.Foundation.OrderedTree
import Mathlib.Algebra.Ring.Int.Defs
import Mathlib.Algebra.Ring.Nat
import Mathlib.Data.Finset.Basic

namespace OsslScripts
namespace Mprofile

open Foundation

/-!
# Records and their chains

`struct mprofile_record` and `build_chains` of `record.c`, next to the abstract
meaning of a log: a replay over the set of live addresses, and for every record
that consumes an address the last record that produced it.

Record ids are unbounded numbers.  Every record is a live heap object, so a
64-bit address space cannot hold enough of them to wrap the 64-bit counter.
-/

/-- `struct timespec` -/
structure Timespec where
  tvSec : Int
  tvNsec : Nat
deriving DecidableEq, Repr, Inhabited

/-- The values of `mpr_state`. -/
inductive RecordState where
  | alloc
  | free
  | realloc
deriving DecidableEq, Repr, Inhabited

/-- `struct mprofile_record` -/
structure MprofileRecord where
  mprId : Nat
  mprMem : UInt64
  mprRealloc : UInt64
  mprDelta : Int
  mprState : RecordState
  mprStackId : Nat
  mprPrevId : Nat
  mprNextId : Nat
  mprTs : Timespec
deriving DecidableEq, Repr, Inhabited

/-- `record_id_compare` -/
def recordIdCompare (a b : MprofileRecord) : Int := threeWay a.mprId b.mprId

/-- An element of the tree in `build_chains`: the record's key `mpr_mem`, and
the record itself by its position in the queue. -/
structure MemNode where
  mprMem : UInt64
  pos : Nat
deriving DecidableEq, Repr

/-- `record_mem_compare` -/
def recordMemCompare (a b : MemNode) : Int := threeWay a.mprMem.toNat b.mprMem.toNat

/-- The calls of `abort` in `build_chains`, and its two assertions. -/
inductive ChainStop where
  | allocFound
  | freeNotAllocated
  | reallocNotAllocated
  | reallocFound
  | assertNextId
  | assertPrevId
deriving DecidableEq, Repr

/-- The stop is one of the two `assert`s. -/
def ChainStop.isAssert : ChainStop -> Bool
  | .assertNextId => true
  | .assertPrevId => true
  | _ => false

/-- The queue up to the record at hand, as linked so far, and the open blocks. -/
structure ChainState where
  linked : List MprofileRecord
  memtree : List MemNode
deriving DecidableEq, Repr

/-- The common part of the `FREE` and `REALLOC` cases: take the open block with
this address out of the tree and link it with the record. -/
def consumeBlock (st : ChainState) (key : UInt64) (missing : ChainStop) (mpr : MprofileRecord) :
    Except ChainStop (ChainState × MprofileRecord) :=
  match OrderedTree.find (fun node => threeWay key.toNat node.mprMem.toNat) st.memtree with
  | none => .error missing
  | some node =>
      let treeMpr := st.linked.getD node.pos default
      if treeMpr.mprNextId ≠ 0 then .error .assertNextId
      else if mpr.mprPrevId ≠ 0 then .error .assertPrevId
      else .ok
        ({ linked := st.linked.modify node.pos (fun r => { r with mprNextId := mpr.mprId })
           memtree := st.memtree.erase node },
         { mpr with mprPrevId := treeMpr.mprId })

/-- Insert the record into the tree and go on to the next one. -/
def openBlock (st : ChainState) (present : ChainStop) (mpr : MprofileRecord) :
    Except ChainStop ChainState :=
  match OrderedTree.insert recordMemCompare ⟨mpr.mprMem, st.linked.length⟩ st.memtree with
  | (_, some _) => .error present
  | (memtree, none) => .ok ⟨st.linked ++ [mpr], memtree⟩

/-- One turn of the loop in `build_chains`. -/
def chainStep (st : ChainState) (mpr : MprofileRecord) : Except ChainStop ChainState :=
  match mpr.mprState with
  | .alloc => openBlock st .allocFound mpr
  | .free =>
      if mpr.mprMem = 0 then .ok { st with linked := st.linked ++ [mpr] }
      else
        match consumeBlock st mpr.mprMem .freeNotAllocated mpr with
        | .error stop => .error stop
        | .ok (st, mpr) => .ok { st with linked := st.linked ++ [mpr] }
  | .realloc =>
      match consumeBlock st mpr.mprRealloc .reallocNotAllocated mpr with
      | .error stop => .error stop
      | .ok (st, mpr) => openBlock st .reallocFound mpr

/-- The loop of `build_chains` over the rest of the queue. -/
def chainLoop : ChainState -> List MprofileRecord -> Except ChainStop ChainState
  | st, [] => .ok st
  | st, mpr :: rest =>
      match chainStep st mpr with
      | .error stop => .error stop
      | .ok st => chainLoop st rest

/-- `build_chains` -/
def buildChains (log : List MprofileRecord) : Except ChainStop (List MprofileRecord) :=
  match chainLoop ⟨[], []⟩ log with
  | .error stop => .error stop
  | .ok st => .ok st.linked

/-! ## What a log means -/

/-- The address that a record takes out of use. -/
def MprofileRecord.consumes (mpr : MprofileRecord) : Option UInt64 :=
  match mpr.mprState with
  | .alloc => none
  | .free => if mpr.mprMem = 0 then none else some mpr.mprMem
  | .realloc => some mpr.mprRealloc

/-- The address that a record puts into use. -/
def MprofileRecord.produces (mpr : MprofileRecord) : Option UInt64 :=
  match mpr.mprState with
  | .alloc => some mpr.mprMem
  | .free => none
  | .realloc => some mpr.mprMem

/-- Replay one record over the live addresses: the consumed address has to be
live, and the produced one must not be live once the consumed one is gone. -/
def replayStep (live : Finset UInt64) (mpr : MprofileRecord) : Option (Finset UInt64) :=
  let rest := match mpr.consumes with
    | none => some live
    | some x => if x ∈ live then some (live.erase x) else none
  match rest, mpr.produces with
  | none, _ => none
  | some rest, none => some rest
  | some rest, some y => if y ∈ rest then none else some (insert y rest)

/-- Replay a log.  `none` is a conflict. -/
def replayFrom : Finset UInt64 -> List MprofileRecord -> Option (Finset UInt64)
  | live, [] => some live
  | live, mpr :: rest =>
      match replayStep live mpr with
      | none => none
      | some live => replayFrom live rest

def replay (log : List MprofileRecord) : Option (Finset UInt64) := replayFrom ∅ log

/-- A record conflicts with the live addresses if it consumes one that is not
live, or produces one that is live and not the one it consumes. -/
theorem replayStep_none_iff (live : Finset UInt64) (mpr : MprofileRecord) :
    replayStep live mpr = none ↔
      (Exists fun x => mpr.consumes = some x ∧ x ∉ live) ∨
        Exists fun y => mpr.produces = some y ∧ y ∈ live ∧ mpr.consumes ≠ some y := by
  unfold replayStep
  cases mpr.consumes with
  | none =>
      cases mpr.produces with
      | none => simp
      | some y => by_cases present : y ∈ live <;> simp [present]
  | some x =>
      by_cases isLive : x ∈ live
      · cases mpr.produces with
        | none => simp [isLive]
        | some y =>
            by_cases present : y ∈ live.erase x
            · simp only [if_pos isLive, if_pos present, true_iff]
              have parts := Finset.mem_erase.mp present
              exact Or.inr ⟨y, rfl, parts.2, fun same => parts.1 (Option.some.inj same).symm⟩
            · simp only [if_pos isLive, if_neg present, reduceCtorEq, false_iff]
              rintro (⟨z, same, absent⟩ | ⟨z, same, member, different⟩)
              · exact absent (Option.some.inj same ▸ isLive)
              · cases same
                exact present (Finset.mem_erase.mpr ⟨fun equal => different (by rw [equal]),
                  member⟩)
      · simp only [if_neg isLive, true_iff]
        exact Or.inl ⟨x, rfl, isLive⟩

/-- What is live after a record: what it produces, and what it does not consume. -/
theorem mem_replayStep {live after : Finset UInt64} {mpr : MprofileRecord}
    (replayed : replayStep live mpr = some after) (x : UInt64) :
    x ∈ after ↔ mpr.produces = some x ∨ x ∈ live ∧ mpr.consumes ≠ some x := by
  have erased : forall y, x ∈ live.erase y ↔ x ∈ live ∧ some y ≠ some x := by
    intro y
    rw [Finset.mem_erase, and_comm, ne_comm, Ne, Ne, Option.some.injEq]
  unfold replayStep at replayed
  cases consumes : mpr.consumes with
  | none =>
      rw [consumes] at replayed
      cases produces : mpr.produces with
      | none => rw [produces] at replayed; cases replayed; simp
      | some y =>
          rw [produces] at replayed
          by_cases present : y ∈ live
          · simp only [if_pos present] at replayed; cases replayed
          · simp only [if_neg present] at replayed
            cases replayed
            rw [Finset.mem_insert, Option.some.injEq, eq_comm]
            simp
  | some z =>
      rw [consumes] at replayed
      by_cases isLive : z ∈ live
      · simp only [if_pos isLive] at replayed
        cases produces : mpr.produces with
        | none => rw [produces] at replayed; cases replayed; rw [erased]; simp
        | some y =>
            rw [produces] at replayed
            by_cases present : y ∈ live.erase z
            · simp only [if_pos present] at replayed; cases replayed
            · simp only [if_neg present] at replayed
              cases replayed
              rw [Finset.mem_insert, erased, Option.some.injEq, eq_comm (a := y)]
      · simp only [if_neg isLive] at replayed; cases replayed

theorem replayFrom_append (live : Finset UInt64) (first second : List MprofileRecord) :
    replayFrom live (first ++ second) =
      match replayFrom live first with
      | none => none
      | some live => replayFrom live second := by
  induction first generalizing live with
  | nil => rfl
  | cons mpr rest inductionHypothesis =>
      rw [List.cons_append, replayFrom, replayFrom]
      cases replayStep live mpr with
      | none => rfl
      | some after => exact inductionHypothesis after

end Mprofile
end OsslScripts
