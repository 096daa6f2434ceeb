import OsslScripts.Mprofile.Record
import Mathlib.Data.List.Sort

namespace OsslScripts
namespace Mprofile

/-!
# The reader

`class MProfile` of `mprofile.py`, over the document that `profile_save`
writes.  The reader looks records up by position: record `id` is expected at
index `id - 1`, and a stack at index `stack_id - 1` once the stacks are sorted
by id.

The `while` loops of the reader follow `next_id` and have no bound of their
own, so they take fuel here, and a walk which runs out of it has no result.
-/

/-- An element of `stack_trace`: the text of a frame, or the closing `""`.
Frames are kept as addresses. -/
inductive TraceEntry where
  | symbol (frame : UInt64)
  | blank
deriving DecidableEq, Repr

/-- An element of `stacks` in the document. -/
structure SavedStack where
  id : Nat
  stackCount : Nat
  threadId : Nat
  stackTrace : List TraceEntry
deriving DecidableEq, Repr

/-- The document that `profile_save` writes. -/
structure Document where
  startTime : Timespec
  allocations : List MprofileRecord
  stackList : List SavedStack
deriving DecidableEq, Repr

/-- A record of the document with the running total the reader attaches to it. -/
structure MemRecord where
  mr : MprofileRecord
  memCurrent : Int
deriving DecidableEq, Repr, Inhabited

/-- `class MProfile` -/
structure MProfile where
  memRecords : List MemRecord
  stackList : List SavedStack
  startTime : Timespec
deriving DecidableEq, Repr

/-- `get_trace`: the slice without the last element. -/
def getTrace (st : SavedStack) : List TraceEntry := st.stackTrace.dropLast

namespace MProfile

/-- `__calc_current`, from a given total. -/
def calcCurrent : Int -> List MprofileRecord -> List MemRecord
  | _, [] => []
  | memCurrent, mr :: rest =>
      ⟨mr, memCurrent + mr.mprDelta⟩ :: calcCurrent (memCurrent + mr.mprDelta) rest

/-- `__init__` -/
def ofDocument (doc : Document) : MProfile where
  memRecords := calcCurrent 0 doc.allocations
  stackList := doc.stackList.insertionSort (fun x y => x.id ≤ y.id)
  startTime := doc.startTime

/-- `get_mr` -/
def getMr (profile : MProfile) (opId : Nat) : Option MemRecord :=
  if opId < 1 ∨ opId > profile.memRecords.length then none else profile.memRecords[opId - 1]?

/-- `get_stack`; an index past the end is an error in Python and gives nothing here. -/
def getStack (profile : MProfile) (mr : MprofileRecord) : Option (List TraceEntry) :=
  if mr.mprStackId = 0 then none else (profile.stackList[mr.mprStackId - 1]?).map getTrace

/-- `get_next` -/
def getNext (profile : MProfile) (mr : MprofileRecord) : Option MemRecord :=
  if mr.mprNextId ≠ 0 then profile.getMr mr.mprNextId else none

/-- `get_prev` -/
def getPrev (profile : MProfile) (mr : MprofileRecord) : Option MemRecord :=
  if mr.mprPrevId ≠ 0 then profile.getMr mr.mprPrevId else none

/-- How a walk ends other than by its loop test. -/
inductive WalkStop where
  | typeError
  | outOfFuel
deriving DecidableEq, Repr

/-- `get_chain`.  Reading a field of `None` is a `TypeError`. -/
def getChain (profile : MProfile) : Nat -> MprofileRecord -> Except WalkStop (List MprofileRecord)
  | 0, _ => .error .outOfFuel
  | fuel + 1, ar =>
      if ar.mprNextId ≠ 0 then
        match profile.getMr ar.mprNextId with
        | none => .error .typeError
        | some next =>
            match getChain profile fuel next.mr with
            | .error stop => .error stop
            | .ok chain => .ok (ar :: chain)
      else .ok [ar]

/-- The `while` loop of `is_leak`: the last record reached. -/
def chainEnd (profile : MProfile) : Nat -> MprofileRecord -> Option MprofileRecord
  | 0, _ => none
  | fuel + 1, mr =>
      match profile.getMr mr.mprNextId with
      | none => some mr
      | some next => chainEnd profile fuel next.mr

/-- `is_leak` -/
def isLeak (profile : MProfile) (fuel : Nat) (mr : MprofileRecord) : Option Bool :=
  if mr.mprState ≠ .alloc then some false
  else (profile.chainEnd fuel mr).map (fun last => decide (last.mprState ≠ .free))

/-- `leaks` -/
def leaks (profile : MProfile) (fuel : Nat) : Option (List MprofileRecord) :=
  (profile.memRecords.map MemRecord.mr).foldr
    (fun mr found => match profile.isLeak fuel mr, found with
      | some true, some found => some (mr :: found)
      | some false, some found => some found
      | _, _ => none) (some [])

/-- `get_leak_sz`: the sum of the deltas along the chain. -/
def getLeakSz (profile : MProfile) : Nat -> MprofileRecord -> Option Int
  | 0, _ => none
  | fuel + 1, leakMr =>
      match profile.getNext leakMr with
      | none => some leakMr.mprDelta
      | some next => (getLeakSz profile fuel next.mr).map (fun leakSz => leakMr.mprDelta + leakSz)

/-- `get_total_mem` -/
def getTotalMem (profile : MProfile) : Int :=
  ((profile.memRecords.map MemRecord.mr).map
    (fun mr => if mr.mprDelta < 0 then 0 else mr.mprDelta)).sum

/-- `max` with a key: the first element with the largest key. -/
def firstMax (best : MemRecord) : List MemRecord -> MemRecord
  | [] => best
  | mr :: rest => firstMax (if best.memCurrent < mr.memCurrent then mr else best) rest

/-- `get_mem_peak`; `max` of an empty list is an error. -/
def getMemPeak (profile : MProfile) : Option MemRecord :=
  match profile.memRecords with
  | [] => none
  | mr :: rest => some (firstMax mr rest)

/-! ## Lookups -/

@[simp] theorem length_calcCurrent (total : Int) (log : List MprofileRecord) :
    (calcCurrent total log).length = log.length := by
  induction log generalizing total with
  | nil => rfl
  | cons mr rest inductionHypothesis =>
      rw [calcCurrent, List.length_cons, List.length_cons, inductionHypothesis]

@[simp] theorem map_mr_calcCurrent (total : Int) (log : List MprofileRecord) :
    (calcCurrent total log).map MemRecord.mr = log := by
  induction log generalizing total with
  | nil => rfl
  | cons mr rest inductionHypothesis =>
      rw [calcCurrent, List.map_cons, inductionHypothesis]

/-- The running total at a record is the sum of the deltas up to it. -/
theorem calcCurrent_append (total : Int) (first second : List MprofileRecord) :
    calcCurrent total (first ++ second) =
      calcCurrent total first ++
        calcCurrent (total + (first.map MprofileRecord.mprDelta).sum) second := by
  induction first generalizing total with
  | nil => simp [calcCurrent]
  | cons mr rest inductionHypothesis =>
      rw [List.cons_append, calcCurrent, calcCurrent, inductionHypothesis, List.cons_append,
        List.map_cons, List.sum_cons, Int.add_assoc]

/-- The record found under an id is the one at the position before it. -/
theorem getMr_some {doc : Document} {opId : Nat} {found : MemRecord}
    (lookup : (ofDocument doc).getMr opId = some found) :
    1 ≤ opId ∧ opId ≤ doc.allocations.length ∧ doc.allocations[opId - 1]? = some found.mr := by
  simp only [getMr, ofDocument, length_calcCurrent] at lookup
  split_ifs at lookup with outside
  · refine ⟨by omega, by omega, ?_⟩
    have mapped := congrArg (Option.map MemRecord.mr) lookup
    rwa [← List.getElem?_map, map_mr_calcCurrent] at mapped

theorem getMr_isSome (doc : Document) (opId : Nat) (positive : 1 ≤ opId)
    (within : opId ≤ doc.allocations.length) : ((ofDocument doc).getMr opId).isSome := by
  simp only [getMr, ofDocument, length_calcCurrent]
  rw [if_neg (by omega), List.getElem?_eq_getElem (by rw [length_calcCurrent]; omega)]
  rfl

theorem getMr_zero (profile : MProfile) : profile.getMr 0 = none := by
  rw [getMr, if_pos (Or.inl Nat.zero_lt_one)]

end MProfile
end Mprofile
end OsslScripts
