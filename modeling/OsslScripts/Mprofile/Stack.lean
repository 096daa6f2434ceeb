import OsslScripts.Foundation.OrderedTree
import Mathlib.Algebra.Ring.Int.Defs
import Mathlib.Algebra.Ring.Nat
import Mathlib.Logic.Function.Basic

namespace OsslScripts
namespace Mprofile

open Foundation

/-!
# Call stacks and stack sets

`struct mprofile_stack`, `struct mprofile_stack_set` and the operations of
`stack.c`.  Stack objects live in a heap and are named by handles, with `0` for
the null pointer, because one object hangs in two trees of its set and is
updated in place.  A set keeps the handles of its two trees in tree order.

Stack ids and use counts are `unsigned int`: they are numbers below `2 ^ 32`
and their increments wrap.
-/

/-- `x++` on an `unsigned int`. -/
def uintSucc (n : Nat) : Nat := (n + 1) % 2 ^ 32

/-- `x--` on an `unsigned int`. -/
def uintPred (n : Nat) : Nat := (n + (2 ^ 32 - 1)) % 2 ^ 32

theorem uintSucc_of_lt {n : Nat} (room : n + 1 < 2 ^ 32) : uintSucc n = n + 1 :=
  Nat.mod_eq_of_lt room

theorem uintPred_of_pos {n : Nat} (positive : 0 < n) (small : n < 2 ^ 32) :
    uintPred n = n - 1 := by
  unfold uintPred
  omega

/-- `MPS_FLAG_MANAGED` -/
def mpsFlagManaged : Nat := 1

/-- `sizeof (mprofile_stack_t)` -/
def sizeofMprofileStack : Nat := 104

/-- `struct mprofile_stack`.  The frames are read through a pointer, so they
are given by the words of memory around the address in it: `mpsStack i` is what
`mps_stack[i]` reads, also where `i` is outside the array.  The array follows
the structure, whose last member is the pointer, so `mpsStack (-1)` is the
address of the array itself. -/
structure MprofileStack where
  mpsStackLimit : Nat
  mpsId : Nat
  mpsStackDepth : Nat
  mpsFlags : Nat
  mpsCount : Nat
  mpsThread : Nat
  mpsStack : Int -> UInt64

namespace MprofileStack

/-- Lists of frames are compared word by word. -/
instance : LawfulBEq (List UInt64) := inferInstance

/-- The recorded frames, innermost first. -/
def frames (mps : MprofileStack) : List UInt64 :=
  (List.range mps.mpsStackDepth).map (fun i => mps.mpsStack (Int.ofNat i))

@[simp] theorem length_frames (mps : MprofileStack) : mps.frames.length = mps.mpsStackDepth := by
  rw [frames, List.length_map, List.length_range]

end MprofileStack

/-- The `while` loop of `stack_compare` from index `i`, with `room` frames left
to compare.  It stops at the first difference, or past the last frame. -/
def stackScan (a b : MprofileStack) : Nat -> Nat -> Nat
  | 0, i => i
  | room + 1, i =>
      if a.mpsStack (Int.ofNat i) = b.mpsStack (Int.ofNat i) then stackScan a b room (i + 1) else i

/-- `stack_compare`.  When the whole length is equal the index steps back to
the last frame, which is index -1 for two empty stacks. -/
def stackCompare (a b : MprofileStack) : Int :=
  if a.mpsStackDepth < b.mpsStackDepth then -1
  else if b.mpsStackDepth < a.mpsStackDepth then 1
  else
    let scanned : Int := Int.ofNat (stackScan a b b.mpsStackDepth 0)
    let i : Int := if scanned = b.mpsStackDepth then scanned - 1 else scanned
    if a.mpsStack i < b.mpsStack i then -1
    else if b.mpsStack i < a.mpsStack i then 1
    else 0

/-- `stack_id_compare` -/
def stackIdCompare (a b : MprofileStack) : Int := threeWay a.mpsId b.mpsId

/-- `mprofile_init_stack` on the caller's buffer at address `buf`.  The buffer is
cleared; `around` gives the words outside of it. -/
def mprofileInitStack (buf : UInt64) (bufSz : Nat) (around : Int -> UInt64) :
    Option MprofileStack :=
  if bufSz < sizeofMprofileStack + 8 then none
  else some {
    mpsStackLimit := (bufSz - sizeofMprofileStack) / 8
    mpsId := 0
    mpsStackDepth := 0
    mpsFlags := 0
    mpsCount := 0
    mpsThread := 0
    mpsStack := fun i =>
      if i = -1 then buf + UInt64.ofNat sizeofMprofileStack
      else if 0 ≤ i ∧ i < Int.ofNat ((bufSz - sizeofMprofileStack) / 8) then 0
      else around i }

/-- `mprofile_push_frame`: a full stack ignores the frame. -/
def mprofilePushFrame (mps : MprofileStack) (frame : UInt64) : MprofileStack :=
  if mps.mpsStackDepth < mps.mpsStackLimit then
    { mps with
      mpsStack := Function.update mps.mpsStack (Int.ofNat mps.mpsStackDepth) frame
      mpsStackDepth := mps.mpsStackDepth + 1 }
  else mps

/-- `mprofile_copy_stack`.  `block` is what `malloc` returns: nothing, or a
block with the words it happens to contain, word -1 being the address of the
new array.  The id is set by the caller. -/
def mprofileCopyStack (mps : MprofileStack) (block : Option (Int -> UInt64)) :
    Option MprofileStack :=
  match block with
  | none => none
  | some words => some {
      mpsStackLimit := mps.mpsStackDepth
      mpsId := 0
      mpsStackDepth := mps.mpsStackDepth
      mpsFlags := mpsFlagManaged
      mpsCount := if mps.mpsFlags = mpsFlagManaged then mps.mpsCount else 1
      mpsThread := if mps.mpsFlags = mpsFlagManaged then mps.mpsThread else 0
      mpsStack := fun i =>
        if 0 ≤ i ∧ i < Int.ofNat mps.mpsStackDepth then mps.mpsStack i else words i }

/-- `struct mprofile_stack_set`: the id to hand out next, and the handles in the
tree ordered by content and in the tree ordered by id. -/
structure MprofileStset where
  stsetId : Nat
  stsetRbh : List Nat
  stsetIdRbh : List Nat
deriving DecidableEq, Repr

/-- The stack objects and stack sets that exist, by handle. -/
structure StackHeap where
  mps : Nat -> MprofileStack
  mpsTop : Nat
  stset : Nat -> MprofileStset
  stsetTop : Nat

namespace StackHeap

/-- The state at program start, with no object allocated. -/
def empty : StackHeap where
  mps := fun _ => ⟨0, 0, 0, 0, 0, 0, fun _ => 0⟩
  mpsTop := 1
  stset := fun _ => ⟨1, [], []⟩
  stsetTop := 1

def setMps (heap : StackHeap) (p : Nat) (mps : MprofileStack) : StackHeap :=
  { heap with mps := Function.update heap.mps p mps }

def setStset (heap : StackHeap) (s : Nat) (set : MprofileStset) : StackHeap :=
  { heap with stset := Function.update heap.stset s set }

@[simp] theorem setMps_stset (heap : StackHeap) (p : Nat) (mps : MprofileStack) :
    (heap.setMps p mps).stset = heap.stset := rfl

@[simp] theorem setMps_mps (heap : StackHeap) (p : Nat) (mps : MprofileStack) :
    (heap.setMps p mps).mps = Function.update heap.mps p mps := rfl

@[simp] theorem setMps_mpsTop (heap : StackHeap) (p : Nat) (mps : MprofileStack) :
    (heap.setMps p mps).mpsTop = heap.mpsTop := rfl

@[simp] theorem setMps_stsetTop (heap : StackHeap) (p : Nat) (mps : MprofileStack) :
    (heap.setMps p mps).stsetTop = heap.stsetTop := rfl

@[simp] theorem setStset_mps (heap : StackHeap) (s : Nat) (set : MprofileStset) :
    (heap.setStset s set).mps = heap.mps := rfl

@[simp] theorem setStset_stset (heap : StackHeap) (s : Nat) (set : MprofileStset) :
    (heap.setStset s set).stset = Function.update heap.stset s set := rfl

@[simp] theorem setStset_mpsTop (heap : StackHeap) (s : Nat) (set : MprofileStset) :
    (heap.setStset s set).mpsTop = heap.mpsTop := rfl

@[simp] theorem setStset_stsetTop (heap : StackHeap) (s : Nat) (set : MprofileStset) :
    (heap.setStset s set).stsetTop = heap.stsetTop := rfl

/-- The order of the content tree, on handles. -/
def contentOrder (heap : StackHeap) (p q : Nat) : Int := stackCompare (heap.mps p) (heap.mps q)

/-- The order of the id tree, on handles. -/
def idOrder (heap : StackHeap) (p q : Nat) : Int := stackIdCompare (heap.mps p) (heap.mps q)

/-- `mps_count++` -/
def bump (heap : StackHeap) (p : Nat) : StackHeap :=
  heap.setMps p { heap.mps p with mpsCount := uintSucc (heap.mps p).mpsCount }

/-- `mps_count--` -/
def unbump (heap : StackHeap) (p : Nat) : StackHeap :=
  heap.setMps p { heap.mps p with mpsCount := uintPred (heap.mps p).mpsCount }

/-- Search a content tree for the content of `key`. -/
def findContent (heap : StackHeap) (key : MprofileStack) (tree : List Nat) : Option Nat :=
  OrderedTree.find (fun p => stackCompare key (heap.mps p)) tree

/-- Search an id tree for an id. -/
def findId (heap : StackHeap) (stackId : Nat) (tree : List Nat) : Option Nat :=
  OrderedTree.find (fun p => threeWay stackId (heap.mps p).mpsId) tree

end StackHeap

/-- `mprofile_create_stset`; `ok` tells whether its `malloc` succeeds. -/
def mprofileCreateStset (heap : StackHeap) (ok : Bool) : StackHeap × Nat :=
  if ok then
    ({ heap with
        stset := Function.update heap.stset heap.stsetTop ⟨1, [], []⟩
        stsetTop := heap.stsetTop + 1 }, heap.stsetTop)
  else (heap, 0)

/-- Hang a new object into both trees of a set.  The results of the two
insertions are ignored, as in `mprofile_add_stack`. -/
def linkStack (heap : StackHeap) (stset p : Nat) : StackHeap :=
  let set := heap.stset stset
  heap.setStset stset
    { stsetId := uintSucc set.stsetId
      stsetRbh := (OrderedTree.insert heap.contentOrder p set.stsetRbh).1
      stsetIdRbh := (OrderedTree.insert heap.idOrder p set.stsetIdRbh).1 }

/-- `mprofile_add_stack`: count another use of a known stack, or add a copy
under the next id.  Returns the handle, `0` for the null pointer. -/
def mprofileAddStack (heap : StackHeap) (stset : Nat) (newMps : MprofileStack)
    (block : Option (Int -> UInt64)) : StackHeap × Nat :=
  if stset = 0 then (heap, 0)
  else
    match heap.findContent newMps (heap.stset stset).stsetRbh with
    | some p => (heap.bump p, p)
    | none =>
        match mprofileCopyStack newMps block with
        | none => (heap, 0)
        | some copy =>
            let p := heap.mpsTop
            let heap := { heap.setMps p { copy with mpsId := (heap.stset stset).stsetId } with
              mpsTop := p + 1 }
            (linkStack heap stset p, p)

/-- Why `mprofile_merge_stack` does not return. -/
inductive MergeFault where
  /-- `assert(old_mps != NULL)` -/
  | sourceMissing
  /-- `assert(chk_mps_id == NULL)` -/
  | freshIdTaken
  /-- `abort()` after a failed copy -/
  | noMemory
deriving DecidableEq, Repr

/-- Take an object out of both trees of its set. -/
def unlinkStack (heap : StackHeap) (stset p : Nat) : StackHeap :=
  let set := heap.stset stset
  heap.setStset stset
    { set with stsetRbh := set.stsetRbh.erase p, stsetIdRbh := set.stsetIdRbh.erase p }

/-- The path of `mprofile_merge_stack` for a stack with a single use left: the
object itself moves to the destination, unless its content is there already.
It keeps its id if that is free in the destination. -/
def moveStack (heap : StackHeap) (dst src old : Nat) : Except MergeFault (StackHeap × Nat) :=
  let heap := unlinkStack heap src old
  let set := heap.stset dst
  match OrderedTree.insert heap.contentOrder old set.stsetRbh with
  | (rbh, none) =>
      match OrderedTree.insert heap.idOrder old set.stsetIdRbh with
      | (idRbh, none) =>
          .ok (heap.setStset dst { set with stsetRbh := rbh, stsetIdRbh := idRbh }, old)
      | (_, some _) =>
          let heap := heap.setMps old { heap.mps old with mpsId := set.stsetId }
          match OrderedTree.insert heap.idOrder old set.stsetIdRbh with
          | (idRbh, none) =>
              .ok (heap.setStset dst
                { stsetId := uintSucc set.stsetId, stsetRbh := rbh, stsetIdRbh := idRbh }, old)
          | (_, some _) => .error .freshIdTaken
  | (_, some same) => .ok (heap.bump same, same)

/-- The path for a stack with more than one use left: fold one use into the
destination, which gets a copy if it does not know the content. -/
def shareStack (heap : StackHeap) (dst old : Nat) (block : Option (Int -> UInt64)) :
    Except MergeFault (StackHeap × Nat) :=
  match heap.findContent (heap.mps old) (heap.stset dst).stsetRbh with
  | none =>
      match mprofileAddStack heap dst (heap.mps old) block with
      | (_, 0) => .error .noMemory
      | (heap, new) => .ok (heap.unbump old, new)
  | some new => .ok ((heap.bump new).unbump old, new)

/-- `mprofile_merge_stack` -/
def mprofileMergeStack (heap : StackHeap) (dst src stackId : Nat)
    (block : Option (Int -> UInt64)) : Except MergeFault (StackHeap × Nat) :=
  match heap.findId stackId (heap.stset src).stsetIdRbh with
  | none => .error .sourceMissing
  | some old =>
      if (heap.mps old).mpsCount = 1 then moveStack heap dst src old
      else shareStack heap dst old block

/-- `mprofile_get_stack_id` -/
def mprofileGetStackId (heap : StackHeap) (p : Nat) : Nat :=
  if p = 0 then 0 else (heap.mps p).mpsId

end Mprofile
end OsslScripts
