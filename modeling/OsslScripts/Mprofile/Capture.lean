import OsslScripts.Mprofile.Hooks
import OsslScripts.Mprofile.StackSets

namespace OsslScripts
namespace Mprofile

/-!
# Captured stacks

What `collect_backtrace` leaves in the buffer of a hook: the frames that the
unwinder delivers, up to the capacity which `mprofile_init_stack` computes from
the size of the buffer.
-/

/-- The capacity of a stack in `stack_buf`. -/
def stackBufLimit : Nat := (sizeofStackBuf - sizeofMprofileStack) / 8

/-- The stack in a hook's `stack_buf` before the backtrace is collected. -/
def emptyStack (buf : UInt64) (around : Int -> UInt64) : MprofileStack where
  mpsStackLimit := stackBufLimit
  mpsId := 0
  mpsStackDepth := 0
  mpsFlags := 0
  mpsCount := 0
  mpsThread := 0
  mpsStack := fun i =>
    if i = -1 then buf + UInt64.ofNat sizeofMprofileStack
    else if 0 ≤ i ∧ i < Int.ofNat stackBufLimit then 0 else around i

/-- The stack in a hook's `stack_buf` after the backtrace is collected. -/
def capturedStack (buf : UInt64) (around : Int -> UInt64) (delivered : List UInt64) :
    MprofileStack :=
  delivered.foldl mprofilePushFrame (emptyStack buf around)

section Capture

variable {mps : MprofileStack} {buf : UInt64} {around : Int -> UInt64} {delivered : List UInt64}

/-- Pushing fills the array from its depth on and touches nothing else. -/
structure Pushed (mps pushed : MprofileStack) (frames : List UInt64) : Prop where
  limit : pushed.mpsStackLimit = mps.mpsStackLimit
  flags : pushed.mpsFlags = mps.mpsFlags
  before : pushed.mpsStack (-1) = mps.mpsStack (-1)
  room : pushed.mpsStackDepth ≤ pushed.mpsStackLimit
  frames : pushed.frames = mps.frames ++ frames.take (mps.mpsStackLimit - mps.mpsStackDepth)

theorem frames_update (mps : MprofileStack) (frame : UInt64) :
    ({ mps with
        mpsStack := Function.update mps.mpsStack (Int.ofNat mps.mpsStackDepth) frame
        mpsStackDepth := mps.mpsStackDepth + 1 } : MprofileStack).frames = mps.frames ++
        [frame] := by
  unfold MprofileStack.frames
  simp only [List.range_succ, List.map_append, List.map_singleton, Function.update_self]
  congr 1
  apply List.map_congr_left
  intro i inside
  have different : Int.ofNat i ≠ Int.ofNat mps.mpsStackDepth := by
    have less := List.mem_range.mp inside
    simp only [Int.ofNat_eq_natCast, ne_eq, Int.natCast_inj]
    omega
  rw [Function.update_of_ne different]

theorem mprofilePushFrame_room (room : mps.mpsStackDepth < mps.mpsStackLimit) (frame : UInt64) :
    mprofilePushFrame mps frame =
      { mps with
        mpsStack := Function.update mps.mpsStack (Int.ofNat mps.mpsStackDepth) frame
        mpsStackDepth := mps.mpsStackDepth + 1 } := by
  rw [mprofilePushFrame, if_pos room]

theorem mprofilePushFrame_full (full : ¬ mps.mpsStackDepth < mps.mpsStackLimit) (frame : UInt64) :
    mprofilePushFrame mps frame = mps := by
  rw [mprofilePushFrame, if_neg full]

theorem pushed_foldl (mps : MprofileStack) (room : mps.mpsStackDepth ≤ mps.mpsStackLimit)
    (frames : List UInt64) :
    Pushed mps (frames.foldl mprofilePushFrame mps) frames := by
  induction frames generalizing mps with
  | nil => exact ⟨rfl, rfl, rfl, room, by rw [List.take_nil, List.append_nil]; rfl⟩
  | cons frame rest inductionHypothesis =>
      rw [List.foldl_cons]
      by_cases full : mps.mpsStackDepth < mps.mpsStackLimit
      · rw [mprofilePushFrame_room full]
        have onward := inductionHypothesis { mps with
          mpsStack := Function.update mps.mpsStack (Int.ofNat mps.mpsStackDepth) frame
          mpsStackDepth := mps.mpsStackDepth + 1 } full
        refine ⟨onward.limit, onward.flags, ?_, onward.room, ?_⟩
        · rw [onward.before]
          have different : (-1 : Int) ≠ Int.ofNat mps.mpsStackDepth := by
            simp only [Int.ofNat_eq_natCast, ne_eq]
            omega
          exact Function.update_of_ne different frame mps.mpsStack
        · rw [onward.frames, frames_update, List.append_assoc, List.singleton_append]
          rcases Nat.exists_eq_succ_of_ne_zero (Nat.sub_ne_zero_of_lt full) with ⟨n, left⟩
          have next : mps.mpsStackLimit - (mps.mpsStackDepth + 1) = n := by omega
          rw [left, List.take_succ_cons]
          simp only [next]
      · rw [mprofilePushFrame_full full]
        have onward := inductionHypothesis mps room
        have none : mps.mpsStackLimit - mps.mpsStackDepth = 0 := by omega
        refine ⟨onward.limit, onward.flags, onward.before, onward.room, ?_⟩
        rw [onward.frames, none, List.take_zero, List.take_zero]

/-- The captured stack holds the first frames that were delivered. -/
theorem pushed_capturedStack (buf : UInt64) (around : Int -> UInt64) (delivered : List UInt64) :
    Pushed (emptyStack buf around) (capturedStack buf around delivered) delivered :=
  pushed_foldl _ (Nat.zero_le _) delivered

theorem frames_capturedStack (buf : UInt64) (around : Int -> UInt64) (delivered : List UInt64) :
    (capturedStack buf around delivered).frames = delivered.take stackBufLimit := by
  rw [(pushed_capturedStack buf around delivered).frames]
  rfl

theorem before_capturedStack (buf : UInt64) (around : Int -> UInt64) (delivered : List UInt64) :
    (capturedStack buf around delivered).mpsStack (-1) = buf + UInt64.ofNat sizeofMprofileStack :=
  (pushed_capturedStack buf around delivered).before

theorem flags_capturedStack (buf : UInt64) (around : Int -> UInt64) (delivered : List UInt64) :
    (capturedStack buf around delivered).mpsFlags = 0 :=
  (pushed_capturedStack buf around delivered).flags

/-- A copy in a block of its own is found by no key that the set knows. -/
theorem key_copied_ne {heap : StackHeap} {block : Option (Int -> UInt64)} {copy : MprofileStack}
    (fresh : heap.freshBlock block) (copied : mprofileCopyStack mps block = some copy) {p : Nat}
    (below : p < heap.mpsTop) (different : heap.key p ≠ stackKey mps) (id : Nat) :
    heap.key p ≠ stackKey { copy with mpsId := id } := by
  have unnamed : stackKey { copy with mpsId := id } = stackKey copy := stackKey_congr rfl rfl
  have same := frames_mprofileCopyStack copied
  rw [unnamed]
  intro equal
  by_cases empty : copy.mpsStackDepth = 0
  · have depth : (heap.mps p).mpsStackDepth = 0 := (depth_eq_of_stackKey_eq equal).trans empty
    have words : stackKey (heap.mps p) = stackKey copy := equal
    rw [stackKey, stackKey, depth, empty, if_pos rfl, if_pos rfl] at words
    have word := (List.cons.inj (Prod.mk.inj (toLex.injective words)).2).1
    cases block with
    | none => cases copied
    | some words =>
        cases copied
        exact fresh p below (UInt64.toNat_inj.mp word)
  · apply different
    rw [equal]
    exact (stackKey_eq_iff (Nat.pos_of_ne_zero empty) mps).mpr same.2

end Capture

end Mprofile
end OsslScripts
