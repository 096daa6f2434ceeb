import OsslScripts.Mprofile.Stack
import Mathlib.Data.List.Lex
import Mathlib.Data.Prod.Lex
import Mathlib.Tactic.Set

namespace OsslScripts
namespace Mprofile

open Foundation

/-!
# The order of stacks

`stack_compare` orders stacks by depth and then by the first different frame.
The order is stated through a key in a linear order, which is the form in which
the tree laws use it.  For stacks with frames nothing outside the two frame
sequences takes part, so a stack and its copy compare equal wherever they are
stored.  Two stacks without frames are compared by the word before their arrays.
-/

/-- What the comparison looks at: the depth, then the frames in order. -/
def stackKey (mps : MprofileStack) : Lex (Nat × List Nat) :=
  toLex (mps.mpsStackDepth,
    if mps.mpsStackDepth = 0 then [(mps.mpsStack (-1)).toNat] else mps.frames.map UInt64.toNat)

namespace MprofileStack

theorem getElem_frames (mps : MprofileStack) (i : Nat) (h : i < mps.frames.length) :
    mps.frames[i] = mps.mpsStack (Int.ofNat i) := by
  simp only [frames, List.getElem_map, List.getElem_range]

/-- Equal words up to the common depth are equal frame sequences. -/
theorem frames_eq_iff {a b : MprofileStack} (sameDepth : a.mpsStackDepth = b.mpsStackDepth) :
    a.frames = b.frames ↔
      forall i, i < b.mpsStackDepth -> a.mpsStack (Int.ofNat i) = b.mpsStack (Int.ofNat i) := by
  constructor
  · intro same i inside
    have left := getElem_frames a i (by rw [length_frames]; omega)
    have right := getElem_frames b i (by rw [length_frames]; omega)
    rw [← left, ← right]
    simp only [same]
  · intro agree
    rw [frames, frames, sameDepth]
    apply List.map_congr_left
    intro i inside
    exact agree i (List.mem_range.mp inside)

end MprofileStack

theorem frames_map_toNat_injective {first second : List UInt64}
    (same : first.map UInt64.toNat = second.map UInt64.toNat) : first = second :=
  List.map_injective_iff.mpr (fun _ _ equal => UInt64.toNat_inj.mp equal) same

/-- For a stack with frames, the key and the frame sequence carry the same information. -/
theorem stackKey_eq_iff {a : MprofileStack} (nonempty : 0 < a.mpsStackDepth) (b : MprofileStack) :
    stackKey a = stackKey b ↔ a.frames = b.frames := by
  have depthOf : a.frames = b.frames -> a.mpsStackDepth = b.mpsStackDepth := fun same => by
    rw [← a.length_frames, ← b.length_frames, same]
  constructor
  · intro same
    have parts := Prod.mk.inj (toLex.injective same)
    rw [if_neg (by omega), if_neg (by omega)] at parts
    exact frames_map_toNat_injective parts.2
  · intro same
    rw [stackKey, stackKey, if_neg (by omega), if_neg (by have := depthOf same; omega),
      depthOf same,
      same]

/-- The scan stops at the first difference at or after its start. -/
theorem stackScan_spec (a b : MprofileStack) (room i : Nat) :
    i ≤ stackScan a b room i ∧ stackScan a b room i ≤ i + room ∧
      (forall k, i ≤ k -> k < stackScan a b room i ->
        a.mpsStack (Int.ofNat k) = b.mpsStack (Int.ofNat k)) ∧
      (stackScan a b room i < i + room ->
        a.mpsStack (Int.ofNat (stackScan a b room i)) ≠
          b.mpsStack (Int.ofNat (stackScan a b room i))) := by
  induction room generalizing i with
  | zero => exact ⟨Nat.le_refl i, Nat.le_refl i, fun k above below => by
      simp only [stackScan] at below; omega, fun less => by simp only [stackScan] at less; omega⟩
  | succ room inductionHypothesis =>
      rw [stackScan]
      by_cases equal : a.mpsStack (Int.ofNat i) = b.mpsStack (Int.ofNat i)
      · rw [if_pos equal]
        rcases inductionHypothesis (i + 1) with ⟨above, below, agree, differ⟩
        refine ⟨by omega, by omega, fun k from_i upTo => ?_, fun less => differ (by omega)⟩
        by_cases first : k = i
        · exact first ▸ equal
        · exact agree k (by omega) upTo
      · rw [if_neg equal]
        exact ⟨Nat.le_refl i, by omega, fun k above below => by omega, fun _ => equal⟩

/-- Two stacks of one positive depth compare as their keys do. -/
theorem stackCompare_sameDepth {a b : MprofileStack}
    (sameDepth : a.mpsStackDepth = b.mpsStackDepth) (nonempty : 0 < b.mpsStackDepth) :
    (stackCompare a b < 0 ↔ a.frames.map UInt64.toNat < b.frames.map UInt64.toNat) ∧
      (stackCompare a b = 0 ↔ a.frames = b.frames) := by
  rcases stackScan_spec a b b.mpsStackDepth 0 with ⟨-, below, agree, differ⟩
  rw [MprofileStack.frames_eq_iff sameDepth]
  unfold stackCompare
  rw [if_neg (by omega), if_neg (by omega)]
  generalize stackScan a b b.mpsStackDepth 0 = j at below agree differ
  rw [Nat.zero_add] at below differ
  by_cases whole : j = b.mpsStackDepth
  · -- no difference: the index steps back to a frame that is equal on both sides
    subst whole
    have last : Int.ofNat b.mpsStackDepth - 1 = Int.ofNat (b.mpsStackDepth - 1) := by
      simp only [Int.ofNat_eq_natCast]
      omega
    have equal := agree (b.mpsStackDepth - 1) (Nat.zero_le _) (by omega)
    have same : a.frames = b.frames := (MprofileStack.frames_eq_iff sameDepth).mpr
      (fun i inside => agree i (Nat.zero_le i) inside)
    have wholeLength : Int.ofNat b.mpsStackDepth = (b.mpsStackDepth : Int) := rfl
    simp only [if_pos wholeLength]
    rw [last, equal, if_neg (UInt64.lt_irrefl _), if_neg (UInt64.lt_irrefl _), same]
    exact ⟨⟨fun impossible => absurd impossible (lt_irrefl 0),
      fun impossible => absurd impossible (lt_irrefl _)⟩,
      ⟨fun _ i inside => agree i (Nat.zero_le i) inside, fun _ => rfl⟩⟩
  · have inside : j < b.mpsStackDepth := by omega
    have different := differ inside
    have notWhole : ¬ (Int.ofNat j = (b.mpsStackDepth : Int)) := by
      simp only [Int.ofNat_eq_natCast]
      omega
    have keyLess : a.frames.map UInt64.toNat < b.frames.map UInt64.toNat ↔
        a.mpsStack (Int.ofNat j) < b.mpsStack (Int.ofNat j) := by
      rw [List.lt_iff_exists]
      simp only [List.length_map, MprofileStack.length_frames, List.getElem_map,
        MprofileStack.getElem_frames, UInt64.toNat_inj, ← UInt64.lt_iff_toNat_lt]
      constructor
      · rintro (⟨-, shorter⟩ | ⟨i, left, right, before, less⟩)
        · omega
        · -- the first difference is unique
          rcases Nat.lt_trichotomy i j with early | same | late
          · rw [agree i (Nat.zero_le i) early] at less
            exact absurd less (UInt64.lt_irrefl _)
          · exact same ▸ less
          · exact absurd (before j late) different
      · intro less
        exact Or.inr ⟨j, by omega, inside, fun i early => agree i (Nat.zero_le i) early, less⟩
    simp only [if_neg notWhole]
    rw [keyLess]
    have notAll : ¬ forall i, i < b.mpsStackDepth ->
        a.mpsStack (Int.ofNat i) = b.mpsStack (Int.ofNat i) := fun all => different (all j inside)
    by_cases less : a.mpsStack (Int.ofNat j) < b.mpsStack (Int.ofNat j)
    · rw [if_pos less]
      exact ⟨⟨fun _ => less, fun _ => by decide⟩,
        ⟨fun impossible => absurd impossible (by decide), fun all => absurd all notAll⟩⟩
    · have greater : b.mpsStack (Int.ofNat j) < a.mpsStack (Int.ofNat j) := by
        rw [UInt64.lt_iff_toNat_lt] at less ⊢
        have := mt UInt64.toNat_inj.mp different
        omega
      rw [if_neg less, if_pos greater]
      exact ⟨⟨fun impossible => absurd impossible (by decide), fun less' => absurd less' less⟩,
        ⟨fun impossible => absurd impossible (by decide), fun all => absurd all notAll⟩⟩

/-- Two stacks without frames compare as the words before their arrays do. -/
theorem stackCompare_empty {a b : MprofileStack} (emptyA : a.mpsStackDepth = 0)
    (emptyB : b.mpsStackDepth = 0) :
    (stackCompare a b < 0 ↔ a.mpsStack (-1) < b.mpsStack (-1)) ∧
      (stackCompare a b = 0 ↔ a.mpsStack (-1) = b.mpsStack (-1)) := by
  unfold stackCompare
  rw [if_neg (by omega), if_neg (by omega), emptyB]
  have back : (if Int.ofNat (stackScan a b 0 0) = ((0 : Nat) : Int)
      then Int.ofNat (stackScan a b 0 0) - 1 else Int.ofNat (stackScan a b 0 0)) = -1 := rfl
  simp only [back]
  by_cases less : a.mpsStack (-1) < b.mpsStack (-1)
  · rw [if_pos less]
    exact ⟨⟨fun _ => less, fun _ => by decide⟩, ⟨fun impossible => absurd impossible (by decide),
      fun same => absurd less (by rw [same]; exact UInt64.lt_irrefl _)⟩⟩
  · rw [if_neg less]
    by_cases greater : b.mpsStack (-1) < a.mpsStack (-1)
    · rw [if_pos greater]
      exact ⟨⟨fun impossible => absurd impossible (by decide), fun less' => absurd less' less⟩,
        ⟨fun impossible => absurd impossible (by decide),
          fun same => absurd greater (by rw [same]; exact UInt64.lt_irrefl _)⟩⟩
    · rw [if_neg greater]
      refine ⟨⟨fun impossible => absurd impossible (by decide), fun less' => absurd less' less⟩,
        ⟨fun _ => UInt64.toNat_inj.mp ?_, fun _ => rfl⟩⟩
      rw [UInt64.lt_iff_toNat_lt] at less greater
      omega

/-- `stack_compare` orders stacks by their keys. -/
theorem stackCompare_keyed (a b : MprofileStack) :
    (stackCompare a b < 0 ↔ stackKey a < stackKey b) ∧
      (stackCompare a b = 0 ↔ stackKey a = stackKey b) := by
  rw [stackKey, stackKey, Prod.Lex.toLex_lt_toLex, toLex_inj, Prod.mk.injEq]
  simp only
  rcases Nat.lt_trichotomy a.mpsStackDepth b.mpsStackDepth with shorter | same | longer
  · unfold stackCompare
    rw [if_pos shorter]
    exact ⟨⟨fun _ => Or.inl shorter, fun _ => by decide⟩,
      ⟨fun impossible => absurd impossible (by decide),
        fun equal => absurd equal.1 (Nat.ne_of_lt shorter)⟩⟩
  · have lengths : ¬ a.mpsStackDepth < b.mpsStackDepth := by omega
    simp only [same, lt_irrefl, false_or, true_and]
    by_cases empty : b.mpsStackDepth = 0
    · have both := stackCompare_empty (same.trans empty) empty
      rw [both.1, both.2]
      simp only [empty, if_true, List.cons_lt_cons_iff, List.cons.injEq, and_true,
        UInt64.lt_iff_toNat_lt, ← UInt64.toNat_inj]
      simp
    · have both := stackCompare_sameDepth same (Nat.pos_of_ne_zero empty)
      rw [both.1, both.2]
      simp only [empty, if_false, true_and]
      exact ⟨fun equal => by rw [equal], frames_map_toNat_injective⟩
  · unfold stackCompare
    rw [if_neg (by omega), if_pos longer]
    exact ⟨⟨fun impossible => absurd impossible (by decide), fun less => by omega⟩,
      ⟨fun impossible => absurd impossible (by decide),
        fun equal => absurd equal.1 (Nat.ne_of_gt longer)⟩⟩

/-- Nothing but the depth and the frames enters the key. -/
theorem stackKey_congr {a b : MprofileStack} (depth : a.mpsStackDepth = b.mpsStackDepth)
    (words : a.mpsStack = b.mpsStack) : stackKey a = stackKey b := by
  rw [stackKey, stackKey, MprofileStack.frames, MprofileStack.frames, depth, words]

theorem stackScan_congr {a a' b b' : MprofileStack} (left : a.mpsStack = a'.mpsStack)
    (right : b.mpsStack = b'.mpsStack) (room i : Nat) :
    stackScan a b room i = stackScan a' b' room i := by
  induction room generalizing i with
  | zero => rfl
  | succ room inductionHypothesis => rw [stackScan, stackScan, left, right, inductionHypothesis]

/-- Nothing but the depth and the words at the frame pointer enters the comparison. -/
theorem stackCompare_congr {a a' b b' : MprofileStack}
    (left : a.mpsStackDepth = a'.mpsStackDepth ∧ a.mpsStack = a'.mpsStack)
    (right : b.mpsStackDepth = b'.mpsStackDepth ∧ b.mpsStack = b'.mpsStack) :
    stackCompare a b = stackCompare a' b' := by
  unfold stackCompare
  rw [stackScan_congr left.2 right.2, left.1, right.1, left.2, right.2]

/-- A copy holds the frames of the original, wherever it is stored. -/
theorem frames_mprofileCopyStack {mps copy : MprofileStack} {block : Option (Int -> UInt64)}
    (copied : mprofileCopyStack mps block = some copy) :
    copy.mpsStackDepth = mps.mpsStackDepth ∧ copy.frames = mps.frames := by
  cases block with
  | none => cases copied
  | some words =>
      cases copied
      refine ⟨rfl, (MprofileStack.frames_eq_iff ?_).mpr (fun i inside => ?_)⟩
      · rfl
      · have within : (0 : Int) ≤ Int.ofNat i ∧ Int.ofNat i < Int.ofNat mps.mpsStackDepth := by
          simp only [Int.ofNat_eq_natCast]
          omega
        simp only [if_pos within]

end Mprofile
end OsslScripts
