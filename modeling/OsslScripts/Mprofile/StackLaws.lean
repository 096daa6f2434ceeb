import OsslScripts.Mprofile.StackOrder

namespace OsslScripts
namespace Mprofile

/-!
# The laws of the comparison

What a red-black tree asks of `stack_compare`, and which words the comparison
reads.  The loop reads the two words at its index before it compares the index
with the depth, so equal stacks of any depth are read one past their last
frame, and two empty stacks also one before their first.
-/

/-- The indices that the `while` loop reads from `i` on, with `room` frames left. -/
def scanReads (a b : MprofileStack) : Nat -> Nat -> List Int
  | 0, i => [Int.ofNat i]
  | room + 1, i =>
      Int.ofNat i ::
        if a.mpsStack (Int.ofNat i) = b.mpsStack (Int.ofNat i) then scanReads a b room (i + 1)
          else []

/-- The indices into both arrays that `stack_compare` reads, in order. -/
def stackCompareReads (a b : MprofileStack) : List Int :=
  if a.mpsStackDepth < b.mpsStackDepth then []
  else if b.mpsStackDepth < a.mpsStackDepth then []
  else
    let scanned : Int := Int.ofNat (stackScan a b b.mpsStackDepth 0)
    scanReads a b b.mpsStackDepth 0 ++ [if scanned = b.mpsStackDepth then scanned - 1 else scanned]

/-- The comparison reads frames only. -/
def ReadsFrames (a b : MprofileStack) : Prop :=
  forall i, i ∈ stackCompareReads a b ->
    0 ≤ i ∧ i < a.mpsStackDepth ∧ i < b.mpsStackDepth

/-- The laws about the result: it is a function of the frames, and a total order of them. -/
structure OrdersFrames (a b c : MprofileStack) : Prop where
  framesOnly : forall a' b' : MprofileStack, a'.frames = a.frames -> b'.frames = b.frames ->
    stackCompare a' b' = stackCompare a b
  zero : stackCompare a b = 0 ↔ a.frames = b.frames
  opposite : stackCompare b a = -stackCompare a b
  transitive : stackCompare a b < 0 -> stackCompare b c < 0 -> stackCompare a c < 0

/-! ## Reads -/

/-- The loop reads every index up to the one at which it stops. -/
theorem mem_scanReads (a b : MprofileStack) (room i : Nat) (k : Int) :
    k ∈ scanReads a b room i ↔ Int.ofNat i ≤ k ∧ k ≤ Int.ofNat (stackScan a b room i) := by
  induction room generalizing i with
  | zero =>
      rw [scanReads, stackScan, List.mem_singleton]
      omega
  | succ room inductionHypothesis =>
      rw [scanReads, stackScan, List.mem_cons]
      by_cases equal : a.mpsStack (Int.ofNat i) = b.mpsStack (Int.ofNat i)
      · rw [if_pos equal, if_pos equal, inductionHypothesis]
        have forward := (stackScan_spec a b room (i + 1)).1
        simp only [Int.ofNat_eq_natCast] at forward ⊢
        omega
      · rw [if_neg equal, if_neg equal]
        simp only [List.not_mem_nil, or_false]
        omega

/-- Stacks of one depth are scanned to the end exactly if their frames are equal. -/
theorem stackScan_eq_depth_iff {a b : MprofileStack}
    (sameDepth : a.mpsStackDepth = b.mpsStackDepth) :
    stackScan a b b.mpsStackDepth 0 = b.mpsStackDepth ↔ a.frames = b.frames := by
  rcases stackScan_spec a b b.mpsStackDepth 0 with ⟨-, below, agree, differ⟩
  rw [MprofileStack.frames_eq_iff sameDepth]
  constructor
  · intro whole i inside
    exact agree i (Nat.zero_le i) (by omega)
  · intro all
    by_contra early
    exact differ (by omega) (all _ (by omega))

/-- Only stacks with different frames are compared within their frames. -/
theorem readsFrames_iff (a b : MprofileStack) : ReadsFrames a b ↔ a.frames ≠ b.frames := by
  have depths : a.frames = b.frames -> a.mpsStackDepth = b.mpsStackDepth := by
    intro same
    rw [← a.length_frames, ← b.length_frames, same]
  rw [ReadsFrames, stackCompareReads]
  by_cases shorter : a.mpsStackDepth < b.mpsStackDepth
  · rw [if_pos shorter]
    refine iff_of_true (fun i impossible => by cases impossible) (fun same => ?_)
    have := depths same
    omega
  · rw [if_neg shorter]
    by_cases longer : b.mpsStackDepth < a.mpsStackDepth
    · rw [if_pos longer]
      refine iff_of_true (fun i impossible => by cases impossible) (fun same => ?_)
      have := depths same
      omega
    · have sameDepth : a.mpsStackDepth = b.mpsStackDepth := by omega
      rw [if_neg longer, Ne, ← stackScan_eq_depth_iff sameDepth]
      have below := (stackScan_spec a b b.mpsStackDepth 0).2.1
      generalize scan : stackScan a b b.mpsStackDepth 0 = j at below
      constructor
      · -- the word past the last frame is read when the scan gets there
        intro within whole
        have read : Int.ofNat j ∈ scanReads a b b.mpsStackDepth 0 := by
          rw [mem_scanReads, scan]
          exact ⟨Int.ofNat_le.mpr (Nat.zero_le j), Int.le_refl _⟩
        have inside := within (Int.ofNat j) (List.mem_append_left _ read)
        rw [Int.ofNat_eq_natCast] at inside
        omega
      · intro early i member
        rcases List.mem_append.mp member with scanned | last
        · rw [mem_scanReads, scan] at scanned
          simp only [Int.ofNat_eq_natCast] at scanned
          omega
        · rw [List.mem_singleton] at last
          simp only [Int.ofNat_eq_natCast] at last
          rw [if_neg (by omega)] at last
          omega

/-! ## The order -/

theorem stackCompare_range (a b : MprofileStack) :
    stackCompare a b = -1 ∨ stackCompare a b = 0 ∨ stackCompare a b = 1 := by
  unfold stackCompare
  simp only
  repeat' split
  all_goals decide

/-- Two comparisons with the same sign are equal. -/
theorem stackCompare_eq_of_signs {a b a' b' : MprofileStack}
    (negative : stackCompare a b < 0 ↔ stackCompare a' b' < 0)
    (zero : stackCompare a b = 0 ↔ stackCompare a' b' = 0) :
    stackCompare a b = stackCompare a' b' := by
  have first := stackCompare_range a b
  have second := stackCompare_range a' b'
  omega

/-- Swapping the stacks negates the result. -/
theorem stackCompare_swap (a b : MprofileStack) : stackCompare b a = -stackCompare a b := by
  have forward := stackCompare_keyed a b
  have backward := stackCompare_keyed b a
  have first := stackCompare_range a b
  have second := stackCompare_range b a
  rcases lt_trichotomy (stackKey a) (stackKey b) with less | same | greater
  · have negative := forward.1.mpr less
    have notLess := mt backward.1.mp (not_lt_of_gt less)
    have notZero := mt backward.2.mp (ne_of_gt less)
    omega
  · have zero := forward.2.mpr same
    have zero' := backward.2.mpr same.symm
    omega
  · have negative := backward.1.mpr greater
    have notLess := mt forward.1.mp (not_lt_of_gt greater)
    have notZero := mt forward.2.mp (ne_of_gt greater)
    omega

theorem stackCompare_trans {a b c : MprofileStack} (first : stackCompare a b < 0)
    (second : stackCompare b c < 0) : stackCompare a c < 0 := by
  rw [(stackCompare_keyed _ _).1] at first second ⊢
  exact lt_trans first second

/-- The key of a stack with frames is determined by them. -/
theorem stackKey_of_frames {a a' : MprofileStack} (nonempty : a.frames ≠ [])
    (same : a'.frames = a.frames) : stackKey a' = stackKey a := by
  have depth : 0 < a'.mpsStackDepth := by
    rw [← a'.length_frames, same]
    exact List.length_pos_of_ne_nil nonempty
  exact (stackKey_eq_iff depth a).mpr same

/-- A stack without frames comes before every stack with frames, whatever is around it. -/
theorem stackCompare_empty_left {a b : MprofileStack} (empty : a.frames = [])
    (nonempty : b.frames ≠ []) :
    stackCompare a b = -1 := by
  have depthA : a.mpsStackDepth = 0 := by rw [← a.length_frames, empty, List.length_nil]
  have depthB : 0 < b.mpsStackDepth := by
    rw [← b.length_frames]
    exact List.length_pos_of_ne_nil nonempty
  rw [stackCompare, if_pos (by omega)]

/-- The same frames elsewhere compare the same way, unless both stacks are empty. -/
theorem stackCompare_framesOnly {a b a' b' : MprofileStack}
    (nonempty : a.frames ≠ [] ∨ b.frames ≠ [])
    (sameA : a'.frames = a.frames) (sameB : b'.frames = b.frames) :
    stackCompare a' b' = stackCompare a b := by
  by_cases emptyA : a.frames = []
  · have framesB := nonempty.resolve_left (not_not_intro emptyA)
    rw [stackCompare_empty_left emptyA framesB,
      stackCompare_empty_left (sameA.trans emptyA) (sameB ▸ framesB)]
  · by_cases emptyB : b.frames = []
    · rw [stackCompare_swap b' a', stackCompare_swap b a, stackCompare_empty_left emptyB emptyA,
        stackCompare_empty_left (sameB.trans emptyB) (sameA ▸ emptyA)]
    · have keyA := stackKey_of_frames emptyA sameA
      have keyB := stackKey_of_frames emptyB sameB
      apply stackCompare_eq_of_signs
      · rw [(stackCompare_keyed _ _).1, (stackCompare_keyed _ _).1, keyA, keyB]
      · rw [(stackCompare_keyed _ _).2, (stackCompare_keyed _ _).2, keyA, keyB]

theorem stackCompare_zero_iff {a b : MprofileStack} (nonempty : a.frames ≠ [] ∨ b.frames ≠ []) :
    stackCompare a b = 0 ↔ a.frames = b.frames := by
  rcases Nat.eq_zero_or_pos a.mpsStackDepth with empty | positive
  · have emptyA : a.frames = [] := List.length_eq_zero_iff.mp (a.length_frames.trans empty)
    have framesB := nonempty.resolve_left (not_not_intro emptyA)
    rw [stackCompare_empty_left emptyA framesB, emptyA]
    exact iff_of_false (by decide) (Ne.symm framesB)
  · rw [(stackCompare_keyed a b).2, stackKey_eq_iff positive]

/-- An empty stack whose array is at this address. -/
def emptyStackAt (address : UInt64) : MprofileStack :=
  ⟨1, 0, 0, 0, 0, 0, fun i => if i = -1 then address else 0⟩

/-- The laws about the result hold unless both stacks are empty. -/
theorem ordersFrames_iff (a b c : MprofileStack) :
    OrdersFrames a b c ↔ a.frames ≠ [] ∨ b.frames ≠ [] := by
  constructor
  · intro orders
    by_contra bothEmpty
    rw [not_or, not_not, not_not] at bothEmpty
    -- empty stacks at equal and at different addresses
    have equal :=
      orders.framesOnly (emptyStackAt 0) (emptyStackAt 0) bothEmpty.1.symm bothEmpty.2.symm
    have apart :=
      orders.framesOnly (emptyStackAt 0) (emptyStackAt 1) bothEmpty.1.symm bothEmpty.2.symm
    exact absurd (equal.trans apart.symm) (by decide)
  · intro nonempty
    exact {
      framesOnly := fun a' b' sameA sameB => stackCompare_framesOnly nonempty sameA sameB
      zero := stackCompare_zero_iff nonempty
      opposite := stackCompare_swap a b
      transitive := stackCompare_trans }

/-- The comparison reads frames only and orders them exactly for different
frame sequences; what it returns is right unless both stacks are empty. -/
theorem stackCompare_lawful_iff (a b c : MprofileStack) :
    (ReadsFrames a b ∧ OrdersFrames a b c ↔ a.frames ≠ b.frames) ∧
      (OrdersFrames a b c ↔ a.frames ≠ [] ∨ b.frames ≠ []) := by
  refine ⟨?_, ordersFrames_iff a b c⟩
  rw [readsFrames_iff, ordersFrames_iff]
  refine ⟨fun both => both.1, fun different => ⟨different, ?_⟩⟩
  by_contra bothEmpty
  rw [not_or, not_not, not_not] at bothEmpty
  exact different (bothEmpty.1.trans bothEmpty.2.symm)

/-- Two empty stacks at different addresses: they differ, and the words before
their arrays are read. -/
theorem stackCompare_not_lawful :
    ¬ forall a b c : MprofileStack, a.mpsStackDepth ≤ a.mpsStackLimit ->
      b.mpsStackDepth ≤ b.mpsStackLimit ->
      c.mpsStackDepth ≤ c.mpsStackLimit -> ReadsFrames a b ∧ OrdersFrames a b c := by
  intro always
  have lawful :=
    always (emptyStackAt 0) (emptyStackAt 1) (emptyStackAt 0) (by decide) (by decide) (by decide)
  exact absurd (lawful.2.zero.mpr rfl) (by decide)

end Mprofile
end OsslScripts
