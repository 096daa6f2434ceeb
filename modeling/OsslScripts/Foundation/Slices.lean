import Mathlib.Data.List.Basic
import Mathlib.Data.Nat.Basic

namespace OsslScripts
namespace Foundation

/-!
# Consecutive slices of a list

The pieces `l[i : i + width]` for `i` in `range (0, len (l), width)`.  They cut
the positions of the list into intervals of one width, the last of which may be
shorter.
-/

variable {α : Type}

/-- `range (0, stop, step)` -/
def pyRange (stop step : Nat) : List Nat :=
  (List.range ((stop + step - 1) / step)).map (fun k => k * step)

/-- `l[i : j]` -/
def pySlice (l : List α) (i j : Nat) : List α := (l.drop i).take (j - i)

/-- The slices of a list, in order. -/
def slices (width : Nat) (l : List α) : List (List α) :=
  (pyRange l.length width).map (fun i => pySlice l i (i + width))

/-- Position `i` of the list is in slice `k`. -/
def InSlice (width k i : Nat) : Prop := k * width ≤ i ∧ i < (k + 1) * width

theorem inSlice_iff {width k i : Nat} (positive : 0 < width) :
    InSlice width k i ↔ i / width = k := by
  rw [InSlice, Nat.div_eq_iff positive, Nat.add_mul, Nat.one_mul]
  omega

@[simp] theorem length_slices (width : Nat) (l : List α) :
    (slices width l).length = (l.length + width - 1) / width := by
  rw [slices, pyRange, List.length_map, List.length_map, List.length_range]

/-- There are more than `k` slices if the list goes on after `k` whole ones. -/
theorem lt_length_slices {width k : Nat} (positive : 0 < width) (l : List α) :
    k < (slices width l).length ↔ k * width < l.length := by
  rw [length_slices, ← Nat.succ_le_iff, Nat.le_div_iff_mul_le positive, Nat.succ_mul]
  omega

/-- A bound on the number of slices is a bound on the length. -/
theorem length_slices_le {width n : Nat} (positive : 0 < width) (l : List α) :
    (slices width l).length ≤ n ↔ l.length ≤ n * width := by
  rw [← Nat.not_lt, lt_length_slices positive, Nat.not_lt]

theorem getElem?_slices {width k : Nat} {l : List α} (inside : k < (slices width l).length) :
    (slices width l)[k]? = some ((l.drop (k * width)).take width) := by
  rw [length_slices] at inside
  rw [slices, pyRange, List.getElem?_map, List.getElem?_map, List.getElem?_range inside]
  simp only [Option.map_some, pySlice, Nat.add_sub_cancel_left]

/-- What stands in a slice stands in the list, at a position of that slice. -/
theorem getElem?_slice {width k j : Nat} (l : List α) (within : j < width) :
    ((l.drop (k * width)).take width)[j]? = l[k * width + j]? := by
  rw [List.getElem?_take_of_lt within, List.getElem?_drop]

theorem inSlice_add {width k j : Nat} (within : j < width) : InSlice width k (k * width + j) := by
  refine ⟨Nat.le_add_right _ _, ?_⟩
  rw [Nat.add_mul, Nat.one_mul]
  omega

/-- Every position is in exactly one slice. -/
theorem existsUnique_slice {width i : Nat} (positive : 0 < width) {l : List α}
    (inside : i < l.length) :
    ExistsUnique fun k => k < (slices width l).length ∧ InSlice width k i := by
  refine ⟨i / width, ⟨?_, (inSlice_iff positive).mpr rfl⟩, fun k holds => ?_⟩
  · apply (lt_length_slices positive l).mpr
    exact Nat.lt_of_le_of_lt (Nat.div_mul_le_self i width) inside
  · exact ((inSlice_iff positive).mp holds.2).symm

/-- Positions of an earlier slice come before those of a later one. -/
theorem InSlice.lt {width j k i i' : Nat} (first : InSlice width j i) (second : InSlice width k i')
    (order : j < k) : i < i' := by
  have apart : (j + 1) * width ≤ k * width := Nat.mul_le_mul_right width order
  exact Nat.lt_of_lt_of_le first.2 (Nat.le_trans apart second.1)

/-- No slice is empty. -/
theorem slice_ne_nil {width : Nat} (positive : 0 < width) {l slice : List α}
    (member : slice ∈ slices width l) : slice ≠ [] := by
  rcases List.mem_iff_getElem?.mp member with ⟨k, atK⟩
  have inside : k < (slices width l).length := (List.getElem?_eq_some_iff.mp atK).1
  have starts := (lt_length_slices positive l).mp inside
  rw [getElem?_slices inside] at atK
  cases atK
  apply List.ne_nil_of_length_pos
  rw [List.length_take, List.length_drop]
  omega

end Foundation
end OsslScripts
