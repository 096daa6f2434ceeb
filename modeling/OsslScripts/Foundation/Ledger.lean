import Mathlib.Algebra.BigOperators.Group.Finset.Basic
import Mathlib.Algebra.Order.BigOperators.Group.Finset

namespace OsslScripts
namespace Foundation

/-!
# Sums over a changing family

A family of entries, indexed by an arbitrary type, has a total if all but
finitely many entries are worth nothing.  The family is changed at one index
at a time, and the total changes by what the entry there gains.
-/

variable {ι β M : Type}

/-- All entries of the family together are worth this much. -/
def Totals [AddCommMonoid M] (value : β -> M) (entries : ι -> β) (total : M) : Prop :=
  Exists fun support : Finset ι =>
    (forall i, i ∉ support -> value (entries i) = 0) ∧
      total = support.sum (fun i => value (entries i))

section Totals

variable {value : β -> M} {entries : ι -> β} {total : M}

theorem Totals.zero [AddCommMonoid M] (worthless : forall i, value (entries i) = 0) :
    Totals value entries 0 :=
  ⟨∅, fun i _ => worthless i, rfl⟩

/-- The sum may be taken over any larger support. -/
theorem Totals.over [AddCommMonoid M] [DecidableEq ι] (totals : Totals value entries total)
    (more : Finset ι) : Exists fun support : Finset ι => more ⊆ support ∧
      (forall i, i ∉ support -> value (entries i) = 0) ∧
        total = support.sum (fun i => value (entries i)) := by
  rcases totals with ⟨support, outside, rfl⟩
  refine ⟨support ∪ more, Finset.subset_union_right, fun i absent => ?_, ?_⟩
  · exact outside i (fun member => absent (Finset.mem_union_left more member))
  · exact Finset.sum_subset Finset.subset_union_left (fun i _ absent => outside i absent)

/-- Replacing one entry. -/
theorem Totals.update [AddCommGroup M] [DecidableEq ι] (totals : Totals value entries total)
    (i : ι) (entry : β) :
    Totals value (Function.update entries i entry) (total - value (entries i) + value entry) := by
  rcases totals.over {i} with ⟨support, member, outside, rfl⟩
  rw [Finset.singleton_subset_iff] at member
  refine ⟨support, fun j absent => ?_, ?_⟩
  · have different : j ≠ i := fun same => absent (same ▸ member)
    rw [Function.update_of_ne different]
    exact outside j absent
  · rw [← Finset.add_sum_erase support _ member, ← Finset.add_sum_erase support _ member,
      Function.update_self, add_sub_cancel_left, add_comm]
    refine congrArg (value entry + ·) (Finset.sum_congr rfl (fun j inside => ?_))
    rw [Function.update_of_ne (Finset.ne_of_mem_erase inside)]

/-- A family of worthless entries totals nothing. -/
theorem Totals.eq_zero [AddCommMonoid M] (totals : Totals value entries total)
    (worthless : forall i, value (entries i) = 0) : total = 0 := by
  rcases totals with ⟨support, -, rfl⟩
  exact Finset.sum_eq_zero (fun i _ => worthless i)

/-- Reading the total off through a homomorphism. -/
theorem Totals.map {N : Type} [AddCommMonoid M] [AddCommMonoid N] (f : M →+ N)
    (totals : Totals value entries total) :
    Totals (fun entry => f (value entry)) entries (f total) := by
  rcases totals with ⟨support, outside, rfl⟩
  refine ⟨support, fun i absent => ?_, map_sum f _ _⟩
  change f (value (entries i)) = 0
  rw [outside i absent, map_zero]

theorem Totals.nonneg [AddCommMonoid M] [PartialOrder M] [IsOrderedAddMonoid M]
    (totals : Totals value entries total) (positive : forall i, 0 ≤ value (entries i)) :
    0 ≤ total := by
  rcases totals with ⟨support, -, rfl⟩
  exact Finset.sum_nonneg (fun i _ => positive i)

end Totals

end Foundation
end OsslScripts
