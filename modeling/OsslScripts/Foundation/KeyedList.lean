import Mathlib.Algebra.BigOperators.Group.List.Basic
import Mathlib.Data.List.Nodup

namespace OsslScripts
namespace Foundation

/-!
# Lists whose elements have keys

In a list in which no key occurs twice, an element is found by its key.  Taking
it out, or changing it, leaves what is before it and what is after it alone.
-/

section Keyed

variable {α κ : Type} [DecidableEq κ] {key : α -> κ} {l : List α} {a b : α}

/-- One of the elements, and what is left of the list when it goes or changes. -/
theorem split_of_key (apart : (l.map key).Nodup) (member : a ∈ l) :
    Exists fun before => Exists fun after => l = before ++ a :: after ∧
      l.filter (fun b => key b ≠ key a) = before ++ after ∧
      forall change : α -> α,
        l.map (fun b => if key b = key a then change b else b) = before ++ change a :: after := by
  rcases List.append_of_mem member with ⟨before, after, rfl⟩
  rw [List.map_append, List.map_cons, List.nodup_middle, List.nodup_cons,
    ← List.map_append] at apart
  have others : forall b, b ∈ before ++ after -> key b ≠ key a :=
    fun b present same => apart.1 (same ▸ List.mem_map_of_mem present)
  have unfiltered : forall part : List α, (forall b, b ∈ part -> b ∈ before ++ after) ->
      part.filter (fun b => key b ≠ key a) = part := fun part inside =>
    List.filter_eq_self.mpr (fun b present => decide_eq_true (others b (inside b present)))
  have unchanged : forall (change : α -> α) (part : List α),
      (forall b, b ∈ part -> b ∈ before ++ after) ->
      part.map (fun b => if key b = key a then change b else b) = part := fun change part inside =>
    (List.map_congr_left (fun b present => if_neg (others b (inside b present)))).trans
    (List.map_id part)
  refine ⟨before, after, rfl, ?_, fun change => ?_⟩
  · rw [List.filter_append, List.filter_cons, if_neg (by simp),
      unfiltered before (fun b present => List.mem_append_left _ present),
      unfiltered after (fun b present => List.mem_append_right _ present)]
  · rw [List.map_append, List.map_cons, if_pos rfl,
      unchanged change before (fun b present => List.mem_append_left _ present),
      unchanged change after (fun b present => List.mem_append_right _ present)]

/-- An element that changes gets a key that no other element has. -/
theorem elsewhere_of_key (apart : (l.map key).Nodup) (member : a ∈ l) {change : α -> α}
    (apartAfter : ((l.map (fun b => if key b = key a then change b else b)).map key).Nodup) :
    forall b, b ∈ l -> key b ≠ key a -> key b ≠ key (change a) := by
  rcases split_of_key apart member with ⟨before, after, whole, -, changed⟩
  rw [changed change, List.map_append, List.map_cons, List.nodup_middle, List.nodup_cons,
    ← List.map_append] at apartAfter
  intro b present different same
  apply apartAfter.1
  rw [← same]
  apply List.mem_map_of_mem
  rw [whole, List.mem_append, List.mem_cons] at present
  rcases present with isBefore | rfl | isAfter
  · exact List.mem_append_left _ isBefore
  · exact absurd rfl different
  · exact List.mem_append_right _ isAfter

/-- The element that is found is the one with the key. -/
theorem find_key (key : α -> κ) {k : κ} (found : l.find? (fun b => key b = k) = some a) :
    a ∈ l ∧ key a = k :=
  ⟨List.mem_of_find?_eq_some found, by simpa using List.find?_some found⟩

/-- What the elements are worth without one of them, and when one of them changes. -/
theorem sum_of_key {M : Type} [AddCommMonoid M] (worth : α -> M) (apart : (l.map key).Nodup)
    (member : a ∈ l) :
    (l.map worth).sum = worth a + ((l.filter (fun b => key b ≠ key a)).map worth).sum ∧
      forall change : α -> α,
        ((l.map (fun b => if key b = key a then change b else b)).map worth).sum =
          worth (change a) + ((l.filter (fun b => key b ≠ key a)).map worth).sum := by
  rcases split_of_key apart member with ⟨before, after, whole, rest, changed⟩
  constructor
  · rw [rest, whole]
    simp only [List.map_append, List.map_cons, List.sum_append, List.sum_cons]
    rw [add_left_comm]
  · intro change
    rw [changed, rest]
    simp only [List.map_append, List.map_cons, List.sum_append, List.sum_cons]
    rw [add_left_comm]

end Keyed

end Foundation
end OsslScripts
