import Mathlib.Order.Defs.LinearOrder
import Mathlib.Data.List.Basic
import Mathlib.Data.List.Sort

namespace OsslScripts
namespace Foundation

/-!
# Search trees as ordered lists

A balanced search tree with a three-way comparison function is represented by
the list of its elements in order.  `find` and `insert` compare the way the
tree macros do: an element that compares equal is found, and refuses a second
insertion.  The comparison function need not be lawful for these to be defined.

Their laws hold when the comparison agrees with a key in a linear order on the
elements at hand (`Keyed`), which is all that a client has to show.
-/

/-- Three-way comparison of numbers, as C comparison functions spell it. -/
def threeWay (a b : Nat) : Int :=
  if a < b then -1 else if b < a then 1 else 0

theorem threeWay_neg_iff (a b : Nat) : threeWay a b < 0 ↔ a < b := by
  unfold threeWay
  split_ifs <;> simp_all

theorem threeWay_zero_iff (a b : Nat) : threeWay a b = 0 ↔ a = b := by
  unfold threeWay
  split_ifs <;> simp_all <;> omega

namespace OrderedTree

variable {α κ : Type}

/-- Search for an element to which the probe compares equal. -/
def find (probe : α -> Int) (tree : List α) : Option α :=
  tree.find? (fun x => decide (probe x = 0))

/-- Insert in order.  An equal element is returned, and the tree is unchanged. -/
def insert (cmp : α -> α -> Int) (x : α) : List α -> List α × Option α
  | [] => ([x], none)
  | y :: ys =>
      if cmp x y < 0 then (x :: y :: ys, none)
      else if cmp x y = 0 then (y :: ys, some y)
      else (y :: (insert cmp x ys).1, (insert cmp x ys).2)

/-- The comparison function orders these elements by a key. -/
def Keyed [LinearOrder κ] (cmp : α -> α -> Int) (key : α -> κ) (member : α -> Prop) : Prop :=
  forall x y, member x -> member y ->
    (cmp x y < 0 ↔ key x < key y) ∧ (cmp x y = 0 ↔ key x = key y)

/-- The elements stand in strictly increasing order of their keys. -/
def Sorted [LinearOrder κ] (key : α -> κ) (tree : List α) : Prop :=
  tree.Pairwise (fun x y => key x < key y)

variable [LinearOrder κ] {cmp : α -> α -> Int} {key : α -> κ} {tree : List α} {x : α}

theorem Sorted.injective (sorted : Sorted key tree) {a b : α} (memberA : a ∈ tree)
    (memberB : b ∈ tree) (same : key a = key b) : a = b := by
  induction tree with
  | nil => cases memberA
  | cons head tail inductionHypothesis =>
      have parts := List.pairwise_cons.mp sorted
      rcases List.mem_cons.mp memberA with rfl | inTailA
      · rcases List.mem_cons.mp memberB with rfl | inTailB
        · rfl
        · exact absurd same (ne_of_lt (parts.1 b inTailB))
      · rcases List.mem_cons.mp memberB with rfl | inTailB
        · exact absurd same.symm (ne_of_lt (parts.1 a inTailA))
        · exact inductionHypothesis parts.2 inTailA inTailB

theorem Sorted.nodup (sorted : Sorted key tree) : tree.Nodup :=
  sorted.imp (fun less => fun same => lt_irrefl _ (same ▸ less))

omit [LinearOrder κ] in
theorem find_some {probe : α -> Int} {y : α} (found : find probe tree = some y) :
    y ∈ tree ∧ probe y = 0 := by
  rw [find] at found
  have equal := List.find?_some found
  rw [decide_eq_true_eq] at equal
  exact ⟨List.mem_of_find?_eq_some found, equal⟩

/-- A search by key finds the element which has the key, and only that. -/
theorem find_eq_some_iff {probe : α -> Int} {k : κ}
    (probes : forall y, y ∈ tree -> (probe y = 0 ↔ key y = k)) (sorted : Sorted key tree) (y : α) :
    find probe tree = some y ↔ y ∈ tree ∧ key y = k := by
  constructor
  · intro found
    have parts := find_some found
    exact ⟨parts.1, (probes y parts.1).mp parts.2⟩
  · rintro ⟨member, keyed⟩
    have present : (find probe tree).isSome := by
      rw [find, List.find?_isSome]
      exact ⟨y, member, decide_eq_true ((probes y member).mpr keyed)⟩
    rcases Option.isSome_iff_exists.mp present with ⟨z, found⟩
    have parts := find_some found
    have equalZ := (probes z parts.1).mp parts.2
    rw [found, sorted.injective parts.1 member (equalZ.trans keyed.symm)]

omit [LinearOrder κ] in
/-- A search fails exactly when no element has the key. -/
theorem find_eq_none_iff {probe : α -> Int} {k : κ}
    (probes : forall y, y ∈ tree -> (probe y = 0 ↔ key y = k)) :
    find probe tree = none ↔ forall y, y ∈ tree -> key y ≠ k := by
  rw [find, List.find?_eq_none]
  constructor
  · intro absent y member keyed
    exact absent y member (decide_eq_true ((probes y member).mpr keyed))
  · intro absent y member equal
    exact absent y member ((probes y member).mp (of_decide_eq_true equal))

/-- Inserting an absent key adds the element and keeps the order. -/
theorem insert_fresh (keyed : forall y, y ∈ tree ->
      (cmp x y < 0 ↔ key x < key y) ∧ (cmp x y = 0 ↔ key x = key y))
    (fresh : forall y, y ∈ tree -> key y ≠ key x) :
    (insert cmp x tree).2 = none ∧ (insert cmp x tree).1.Perm (x :: tree) ∧
      (Sorted key tree -> Sorted key (insert cmp x tree).1) := by
  induction tree with
  | nil => exact ⟨rfl, List.Perm.refl _, fun _ => List.pairwise_singleton _ _⟩
  | cons y ys inductionHypothesis =>
      have here := keyed y List.mem_cons_self
      have different := fresh y List.mem_cons_self
      rcases inductionHypothesis (fun z member => keyed z (List.mem_cons_of_mem y member))
        (fun z member => fresh z (List.mem_cons_of_mem y member)) with ⟨absent, perm, sortedTail⟩
      rw [insert]
      by_cases less : cmp x y < 0
      · rw [if_pos less]
        refine ⟨rfl, List.Perm.refl _, fun sorted => List.pairwise_cons.mpr ⟨?_, sorted⟩⟩
        intro z member
        rcases List.mem_cons.mp member with rfl | inTail
        · exact here.1.mp less
        · exact lt_trans (here.1.mp less) ((List.pairwise_cons.mp sorted).1 z inTail)
      · rw [if_neg less, if_neg (fun equal => different (here.2.mp equal).symm)]
        refine ⟨absent, (perm.cons y).trans (List.Perm.swap x y ys), fun sorted => ?_⟩
        refine List.pairwise_cons.mpr ⟨fun z member => ?_,
          sortedTail (List.pairwise_cons.mp sorted).2⟩
        rcases List.mem_cons.mp (perm.mem_iff.mp member) with rfl | inTail
        · exact lt_of_le_of_ne (not_lt.mp (fun less' => less (here.1.mpr less'))) different
        · exact (List.pairwise_cons.mp sorted).1 z inTail

/-- Inserting a present key changes nothing and reports the element that has it. -/
theorem insert_found (keyed : forall y, y ∈ tree ->
      (cmp x y < 0 ↔ key x < key y) ∧ (cmp x y = 0 ↔ key x = key y))
    (sorted : Sorted key tree) {y : α} (member : y ∈ tree) (same : key y = key x) :
    insert cmp x tree = (tree, some y) := by
  induction tree with
  | nil => cases member
  | cons z zs inductionHypothesis =>
      have here := keyed z List.mem_cons_self
      have parts := List.pairwise_cons.mp sorted
      rw [insert]
      rcases List.mem_cons.mp member with rfl | inTail
      · rw [if_neg (fun less => ne_of_lt (here.1.mp less) same.symm), if_pos (here.2.mpr same.symm)]
      · have before : key z < key x := same ▸ parts.1 y inTail
        rw [if_neg (fun less => lt_asymm before (here.1.mp less)),
          if_neg (fun equal => ne_of_gt before (here.2.mp equal)),
          inductionHypothesis (fun w inZs => keyed w (List.mem_cons_of_mem z inZs)) parts.2 inTail]

/-- What an insertion reports tells whether it took place. -/
theorem insert_cases (keyed : forall y, y ∈ tree ->
      (cmp x y < 0 ↔ key x < key y) ∧ (cmp x y = 0 ↔ key x = key y)) (sorted : Sorted key tree) :
    ((forall y, y ∈ tree -> key y ≠ key x) ∧ (insert cmp x tree).2 = none) ∨
      Exists fun y => y ∈ tree ∧ key y = key x ∧ insert cmp x tree = (tree, some y) := by
  by_cases present : Exists fun y => y ∈ tree ∧ key y = key x
  · rcases present with ⟨y, member, same⟩
    exact Or.inr ⟨y, member, same, insert_found keyed sorted member same⟩
  · have fresh : forall y, y ∈ tree -> key y ≠ key x :=
      fun y member same => present ⟨y, member, same⟩
    exact Or.inl ⟨fresh, (insert_fresh keyed fresh).1⟩

/-- An insertion keeps the order, whether it takes place or not. -/
theorem Sorted.insert (keyed : forall y, y ∈ tree ->
      (cmp x y < 0 ↔ key x < key y) ∧ (cmp x y = 0 ↔ key x = key y)) (sorted : Sorted key tree) :
    Sorted key (OrderedTree.insert cmp x tree).1 := by
  rcases insert_cases keyed sorted with ⟨fresh, -⟩ | ⟨y, -, -, found⟩
  · exact (insert_fresh keyed fresh).2.2 sorted
  · rw [found]
    exact sorted

omit [LinearOrder κ] in
theorem insert_accepted (accepted : (insert cmp x tree).2 = none) :
    insert cmp x tree = ((insert cmp x tree).1, none) :=
  Prod.ext rfl accepted

theorem Sorted.erase [DecidableEq α] (sorted : Sorted key tree) (x : α) :
    Sorted key (tree.erase x) :=
  sorted.sublist List.erase_sublist

/-- Putting an element back where it was taken out restores the tree. -/
theorem insert_erase [DecidableEq α] (keyed : forall y, y ∈ tree ->
      (cmp x y < 0 ↔ key x < key y) ∧ (cmp x y = 0 ↔ key x = key y))
    (sorted : Sorted key tree) (member : x ∈ tree) :
    insert cmp x (tree.erase x) = (tree, none) := by
  induction tree with
  | nil => cases member
  | cons y ys inductionHypothesis =>
      have parts := List.pairwise_cons.mp sorted
      by_cases here : y = x
      · subst here
        rw [List.erase_cons_head]
        cases ys with
        | nil => rfl
        | cons z zs =>
            have less := (keyed z (List.mem_cons_of_mem y List.mem_cons_self)).1.mpr
              (parts.1 z List.mem_cons_self)
            rw [insert, if_pos less]
      · have inTail : x ∈ ys := (List.mem_cons.mp member).resolve_left (fun same => here same.symm)
        have order := keyed y List.mem_cons_self
        have before := parts.1 x inTail
        rw [List.erase_cons_tail (by simpa using here), insert,
          if_neg (fun less => lt_asymm before (order.1.mp less)),
          if_neg (fun equal => ne_of_gt before (order.2.mp equal)),
          inductionHypothesis (fun z inYs => keyed z (List.mem_cons_of_mem y inYs)) parts.2 inTail]

omit [LinearOrder κ] in
/-- Nothing is lost by an insertion, lawful or not. -/
theorem subset_insert (cmp : α -> α -> Int) (x : α) (tree : List α) :
    tree ⊆ (insert cmp x tree).1 := by
  induction tree with
  | nil => exact List.nil_subset _
  | cons y ys inductionHypothesis =>
      rw [insert]
      split_ifs
      · exact List.subset_cons_self _ _
      · exact List.Subset.refl _
      · exact List.cons_subset_cons _ inductionHypothesis

omit [LinearOrder κ] in
/-- Nothing comes in but the new element. -/
theorem mem_insert {y : α} (member : y ∈ (insert cmp x tree).1) : y = x ∨ y ∈ tree := by
  induction tree with
  | nil => exact Or.inl (List.mem_singleton.mp member)
  | cons z zs inductionHypothesis =>
      rw [insert] at member
      split_ifs at member
      · exact List.mem_cons.mp member
      · exact Or.inr member
      · rcases List.mem_cons.mp member with rfl | inTail
        · exact Or.inr List.mem_cons_self
        · exact (inductionHypothesis inTail).imp_right (List.mem_cons_of_mem z)

omit [LinearOrder κ] in
theorem mem_insert_of_accepted (accepted : (insert cmp x tree).2 = none) :
    x ∈ (insert cmp x tree).1 := by
  induction tree with
  | nil => exact List.mem_cons_self
  | cons y ys inductionHypothesis =>
      rw [insert] at accepted ⊢
      split_ifs at accepted ⊢
      · exact List.mem_cons_self
      · exact List.mem_cons_of_mem y (inductionHypothesis accepted)

omit [LinearOrder κ] in
theorem perm_insert_of_accepted (accepted : (insert cmp x tree).2 = none) :
    (insert cmp x tree).1.Perm (x :: tree) := by
  induction tree with
  | nil => exact List.Perm.refl _
  | cons y ys inductionHypothesis =>
      rw [insert] at accepted ⊢
      split_ifs at accepted ⊢
      · exact List.Perm.refl _
      · exact ((inductionHypothesis accepted).cons y).trans (List.Perm.swap x y ys)

omit [LinearOrder κ] in
/-- What refuses an element is in the tree, which stays as it is. -/
theorem insert_refused {y : α} (refused : (insert cmp x tree).2 = some y) :
    y ∈ tree ∧ (insert cmp x tree).1 = tree := by
  induction tree with
  | nil => cases refused
  | cons z zs inductionHypothesis =>
      rw [insert] at refused ⊢
      split_ifs at refused ⊢
      · cases refused
        exact ⟨List.mem_cons_self, rfl⟩
      · have inTail := inductionHypothesis refused
        exact ⟨List.mem_cons_of_mem z inTail.1, congrArg (List.cons z) inTail.2⟩

/-! ## Trees of handles -/

section Handles

omit [LinearOrder κ]

variable {β : Type} {f : α -> β}

/-- A search among handles finds the handle of what the search finds. -/
theorem find_map {probe : β -> Int} {probe' : α -> Int}
    (same : forall y, y ∈ tree -> probe (f y) = probe' y) :
    find probe (tree.map f) = (find probe' tree).map f := by
  induction tree with
  | nil => rfl
  | cons y ys inductionHypothesis =>
      have onward := inductionHypothesis (fun z member => same z (List.mem_cons_of_mem y member))
      rw [find] at onward ⊢
      rw [find] at onward ⊢
      rw [List.map_cons, List.find?_cons, List.find?_cons, same y List.mem_cons_self]
      cases decide (probe' y = 0) with
      | true => rfl
      | false => exact onward

/-- An insertion among handles inserts the handle. -/
theorem insert_map {cmp' : β -> β -> Int}
    (same : forall y, y ∈ tree -> cmp' (f x) (f y) = cmp x y) :
    insert cmp' (f x) (tree.map f) =
      ((insert cmp x tree).1.map f, (insert cmp x tree).2.map f) := by
  induction tree with
  | nil => rfl
  | cons y ys inductionHypothesis =>
      have onward := inductionHypothesis (fun z member => same z (List.mem_cons_of_mem y member))
      rw [List.map_cons, insert, insert, same y List.mem_cons_self]
      split_ifs
      · rfl
      · rfl
      · rw [onward]
        rfl

theorem map_erase_of_injective [DecidableEq α] [DecidableEq β]
    (injective : forall y, y ∈ tree -> f y = f x -> y = x) :
    (tree.map f).erase (f x) = (tree.erase x).map f := by
  induction tree with
  | nil => rfl
  | cons y ys inductionHypothesis =>
      have onward :=
        inductionHypothesis (fun z member => injective z (List.mem_cons_of_mem y member))
      by_cases here : y = x
      · subst here
        rw [List.map_cons, List.erase_cons_head, List.erase_cons_head]
      · have apart : f y ≠ f x := fun equal => here (injective y List.mem_cons_self equal)
        rw [List.map_cons, List.erase_cons_tail (by simpa using apart),
          List.erase_cons_tail (by simpa using here), onward]
        rfl

end Handles

end OrderedTree
end Foundation
end OsslScripts
