import OsslScripts.Foundation.Transition
import OsslScripts.Utils.RbInsert
import OsslScripts.Utils.RbRemove

namespace OsslScripts
namespace Utils

open Foundation
open Foundation.ColorTree

/-!
# Trees as ordered lists

A store of links with many heads stands for one ordered list for each head.  The
functions of the macros do on the links what the operations on ordered lists do,
in any order and on any of the trees, as long as an element is inserted where it is
not linked already, and removed where it is.
-/

/-- The elements below each head, in order. -/
abbrev Forest := Nat -> List Nat

/-- The links are those of red-black trees with these elements. -/
structure RbHeap.Plants (heap : RbHeap) (forest : Forest) : Prop where
  shows : forall head, Exists fun t => heap.Shows head t ∧ RedBlack t ∧ t.elems = forest head
  apart : forall head other x, x ∈ forest head -> x ∈ forest other -> head = other

/-- There is fuel for a tree of this size. -/
def Fuelled (fuel : Nat) (elems : List Nat) : Prop := 2 * Nat.log 2 (elems.length + 1) < fuel

instance (fuel : Nat) (elems : List Nat) : Decidable (Fuelled fuel elems) :=
  inferInstanceAs (Decidable (_ < fuel))

section Forests

variable {heap heap' : RbHeap} {forest : Forest} {head elm fuel : Nat} {cmp : Nat -> Nat -> Int}
  {probe : Nat -> Int}

theorem RbHeap.Shows.same {t : ColorTree Nat} (shows : heap.Shows head t)
    (root : heap'.rbhRoot head = heap.rbhRoot head)
    (same : forall x, x ∈ t.elems -> heap'.entry x = heap.entry x) : heap'.Shows head t :=
  ⟨root.trans shows.root, shows.owns.same same, shows.distinct, shows.proper⟩

/-- One tree has changed, within elements that no other tree has. -/
theorem RbHeap.Plants.update (plants : heap.Plants forest) {t : ColorTree Nat} {elems : List Nat}
    (shows : heap'.Shows head t) (redBlack : RedBlack t) (within : heap.Within heap' head elems)
    (own : forall x, x ∈ elems -> forall other, x ∈ forest other -> other = head)
    (subset : t.elems ⊆ elems) : heap'.Plants (Function.update forest head t.elems) := by
  refine ⟨fun other => ?_, fun first second x inFirst inSecond => ?_⟩
  · by_cases here : other = head
    · subst here
      exact ⟨t, shows, redBlack, by rw [Function.update_self]⟩
    · rcases plants.shows other with ⟨u, showsU, redBlackU, same⟩
      refine ⟨u, showsU.same (within.rbhRoot other here)
        (fun x member => within.entry x (fun inElems => here ?_)),
        redBlackU, ?_⟩
      · exact own x inElems other (same ▸ member)
      · rw [Function.update_of_ne here, same]
  · by_cases isFirst : first = head
    · by_cases isSecond : second = head
      · rw [isFirst, isSecond]
      · rw [isFirst, Function.update_self] at inFirst
        rw [Function.update_of_ne isSecond] at inSecond
        exact absurd (own x (subset inFirst) second inSecond) isSecond
    · rw [Function.update_of_ne isFirst] at inFirst
      by_cases isSecond : second = head
      · rw [isSecond, Function.update_self] at inSecond
        exact absurd (own x (subset inSecond) first inFirst) isFirst
      · rw [Function.update_of_ne isSecond] at inSecond
        exact plants.apart first second x inFirst inSecond

/-- All heads are empty. -/
theorem plants_empty (entry : Nat -> RbEntry) : RbHeap.Plants ⟨entry, fun _ => 0⟩ (fun _ => []) :=
  ⟨fun _ => ⟨.leaf, ⟨rfl, trivial, List.nodup_nil, List.not_mem_nil⟩, ⟨trivial, 0, rfl⟩, rfl⟩,
    fun _ _ _ impossible => by cases impossible⟩

theorem RbHeap.Plants.rbInit (plants : heap.Plants forest) (head : Nat) : Exists fun heap' =>
    Runs (rbInit head) heap () heap' ∧ heap'.Plants (Function.update forest head []) := by
  refine ⟨_, runs_setRbRoot head 0, ?_⟩
  have shows : (heap.setRoot head 0).Shows head .leaf :=
    ⟨rbhRoot_setRoot_self head, trivial, List.nodup_nil, List.not_mem_nil⟩
  exact plants.update shows ⟨trivial, 0, rfl⟩
    ⟨fun _ _ => rfl, fun other different => rbhRoot_setRoot_ne different⟩
    (fun x impossible => by cases impossible) (List.Subset.refl _)

theorem RbHeap.Plants.rbEmpty (plants : heap.Plants forest) (head : Nat) :
    Runs (rbEmpty head) heap (forest head).isEmpty heap := by
  rcases plants.shows head with ⟨t, shows, -, same⟩
  have read := runs_map (fun root => decide (root = 0)) (@runs_rbRoot heap head)
  have answer : decide (heap.rbhRoot head = 0) = (forest head).isEmpty := by
    rw [shows.root, ← same]
    cases t with
    | leaf => rfl
    | node c l x r =>
        have nonzero : top (.node c l x r) ≠ 0 :=
          fun zero => shows.proper (zero ▸ top_mem (branch_ne_leaf .left c l x r))
        rw [decide_eq_false nonzero, elems]
        cases l.elems <;> rfl
  rwa [answer] at read

theorem RbHeap.Plants.rbInsert (plants : heap.Plants forest) (cuts : Cuts (cmp elm) (forest head))
    (nonzero : elm ≠ 0) (fresh : forall other, elm ∈ forest other -> other = head ∧ cmp elm elm = 0)
    (fuelled : Fuelled fuel (forest head)) : Exists fun heap' =>
      Runs (rbInsert fuel cmp head elm) heap
        ((OrderedTree.insert cmp elm (forest head)).2.getD 0) heap' ∧
        heap'.Plants (Function.update forest head
          (OrderedTree.insert cmp elm (forest head)).1) := by
  rcases plants.shows head with ⟨t, shows, redBlack, same⟩
  rw [← same] at cuts fuelled ⊢
  rcases runs_rbInsert shows redBlack cuts nonzero (fun member => (fresh head (same ▸ member)).2)
      fuelled with
    ⟨heap', t', ran, shows', redBlack', order, within⟩
  refine ⟨heap', ran, ?_⟩
  rw [← order]
  refine plants.update shows' redBlack' within (fun x member other inOther => ?_)
    (fun x member => ?_)
  · rcases List.mem_cons.mp member with rfl | inTree
    · exact (fresh other inOther).1
    · exact plants.apart other head x inOther (same ▸ inTree)
  · rw [order] at member
    rcases OrderedTree.mem_insert member with rfl | inTree
    · exact List.mem_cons_self
    · exact List.mem_cons_of_mem _ inTree

theorem RbHeap.Plants.rbRemove (plants : heap.Plants forest) (member : elm ∈ forest head)
    (fuelled : Fuelled fuel (forest head)) : Exists fun heap' =>
      Runs (rbRemove fuel head elm) heap elm heap' ∧
      heap'.Plants (Function.update forest head ((forest head).erase elm)) := by
  rcases plants.shows head with ⟨t, shows, redBlack, same⟩
  rw [← same] at member fuelled ⊢
  rcases runs_rbRemove shows redBlack member fuelled with
    ⟨heap', t', ran, shows', redBlack', order, within⟩
  refine ⟨heap', ran, ?_⟩
  rw [← order]
  refine plants.update shows' redBlack' within (fun x member other inOther => ?_) ?_
  · exact plants.apart other head x inOther (same ▸ member)
  · rw [order]
    exact List.erase_subset

theorem RbHeap.Plants.rbFind (plants : heap.Plants forest) (cuts : Cuts probe (forest head))
    (fuelled : Fuelled fuel (forest head)) :
    Runs (rbFind fuel probe head) heap ((OrderedTree.find probe (forest head)).getD 0) heap := by
  rcases plants.shows head with ⟨t, shows, redBlack, same⟩
  rw [← same] at cuts fuelled ⊢
  exact runs_rbFind shows redBlack cuts fuelled

theorem RbHeap.Plants.rbNfind (plants : heap.Plants forest) (cuts : Cuts probe (forest head))
    (fuelled : Fuelled fuel (forest head)) : Runs (rbNfind fuel probe head) heap
      (((forest head).find? (fun z => decide (probe z ≤ 0))).getD 0) heap := by
  rcases plants.shows head with ⟨t, shows, redBlack, same⟩
  rw [← same] at cuts fuelled ⊢
  exact runs_rbNfind shows redBlack cuts fuelled

theorem RbHeap.Plants.rbMinmax (plants : heap.Plants forest) (val : Int)
    (fuelled : Fuelled fuel (forest head)) :
    Runs (rbMinmax fuel head val) heap
      ((endOf (if val < 0 then .left else .right) (forest head)).getD 0) heap := by
  rcases plants.shows head with ⟨t, shows, redBlack, same⟩
  rw [← same] at fuelled ⊢
  exact runs_rbMinmax val shows redBlack fuelled

theorem RbHeap.Plants.rbStep (plants : heap.Plants forest) (s : Side) {pre post : List Nat}
    (order : forest head = pre ++ elm :: post) (fuelled : Fuelled fuel (forest head)) :
    Runs (rbStep s fuel elm) heap ((neighbour s pre post).getD 0) heap := by
  rcases plants.shows head with ⟨t, shows, redBlack, same⟩
  rw [← same] at order fuelled
  exact runs_rbStep s shows redBlack order fuelled

end Forests

/-! ## Runs -/

/-- A use of the macros. -/
inductive TreeOp where
  | rbInit (head : Nat)
  | rbEmpty (head : Nat)
  | rbInsert (cmp : Nat -> Nat -> Int) (head elm : Nat)
  | rbRemove (head elm : Nat)
  | rbFind (probe : Nat -> Int) (head : Nat)
  | rbNfind (probe : Nat -> Int) (head : Nat)
  | rbMinmax (head : Nat) (val : Int)
  | rbStep (s : Side) (head elm : Nat)

/-- The element before or after this one. -/
def beyond (s : Side) (elm : Nat) (elems : List Nat) : Option Nat :=
  match s with
  | .left => (elems.takeWhile (fun x => x ≠ elm)).getLast?
  | .right => (elems.dropWhile (fun x => x ≠ elm)).tail.head?

namespace TreeOp

def perform (fuel : Nat) : TreeOp -> RbM Nat
  | rbInit head => (fun _ => 0) <$> Utils.rbInit head
  | rbEmpty head => Bool.toNat <$> Utils.rbEmpty head
  | rbInsert cmp head elm => Utils.rbInsert fuel cmp head elm
  | rbRemove head elm => Utils.rbRemove fuel head elm
  | rbFind probe head => Utils.rbFind fuel probe head
  | rbNfind probe head => Utils.rbNfind fuel probe head
  | rbMinmax head val => Utils.rbMinmax fuel head val
  | rbStep s _ elm => Utils.rbStep s fuel elm

/-- What the operation returns, on ordered lists. -/
def answer (forest : Forest) : TreeOp -> Nat
  | rbInit _ => 0
  | rbEmpty head => (forest head).isEmpty.toNat
  | rbInsert cmp head elm => (OrderedTree.insert cmp elm (forest head)).2.getD 0
  | rbRemove _ elm => elm
  | rbFind probe head => (OrderedTree.find probe (forest head)).getD 0
  | rbNfind probe head => ((forest head).find? (fun z => decide (probe z ≤ 0))).getD 0
  | rbMinmax head val => (endOf (if val < 0 then .left else .right) (forest head)).getD 0
  | rbStep s head elm => (beyond s elm (forest head)).getD 0

/-- What the operation leaves, on ordered lists. -/
def after (forest : Forest) : TreeOp -> Forest
  | rbInit head => Function.update forest head []
  | rbInsert cmp head elm =>
    Function.update forest head (OrderedTree.insert cmp elm (forest head)).1
  | rbRemove head elm => Function.update forest head ((forest head).erase elm)
  | _ => forest

/-- The comparison agrees with the order of the tree, an element is inserted where it is not
linked already, and a linked element is removed. -/
def Fits (fuel : Nat) (forest : Forest) : TreeOp -> Prop
  | rbInit _ => True
  | rbEmpty _ => True
  | rbInsert cmp head elm => Fuelled fuel (forest head) ∧ Cuts (cmp elm) (forest head) ∧ elm ≠ 0 ∧
      forall other, elm ∈ forest other -> other = head ∧ cmp elm elm = 0
  | rbRemove head elm => Fuelled fuel (forest head) ∧ elm ∈ forest head
  | rbFind probe head => Fuelled fuel (forest head) ∧ Cuts probe (forest head)
  | rbNfind probe head => Fuelled fuel (forest head) ∧ Cuts probe (forest head)
  | rbMinmax head _ => Fuelled fuel (forest head)
  | rbStep _ head elm => Fuelled fuel (forest head) ∧ elm ∈ forest head

end TreeOp

/-- The links, and what the operations have returned. -/
def treeNext (fuel : Nat) (s : RbHeap × List Nat) (op : TreeOp) :
    Except RbStop (RbHeap × List Nat) :=
  (op.perform fuel s.1).map (fun both => (both.2, s.2 ++ [both.1]))

/-- The ordered lists, and what the operations have returned. -/
def listNext (s : Forest × List Nat) (op : TreeOp) : Except RbStop (Forest × List Nat) :=
  .ok (op.after s.1, s.2 ++ [op.answer s.1])

section Refinement

variable {heap : RbHeap} {forest : Forest} {fuel : Nat}

theorem beyond_split (s : Side) {elm : Nat} {pre post : List Nat}
    (distinct : (pre ++ elm :: post).Nodup) :
    beyond s elm (pre ++ elm :: post) = neighbour s pre post := by
  have before : forall x, x ∈ pre -> decide (x ≠ elm) = true := fun x member =>
    decide_eq_true ((List.nodup_append.mp distinct).2.2 x member elm List.mem_cons_self)
  cases s with
  | left =>
      change (List.takeWhile _ _).getLast? = pre.getLast?
      rw [List.takeWhile_append_of_pos before, List.takeWhile_cons_of_neg (by simp),
        List.append_nil]
  | right =>
      change (List.dropWhile _ _).tail.head? = post.head?
      rw [List.dropWhile_append_of_pos before, List.dropWhile_cons_of_neg (by simp), List.tail_cons]

/-- One operation on the links does what it does on the lists. -/
theorem RbHeap.Plants.perform (plants : heap.Plants forest) (op : TreeOp)
    (fits : op.Fits fuel forest) :
    Exists fun heap' => Runs (op.perform fuel) heap (op.answer forest) heap' ∧
      heap'.Plants (op.after forest) := by
  cases op with
  | rbInit head =>
      rcases plants.rbInit head with ⟨heap', ran, plants'⟩
      exact ⟨heap', runs_map _ ran, plants'⟩
  | rbEmpty head => exact ⟨heap, runs_map _ (plants.rbEmpty head), plants⟩
  | rbInsert cmp head elm => exact plants.rbInsert fits.2.1 fits.2.2.1 fits.2.2.2 fits.1
  | rbRemove head elm => exact plants.rbRemove fits.2 fits.1
  | rbFind probe head => exact ⟨heap, plants.rbFind fits.2 fits.1, plants⟩
  | rbNfind probe head => exact ⟨heap, plants.rbNfind fits.2 fits.1, plants⟩
  | rbMinmax head val => exact ⟨heap, plants.rbMinmax val fits, plants⟩
  | rbStep s head elm =>
      rcases List.append_of_mem fits.2 with ⟨pre, post, order⟩
      rcases plants.shows head with ⟨t, shows, -, same⟩
      have distinct : (pre ++ elm :: post).Nodup := by
        rw [← order, ← same]
        exact shows.distinct
      have step := plants.rbStep s order fits.1
      rw [← beyond_split s distinct, ← order] at step
      exact ⟨heap, step, plants⟩

/-- Any run of the macros on the links returns what it returns on ordered lists, and leaves
red-black trees of these lists. -/
theorem treeNext_refines (plants : heap.Plants forest) {ops : List TreeOp} {forest' : Forest}
    {answers : List Nat}
    (fits : Meets listNext (fun s op => op.Fits fuel s.1) (forest, []) ops)
    (listed : exec listNext (forest, []) ops = .ok (forest', answers)) :
    Exists fun heap' => exec (treeNext fuel) (heap, []) ops = .ok (heap', answers) ∧
      heap'.Plants forest' := by
  have simulated := @exec_simulates _ _ _ _ _ _ _ (treeNext fuel) id
    (fun s t ls => t.1.Plants s.1 ∧ t.2 = s.2 ∧ Meets listNext (fun s op => op.Fits fuel s.1) s ls)
    ?_ _ _ (heap, []) _ ⟨plants, rfl, fits⟩ listed
  · rcases simulated with ⟨⟨heap', answers'⟩, executed, plants', same, -⟩
    rw [List.map_id] at executed
    cases same
    exact ⟨heap', executed, plants'⟩
  · rintro ⟨forest, answers⟩ ⟨heap, answers'⟩ op ops s' ⟨plants, same, fits⟩ stepped
    cases same
    rcases plants.perform op fits.1 with ⟨heap', ran, plants'⟩
    refine ⟨(heap', answers ++ [op.answer forest]), ?_, ?_⟩
    · rw [id, treeNext, ran]
      rfl
    · cases stepped
      exact ⟨plants', rfl, fits.2 _ rfl⟩

end Refinement

/-- Links of empty trees. -/
def barren : RbHeap := ⟨fun _ => ⟨0, 0, 0, .black⟩, fun _ => 0⟩

/-- The comparison of two addresses. -/
def addressCompare (a b : Nat) : Int := if a < b then -1 else if b < a then 1 else 0

/-- Two trees.  The third element of the first one turns its root, and the second one is emptied. -/
def plantedOps : List TreeOp :=
  [.rbInsert addressCompare 1 10, .rbInsert addressCompare 1 20, .rbInsert addressCompare 2 15,
    .rbInsert addressCompare 1 30, .rbStep .right 1 20, .rbRemove 2 15, .rbEmpty 2, .rbMinmax 1 1]

/-- An element is in neither of the two trees that have any. -/
theorem linkedNowhere {forest : Forest} {elm : Nat}
    (others : forall other, other ≠ 1 -> other ≠ 2 -> forest other = [])
    (first : elm ∉ forest 1) (second : elm ∉ forest 2) {P : Nat -> Prop} :
    forall other, elm ∈ forest other -> P other := by
  intro other member
  by_cases isFirst : other = 1
  · exact absurd (isFirst ▸ member) first
  · by_cases isSecond : other = 2
    · exact absurd (isSecond ▸ member) second
    · rw [others other isFirst isSecond] at member
      cases member

theorem treeNext_refines_planted : Exists fun heap' =>
    exec (treeNext 6) (barren, []) plantedOps = .ok (heap', [0, 0, 0, 0, 30, 15, 1, 30]) ∧
      heap'.rbhRoot 1 = 20 ∧ Exists fun forest => forest 1 = [10, 20, 30] ∧ forest 2 = [] ∧
        heap'.Plants forest := by
  have apart : forall {forest : Forest} {head elm : Nat},
      (forall other, other ≠ 1 -> other ≠ 2 -> forest other = []) -> head = 1 ∨ head = 2 ->
        forall other, other ≠ 1 -> other ≠ 2 ->
            (TreeOp.rbInsert addressCompare head elm).after forest other = [] := by
    intro forest head elm others isHead other notFirst notSecond
    have notHead : other ≠ head := by rcases isHead with rfl | rfl <;> assumption
    rw [TreeOp.after, Function.update_of_ne notHead]
    exact others other notFirst notSecond
  have none0 : forall other : Nat, other ≠ 1 -> other ≠ 2 -> (fun _ => [] : Forest) other = [] :=
    fun _ _ _ => rfl
  have none1 := @apart _ 1 10 none0 (Or.inl rfl)
  have none2 := @apart _ 1 20 none1 (Or.inl rfl)
  have none3 := @apart _ 2 15 none2 (Or.inr rfl)
  have fits : Meets listNext (fun s op => op.Fits 6 s.1) (fun _ => [], []) plantedOps := by
    refine ⟨⟨by decide, by decide, by decide, linkedNowhere none0 (by decide) (by decide)⟩,
      fun _ stepped => ?_⟩
    cases stepped
    refine ⟨⟨by decide, by decide, by decide, linkedNowhere none1 (by decide) (by decide)⟩,
      fun _ stepped => ?_⟩
    cases stepped
    refine ⟨⟨by decide, by decide, by decide, linkedNowhere none2 (by decide) (by decide)⟩,
      fun _ stepped => ?_⟩
    cases stepped
    refine ⟨⟨by decide, by decide, by decide, linkedNowhere none3 (by decide) (by decide)⟩,
      fun _ stepped => ?_⟩
    cases stepped
    refine ⟨⟨by decide, by decide⟩, fun _ stepped => ?_⟩
    cases stepped
    refine ⟨⟨by decide, by decide⟩, fun _ stepped => ?_⟩
    cases stepped
    refine ⟨trivial, fun _ stepped => ?_⟩
    cases stepped
    exact ⟨(by decide : Fuelled 6 [10, 20, 30]), fun _ _ => trivial⟩
  rcases treeNext_refines (plants_empty _) fits rfl with ⟨heap', executed, plants⟩
  have root : (exec (treeNext 6) (barren, []) plantedOps).toOption.map (fun s => s.1.rbhRoot 1) =
      some 20 := by
    decide +kernel
  refine ⟨heap', executed, ?_, _, rfl, rfl, plants⟩
  have started : exec (treeNext 6) (barren, []) plantedOps = .ok (heap', _) := executed
  rw [started] at root
  exact Option.some.inj root

end Utils
end OsslScripts
