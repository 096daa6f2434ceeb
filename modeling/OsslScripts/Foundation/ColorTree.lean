import Mathlib.Algebra.Ring.Nat
import Mathlib.Data.List.Basic
import Mathlib.Data.List.Perm.Basic
import Mathlib.Data.Nat.Log
import OsslScripts.Foundation.OrderedTree

namespace OsslScripts
namespace Foundation

/-!
# Red-black trees and the paths into them

A tree has red and black nodes, and a path is a tree with one subtree missing,
from the place of that subtree up to the root.  Most facts hold alike for both
sides of a node, so a node can be written from either side (`branch`).

`Balanced t n` says that `t` has black height `n` and no red node below a red one,
and `Holds path n` that the path awaits a black tree of that height.  Plugging the
one into the other is what every rebalancing step has to keep.
-/

inductive Side where
  | left
  | right
  deriving DecidableEq

def Side.other : Side -> Side
  | .left => .right
  | .right => .left

@[simp] theorem Side.other_other (s : Side) : s.other.other = s := by cases s <;> rfl

theorem Side.eq_other_of_ne {s s' : Side} (different : s' ≠ s) : s' = s.other := by
  cases s <;> cases s' <;> first | rfl | exact absurd rfl different

theorem Side.eq_right_of_ne {s : Side} (different : s ≠ .left) : s = .right := by
  cases s with
  | left => exact absurd rfl different
  | right => rfl

theorem Side.ite_eq {s : Side} {test : Prop} [Decidable test] (isLeft : test ↔ s = .left) :
    (if test then Side.left else .right) = s := by
  cases s with
  | left => exact if_pos (isLeft.mpr rfl)
  | right => exact if_neg (fun holds => by cases isLeft.mp holds)

inductive Color where
  | red
  | black
  deriving DecidableEq

inductive ColorTree (α : Type) where
  | leaf
  | node (color : Color) (left : ColorTree α) (elem : α) (right : ColorTree α)

/-- A node on the way up: the side that the path comes from, and what hangs on the other. -/
structure Frame (α : Type) where
  side : Side
  color : Color
  elem : α
  sibling : ColorTree α

namespace ColorTree

variable {α : Type}

/-- The elements in order. -/
def elems : ColorTree α -> List α
  | leaf => []
  | node _ l x r => l.elems ++ x :: r.elems

/-- The element at the root. -/
def root? : ColorTree α -> Option α
  | leaf => none
  | node _ _ x _ => some x

/-- A node, with the subtree on the given side first. -/
def branch (s : Side) (c : Color) (near : ColorTree α) (x : α) (far : ColorTree α) : ColorTree α :=
  match s with
  | .left => node c near x far
  | .right => node c far x near

theorem branch_other (s : Side) (c : Color) (near : ColorTree α) (x : α) (far : ColorTree α) :
    branch s.other c near x far = branch s c far x near := by cases s <;> rfl

/-- A tree with a root, seen from the given side. -/
theorem exists_branch (s : Side) {t : ColorTree α} (node : t ≠ leaf) :
    Exists fun c => Exists fun near => Exists fun x => Exists fun far =>
      t = branch s c near x far := by
  cases t with
  | leaf => exact absurd rfl node
  | node c l x r =>
      cases s with
      | left => exact ⟨c, l, x, r, rfl⟩
      | right => exact ⟨c, r, x, l, rfl⟩

@[simp] theorem root?_branch (s : Side) (c : Color) (near : ColorTree α) (x : α)
    (far : ColorTree α) :
    (branch s c near x far).root? = some x := by cases s <;> rfl

theorem branch_ne_leaf (s : Side) (c : Color) (near : ColorTree α) (x : α) (far : ColorTree α) :
    branch s c near x far ≠ leaf := by
  cases s <;> exact fun impossible => by cases impossible

theorem root?_mem {t : ColorTree α} {x : α} (isRoot : t.root? = some x) : x ∈ t.elems := by
  cases t with
  | leaf => cases isRoot
  | node c l y r =>
      cases isRoot
      exact List.mem_append_right _ List.mem_cons_self

theorem perm_branch (s : Side) (c : Color) (near : ColorTree α) (x : α) (far : ColorTree α) :
    (branch s c near x far).elems.Perm (x :: (near.elems ++ far.elems)) := by
  cases s with
  | left => exact List.perm_middle
  | right => exact List.perm_middle.trans ((List.perm_append_comm).cons x)

/-- The elements depend on neither the colors nor the way two nodes hang together. -/
theorem elems_recolor (s : Side) (c c' : Color) (near : ColorTree α) (x : α) (far : ColorTree α) :
    (branch s c near x far).elems = (branch s c' near x far).elems := by cases s <;> rfl

theorem elems_rotate (s : Side) (c c' d d' : Color) (a b e : ColorTree α) (x y : α) :
    (branch s d' (branch s c' a x b) y e).elems = (branch s c a x (branch s d b y e)).elems := by
  cases s <;> simp [branch, elems]

/-! ## Paths -/

/-- The tree with its missing subtree. -/
def plug : List (Frame α) -> ColorTree α -> ColorTree α
  | [], t => t
  | f :: path, t => plug path (branch f.side f.color t f.elem f.sibling)

theorem plug_append (first second : List (Frame α)) (t : ColorTree α) :
    plug (first ++ second) t = plug second (plug first t) := by
  induction first generalizing t with
  | nil => rfl
  | cons f first inductionHypothesis => exact inductionHypothesis _

/-- Each element has a path that leads to it. -/
theorem exists_plug {t : ColorTree α} {x : α} (member : x ∈ t.elems) :
    Exists fun path => Exists fun c => Exists fun l => Exists fun r =>
      t = plug path (node c l x r) := by
  induction t with
  | leaf => cases member
  | node c l y r left right =>
      rcases List.mem_append.mp member with inLeft | inRest
      · rcases left inLeft with ⟨path, c', l', r', rfl⟩
        exact ⟨path ++ [⟨.left, c, y, r⟩], c', l', r', by rw [plug_append]; rfl⟩
      · rcases List.mem_cons.mp inRest with rfl | inRight
        · exact ⟨[], c, l, r, rfl⟩
        · rcases right inRight with ⟨path, c', l', r', rfl⟩
          exact ⟨path ++ [⟨.right, c, y, l⟩], c', l', r', by rw [plug_append]; rfl⟩

theorem plug_ne_leaf (path : List (Frame α)) {t : ColorTree α} (node : t ≠ leaf) :
    plug path t ≠ leaf := by
  induction path generalizing t with
  | nil => exact node
  | cons f path inductionHypothesis => exact inductionHypothesis (branch_ne_leaf _ _ _ _ _)

/-- The elements on one side of a path. -/
def beside (s : Side) : List (Frame α) -> List α
  | [] => []
  | f :: path =>
      if f.side = s then beside s path
      else match s with
        | .left => beside s path ++ (f.sibling.elems ++ [f.elem])
        | .right => f.elem :: f.sibling.elems ++ beside s path

/-- A path that keeps to one side has nothing on that side. -/
theorem beside_eq_nil {s : Side} {path : List (Frame α)}
    (straight : forall f, f ∈ path -> f.side = s) :
    beside s path = [] := by
  induction path with
  | nil => rfl
  | cons f path inductionHypothesis =>
      unfold beside
      rw [if_pos (straight f List.mem_cons_self)]
      exact inductionHypothesis (fun g member => straight g (List.mem_cons_of_mem f member))

theorem elems_plug (path : List (Frame α)) (t : ColorTree α) :
    (plug path t).elems = beside .left path ++ t.elems ++ beside .right path := by
  induction path generalizing t with
  | nil => rw [plug, beside, beside, List.append_nil, List.nil_append]
  | cons f path inductionHypothesis =>
      rw [plug, inductionHypothesis]
      rcases f with ⟨side, c, x, sibling⟩
      cases side <;> simp [beside, branch, elems]

/-- The elements before and after the root of a subtree. -/
theorem elems_around (path : List (Frame α)) (c : Color) (l : ColorTree α) (x : α)
    (r : ColorTree α) :
    (plug path (node c l x r)).elems =
      (beside .left path ++ l.elems) ++ x :: (r.elems ++ beside .right path) := by
  rw [elems_plug, elems]
  simp only [List.append_assoc, List.cons_append]

theorem elems_plug_congr {t t' : ColorTree α} (path : List (Frame α)) (same : t'.elems = t.elems) :
    (plug path t').elems = (plug path t).elems := by
  rw [elems_plug, elems_plug, same]

/-- All elements of a path. -/
def along (path : List (Frame α)) : List α := path.flatMap (fun f => f.elem :: f.sibling.elems)

theorem along_cons (f : Frame α) (path : List (Frame α)) :
    along (f :: path) = f.elem :: f.sibling.elems ++ along path := rfl

theorem perm_plug (path : List (Frame α)) (t : ColorTree α) :
    (plug path t).elems.Perm (t.elems ++ along path) := by
  induction path generalizing t with
  | nil => rw [plug, along, List.flatMap_nil, List.append_nil]
  | cons f path inductionHypothesis =>
      have swap : (f.elem :: (t.elems ++ f.sibling.elems)).Perm
          (t.elems ++ f.elem :: f.sibling.elems) :=
        List.perm_middle.symm
      rw [plug, along_cons, ← List.append_assoc]
      exact (inductionHypothesis _).trans (((perm_branch _ _ _ _ _).trans swap).append_right _)

/-! ## Balance -/

/-- The root is not red. -/
def IsBlack : ColorTree α -> Prop
  | leaf => True
  | node c _ _ _ => c = .black

instance : DecidablePred (@IsBlack α)
  | leaf => .isTrue trivial
  | node c _ _ _ => inferInstanceAs (Decidable (c = .black))

/-- The tree with a black root. -/
def blackened : ColorTree α -> ColorTree α
  | leaf => leaf
  | node _ l x r => node .black l x r

/-- No red node below a red one, and as many black nodes on each way down. -/
def Balanced : ColorTree α -> Nat -> Prop
  | leaf, n => n = 0
  | node .red l _ r, n => (l.IsBlack ∧ r.IsBlack) ∧ Balanced l n ∧ Balanced r n
  | node .black l _ r, n => Exists fun m => n = m + 1 ∧ Balanced l m ∧ Balanced r m

def RedBlack (t : ColorTree α) : Prop := t.IsBlack ∧ Exists (Balanced t)

/-- A red tree fits below the path. -/
def TakesRed : List (Frame α) -> Prop
  | [] => False
  | f :: _ => f.color = .black

/-- The path is balanced around a black tree of this black height. -/
def Holds : List (Frame α) -> Nat -> Prop
  | [], _ => True
  | ⟨_, .red, _, sibling⟩ :: path, n =>
      sibling.IsBlack ∧ TakesRed path ∧ Balanced sibling n ∧ Holds path n
  | ⟨_, .black, _, sibling⟩ :: path, n => Balanced sibling n ∧ Holds path (n + 1)

/-- Balance does not depend on the elements. -/
theorem holds_replace (first : List (Frame α)) (s : Side) (c : Color) (x y : α)
    (sibling : ColorTree α)
    (path : List (Frame α)) (n : Nat) :
    Holds (first ++ ⟨s, c, x, sibling⟩ :: path) n ↔
      Holds (first ++ ⟨s, c, y, sibling⟩ :: path) n := by
  induction first generalizing n with
  | nil => cases c <;> exact Iff.rfl
  | cons f first inductionHypothesis =>
      have takes : TakesRed (first ++ ⟨s, c, x, sibling⟩ :: path) ↔
          TakesRed (first ++ ⟨s, c, y, sibling⟩ :: path) := by
        cases first <;> exact Iff.rfl
      rcases f with ⟨side, d, z, other⟩
      cases d with
      | red =>
          exact and_congr_right fun _ =>
            and_congr takes (and_congr_right fun _ => inductionHypothesis n)
      | black => exact and_congr_right fun _ => inductionHypothesis (n + 1)

section Balance

variable {s : Side} {c : Color} {near far t : ColorTree α} {x : α} {n : Nat} {path : List (Frame α)}

@[simp] theorem isBlack_branch : (branch s c near x far).IsBlack ↔ c = .black := by cases s <;> rfl

theorem balanced_red : Balanced (branch s .red near x far) n ↔
    (near.IsBlack ∧ far.IsBlack) ∧ Balanced near n ∧ Balanced far n := by
  cases s with
  | left => rfl
  | right => exact and_congr and_comm and_comm

theorem balanced_black : Balanced (branch s .black near x far) (n + 1) ↔
    Balanced near n ∧ Balanced far n := by
  have unfolded : forall l r : ColorTree α, Balanced (node .black l x r) (n + 1) ↔
      Balanced l n ∧ Balanced r n := by
    intro l r
    constructor
    · rintro ⟨m, height, below⟩
      cases Nat.succ.inj height
      exact below
    · exact fun below => ⟨n, rfl, below⟩
  cases s with
  | left => exact unfolded near far
  | right => exact (unfolded far near).trans and_comm

theorem not_balanced_black_zero : ¬ Balanced (branch s .black near x far) 0 := by
  intro balanced
  have unfolded : Exists fun m => 0 = m + 1 ∧ True := by
    cases s <;> exact balanced.imp (fun _ parts => ⟨parts.1, trivial⟩)
  rcases unfolded with ⟨m, height, -⟩
  cases height

/-- A tree of positive black height has a root. -/
theorem Balanced.ne_leaf (balanced : Balanced t (n + 1)) : t ≠ leaf := by
  rintro rfl
  cases balanced

/-- A black tree of positive height, seen from one side. -/
theorem Balanced.exists_black (balanced : Balanced t (n + 1)) (black : t.IsBlack) (s : Side) :
    Exists fun near => Exists fun x => Exists fun far =>
      t = branch s .black near x far ∧ Balanced near n ∧ Balanced far n := by
  rcases exists_branch s balanced.ne_leaf with ⟨c, near, x, far, rfl⟩
  have isBlack : c = .black := isBlack_branch.mp black
  subst isBlack
  exact ⟨near, x, far, rfl, balanced_black.mp balanced⟩

/-- A red tree, seen from one side. -/
theorem Balanced.exists_red (balanced : Balanced t n) (red : ¬ t.IsBlack) (s : Side) :
    Exists fun near => Exists fun x => Exists fun far => t = branch s .red near x far ∧
      (near.IsBlack ∧ far.IsBlack) ∧ Balanced near n ∧ Balanced far n := by
  have node : t ≠ leaf := by
    rintro rfl
    exact red trivial
  rcases exists_branch s node with ⟨c, near, x, far, rfl⟩
  have isRed : c = .red := by
    cases c with
    | red => rfl
    | black => exact absurd (isBlack_branch.mpr rfl) red
  subst isRed
  exact ⟨near, x, far, rfl, balanced_red.mp balanced⟩

@[simp] theorem blackened_branch :
    (branch s c near x far).blackened = branch s .black near x far := by
  cases s <;> rfl

theorem blackened_of_isBlack (black : t.IsBlack) : t.blackened = t := by
  cases t with
  | leaf => rfl
  | node c l x r =>
      cases black
      rfl

/-- A balanced tree is red-black once its root is black. -/
theorem Balanced.redBlack_blackened (balanced : Balanced t n) : RedBlack t.blackened := by
  by_cases black : t.IsBlack
  · rw [blackened_of_isBlack black]
    exact ⟨black, n, balanced⟩
  · rcases balanced.exists_red black .left with ⟨near, x, far, rfl, -, below⟩
    rw [blackened_branch]
    exact ⟨rfl, n + 1, balanced_black.mpr below⟩

theorem isBlack_blackened (t : ColorTree α) : t.blackened.IsBlack := by cases t <;> trivial

/-- A red root counts once it is black. -/
theorem Balanced.blackened (balanced : Balanced t n) (red : ¬ t.IsBlack) :
    Balanced t.blackened (n + 1) := by
  rcases balanced.exists_red red .left with ⟨near, x, far, rfl, -, below⟩
  rw [blackened_branch]
  exact balanced_black.mpr below

theorem RedBlack.blackened_eq (redBlack : RedBlack t) : t.blackened = t :=
  blackened_of_isBlack redBlack.1

/-- A balanced tree fills the hole of a path that awaits it. -/
theorem Holds.plug (holds : Holds path n) (balanced : Balanced t n)
    (fits : t.IsBlack ∨ TakesRed path) :
    RedBlack (plug path t) := by
  induction path generalizing t n with
  | nil => exact ⟨fits.resolve_right id, n, balanced⟩
  | cons f path inductionHypothesis =>
      rcases f with ⟨side, c, x, sibling⟩
      cases c with
      | red =>
          have black : t.IsBlack := fits.resolve_right (fun impossible => by cases impossible)
          exact inductionHypothesis holds.2.2.2
            (balanced_red.mpr ⟨⟨black, holds.1⟩, balanced, holds.2.2.1⟩) (Or.inr holds.2.1)
      | black =>
          exact inductionHypothesis holds.2 (balanced_black.mpr ⟨balanced, holds.1⟩)
            (Or.inl (isBlack_branch.mpr rfl))

/-- The parts of a red-black tree, around any of its subtrees. -/
theorem RedBlack.unplug (redBlack : RedBlack (ColorTree.plug path t)) :
    Exists fun n => Balanced t n ∧ Holds path n ∧ (t.IsBlack ∨ TakesRed path) := by
  induction path generalizing t with
  | nil =>
      rcases redBlack with ⟨black, n, balanced⟩
      exact ⟨n, balanced, trivial, Or.inl black⟩
  | cons f path inductionHypothesis =>
      rcases f with ⟨side, c, x, sibling⟩
      rcases inductionHypothesis redBlack with ⟨n, balanced, holds, fits⟩
      cases c with
      | red =>
          have below := balanced_red.mp balanced
          have takes : TakesRed path := fits.resolve_left (fun black => by
            cases isBlack_branch.mp black)
          exact ⟨n, below.2.1, ⟨below.1.2, takes, below.2.2, holds⟩, Or.inl below.1.1⟩
      | black =>
          cases n with
          | zero => exact absurd balanced not_balanced_black_zero
          | succ m =>
              have below := balanced_black.mp balanced
              exact ⟨m, below.1, ⟨below.2, holds⟩, Or.inr rfl⟩

/-! ## Height -/

def height : ColorTree α -> Nat
  | leaf => 0
  | node _ l _ r => max l.height r.height + 1

theorem height_branch (s : Side) (c : Color) (near : ColorTree α) (x : α) (far : ColorTree α) :
    near.height + 1 ≤ (branch s c near x far).height := by
  cases s <;> simp only [branch, height] <;> omega

/-- A balanced tree is not empty enough to be high. -/
theorem Balanced.bounds (balanced : Balanced t n) :
    2 ^ n ≤ t.elems.length + 1 ∧ t.height ≤ 2 * n + 1 ∧ (t.IsBlack -> t.height ≤ 2 * n) := by
  induction t generalizing n with
  | leaf =>
      cases balanced
      exact ⟨Nat.le_refl _, Nat.zero_le _, fun _ => Nat.le_refl _⟩
  | node c l x r left right =>
      have size : (node c l x r).elems.length = l.elems.length + r.elems.length + 1 := by
        rw [elems, List.length_append, List.length_cons]
        omega
      rw [size, height]
      cases c with
      | red =>
          rcases balanced with ⟨⟨blackL, blackR⟩, balancedL, balancedR⟩
          have boundsL := left balancedL
          have boundsR := right balancedR
          have lowL := boundsL.2.2 blackL
          have lowR := boundsR.2.2 blackR
          refine ⟨by omega, by omega, fun impossible => by cases impossible⟩
      | black =>
          rcases balanced with ⟨m, rfl, balancedL, balancedR⟩
          have boundsL := left balancedL
          have boundsR := right balancedR
          have low : max l.height r.height + 1 ≤ 2 * (m + 1) := by omega
          exact ⟨by rw [Nat.pow_succ]; omega, by omega, fun _ => low⟩

/-- A red-black tree is at most twice as high as a full one. -/
theorem RedBlack.height_le (redBlack : RedBlack t) :
    t.height ≤ 2 * Nat.log 2 (t.elems.length + 1) := by
  rcases redBlack with ⟨black, n, balanced⟩
  rcases balanced.bounds with ⟨size, -, low⟩
  have height := low black
  have log : n ≤ Nat.log 2 (t.elems.length + 1) := Nat.le_log_of_pow_le Nat.one_lt_two size
  omega

theorem length_add_height_le (path : List (Frame α)) (t : ColorTree α) :
    path.length + t.height ≤ (ColorTree.plug path t).height := by
  induction path generalizing t with
  | nil => rw [ColorTree.plug, List.length_nil, Nat.zero_add]
  | cons f path inductionHypothesis =>
      have step := height_branch f.side f.color t f.elem f.sibling
      have onward := inductionHypothesis (branch f.side f.color t f.elem f.sibling)
      rw [ColorTree.plug, List.length_cons]
      omega

end Balance

/-! ## Search -/

/-- The probe is above the elements up to some place, meets one at most, and is below the rest. -/
def Cuts (probe : α -> Int) (elems : List α) : Prop :=
  elems.Pairwise (fun y z => probe y ≤ 0 -> probe z < 0)

instance (probe : α -> Int) (elems : List α) : Decidable (Cuts probe elems) :=
  inferInstanceAs (Decidable (elems.Pairwise _))

/-- The way down that the probe takes: where it ends, and the path that leads there. -/
def seek (probe : α -> Int) : ColorTree α -> List (Frame α) -> ColorTree α × List (Frame α)
  | leaf, path => (leaf, path)
  | node c l x r, path =>
      if probe x < 0 then seek probe l (⟨.left, c, x, r⟩ :: path)
      else if 0 < probe x then seek probe r (⟨.right, c, x, l⟩ :: path)
      else (node c l x r, path)

section Search

variable {probe : α -> Int} {elems pre post : List α} {t : ColorTree α} {x : α}
  {path : List (Frame α)}

theorem Cuts.of_sorted {κ : Type} [LinearOrder κ] {key : α -> κ} {k : κ}
    (sorted : OrderedTree.Sorted key elems)
    (probes : forall y, y ∈ elems -> (probe y < 0 ↔ k < key y) ∧ (probe y = 0 ↔ k = key y)) :
    Cuts probe elems := by
  refine List.Pairwise.imp_of_mem (fun {y z} memberY memberZ less below => ?_) sorted
  have notAbove : k ≤ key y := by
    rcases Int.le_iff_lt_or_eq.mp below with negative | zero
    · exact le_of_lt ((probes y memberY).1.mp negative)
    · exact le_of_eq ((probes y memberY).2.mp zero)
  exact (probes z memberZ).1.mpr (lt_of_le_of_lt notAbove less)

theorem Cuts.after (cuts : Cuts probe (pre ++ x :: post)) (below : probe x ≤ 0) :
    forall z, z ∈ post -> probe z < 0 :=
  fun z member => (List.pairwise_cons.mp (List.pairwise_append.mp cuts).2.1).1 z member below

theorem Cuts.before (cuts : Cuts probe (pre ++ x :: post)) (above : 0 ≤ probe x) :
    forall z, z ∈ pre -> 0 < probe z := by
  intro z member
  by_contra notAbove
  have below :=
    (List.pairwise_append.mp cuts).2.2 z member x List.mem_cons_self (Int.not_lt.mp notAbove)
  exact absurd below (Int.not_lt.mpr above)

/-- The way down stays in the tree. -/
theorem plug_seek (probe : α -> Int) (t : ColorTree α) (path : List (Frame α)) :
    plug (seek probe t path).2 (seek probe t path).1 = plug path t := by
  induction t generalizing path with
  | leaf => rfl
  | node c l x r left right =>
      rw [seek]
      split_ifs
      · exact left _
      · exact right _
      · rfl

/-- It goes between the smaller and the greater elements, and ends at an equal one, if any. -/
theorem seek_spec (cuts : Cuts probe (plug path t).elems)
    (smaller : forall z, z ∈ beside .left path -> 0 < probe z)
    (greater : forall z, z ∈ beside .right path -> probe z < 0) :
    (forall z, z ∈ beside .left (seek probe t path).2 -> 0 < probe z) ∧
      (forall z, z ∈ beside .right (seek probe t path).2 -> probe z < 0) ∧
      forall c l x r, (seek probe t path).1 = node c l x r ->
        probe x = 0 ∧ (forall z, z ∈ l.elems -> 0 < probe z) ∧ forall z, z ∈ r.elems ->
          probe z < 0 := by
  induction t generalizing path with
  | leaf => exact ⟨smaller, greater, fun c l x r impossible => by cases impossible⟩
  | node c l x r left right =>
      have cut := elems_around path c l x r ▸ cuts
      rw [seek]
      split_ifs with below above
      · refine left cuts smaller (fun z member => ?_)
        rcases List.mem_cons.mp member with rfl | inRest
        · exact below
        · exact cut.after (Int.le_of_lt below) z inRest
      · refine right cuts (fun z member => ?_) greater
        rcases List.mem_append.mp member with inBeside | inRest
        · exact smaller z inBeside
        · rcases List.mem_append.mp inRest with inLeft | isX
          · exact cut.before (Int.le_of_lt above) z (List.mem_append_right _ inLeft)
          · rwa [List.mem_singleton.mp isX]
      · have zero : probe x = 0 := by omega
        refine ⟨smaller, greater, fun c' l' x' r' same => ?_⟩
        cases same
        exact ⟨zero, fun z member =>
          cut.before (le_of_eq zero.symm) z (List.mem_append_right _ member),
          fun z member => cut.after (le_of_eq zero) z (List.mem_append_left _ member)⟩

/-- A search ends between two elements, or at an equal one. -/
theorem seek_cases (cuts : Cuts probe t.elems) :
    (Exists fun path => seek probe t [] = (leaf, path) ∧ plug path leaf = t ∧
      t.elems = beside .left path ++ beside .right path ∧
      (forall z, z ∈ beside .left path -> 0 < probe z) ∧ forall z, z ∈ beside .right path ->
        probe z < 0) ∨
    Exists fun focus => Exists fun path => Exists fun y => Exists fun pre => Exists fun post =>
      seek probe t [] = (focus, path) ∧ focus.root? = some y ∧ t.elems = pre ++ y :: post ∧
        probe y = 0 ∧
        forall z, z ∈ pre -> 0 < probe z := by
  have spec := @seek_spec _ _ _ [] cuts (fun z impossible => by cases impossible)
    (fun z impossible => by cases impossible)
  have whole := plug_seek probe t []
  generalize seek probe t [] = ending at spec whole
  rcases ending with ⟨focus, path⟩
  rcases spec with ⟨smaller, greater, equal⟩
  have order : t.elems = beside .left path ++ focus.elems ++ beside .right path :=
    (congrArg ColorTree.elems whole).symm.trans (elems_plug path focus)
  cases focus with
  | leaf =>
      rw [ColorTree.elems, List.append_nil] at order
      exact Or.inl ⟨path, rfl, whole, order, smaller, greater⟩
  | node c l y r =>
      rcases equal c l y r rfl with ⟨zero, below, -⟩
      refine Or.inr ⟨_, path, y, beside .left path ++ l.elems, r.elems ++ beside .right path, rfl,
        rfl, ?_, zero,
        fun z member => ?_⟩
      · exact (congrArg ColorTree.elems whole).symm.trans (elems_around path c l y r)
      · exact (List.mem_append.mp member).elim (smaller z) (below z)

/-- Where the search ends decides what an insertion does. -/
theorem insert_between {cmp : α -> α -> Int} (smaller : forall z, z ∈ pre -> 0 < cmp x z)
    (greater : forall z, z ∈ post -> cmp x z < 0) :
    OrderedTree.insert cmp x (pre ++ post) = (pre ++ x :: post, none) := by
  induction pre with
  | nil =>
      cases post with
      | nil => rfl
      | cons y ys =>
        rw [List.nil_append, OrderedTree.insert, if_pos (greater y List.mem_cons_self)]; rfl
  | cons y ys inductionHypothesis =>
      have above := smaller y List.mem_cons_self
      rw [List.cons_append, OrderedTree.insert, if_neg (Int.lt_asymm above),
        if_neg (ne_of_gt above),
        inductionHypothesis (fun z member => smaller z (List.mem_cons_of_mem y member))]
      rfl

theorem insert_at {cmp : α -> α -> Int} {y : α} (smaller : forall z, z ∈ pre -> 0 < cmp x z)
    (equal : cmp x y = 0) : OrderedTree.insert cmp x (pre ++ y :: post) =
      (pre ++ y :: post, some y) := by
  induction pre with
  | nil => rw [List.nil_append, OrderedTree.insert, if_neg (by omega), if_pos equal]
  | cons z zs inductionHypothesis =>
      have above := smaller z List.mem_cons_self
      rw [List.cons_append, OrderedTree.insert, if_neg (Int.lt_asymm above),
        if_neg (ne_of_gt above),
        inductionHypothesis (fun w member => smaller w (List.mem_cons_of_mem z member))]

theorem find_at {y : α} (smaller : forall z, z ∈ pre -> 0 < probe z) (equal : probe y = 0) :
    OrderedTree.find probe (pre ++ y :: post) = some y := by
  have none : pre.find? (fun z => decide (probe z = 0)) = none :=
    List.find?_eq_none.mpr
      (fun z member zero => ne_of_gt (smaller z member) (of_decide_eq_true zero))
  rw [OrderedTree.find, List.find?_append, none, Option.none_or, List.find?_cons,
    decide_eq_true equal]

theorem find_between (smaller : forall z, z ∈ pre -> 0 < probe z)
    (greater : forall z, z ∈ post -> probe z < 0) :
    OrderedTree.find probe (pre ++ post) = none := by
  refine List.find?_eq_none.mpr (fun z member zero => ?_)
  have equal := of_decide_eq_true zero
  rcases List.mem_append.mp member with inPre | inPost
  · exact ne_of_gt (smaller z inPre) equal
  · exact ne_of_lt (greater z inPost) equal

end Search

end ColorTree
end Foundation
end OsslScripts
