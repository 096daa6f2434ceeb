import OsslScripts.Utils.RbShape

namespace OsslScripts
namespace Utils

open Foundation
open Foundation.ColorTree

/-!
# Search and traversal

The loops that only read follow the way that a probe takes, the way to one end of
the tree, or the way from an element to its neighbour in order.
-/

section Search

variable {head fuel elm : Nat} {probe : Nat -> Int} {t near far : ColorTree Nat} {s : Side}
  {c : Color} {x : Nat} {path : List (Frame Nat)} {heap : RbHeap}

theorem top_ne_zero (proper : Proper (plug path t)) (node : t ≠ .leaf) : top t ≠ 0 :=
  fun zero => (proper_plug proper).2 (List.mem_append_left _ (zero ▸ top_mem node))

theorem reads_findFrom (proper : Proper (plug path t)) (enough : t.height < fuel) :
    Reads (findFrom probe fuel (top t)) head (plug path t) (top (seek probe t path).1) := by
  induction t generalizing path fuel with
  | leaf =>
      cases fuel with
      | zero => exact absurd enough (Nat.not_lt_zero _)
      | succ fuel => exact reads_pure 0 head _
  | node c l x r left right =>
      cases fuel with
      | zero => exact absurd enough (Nat.not_lt_zero _)
      | succ fuel =>
          have nonzero : x ≠ 0 := top_ne_zero proper (branch_ne_leaf .left c l x r)
          rw [height] at enough
          change Reads (findFrom probe (fuel + 1) x) head _ _
          rw [findFrom, if_neg nonzero, seek]
          split_ifs with below greater
          · exact (reads_rbChild head path .left c l r x).bind
              (left (show Proper (plug (⟨.left, c, x, r⟩ :: path) l) from proper) (by omega))
          · exact (reads_rbChild head path .right c r l x).bind
              (right (show Proper (plug (⟨.right, c, x, l⟩ :: path) r) from proper) (by omega))
          · exact reads_pure x head _

/-- The first element after the hole, or 0. -/
def greaterOf (path : List (Frame Nat)) : Nat := (beside .right path).head?.getD 0

theorem reads_nfindFrom (proper : Proper (plug path t)) (enough : t.height < fuel) :
    Reads (nfindFrom probe fuel (top t) (greaterOf path)) head (plug path t)
      (match (seek probe t path).1 with
        | .leaf => greaterOf (seek probe t path).2
        | .node _ _ y _ => y) := by
  induction t generalizing path fuel with
  | leaf =>
      cases fuel with
      | zero => exact absurd enough (Nat.not_lt_zero _)
      | succ fuel => exact reads_pure _ head _
  | node c l x r left right =>
      cases fuel with
      | zero => exact absurd enough (Nat.not_lt_zero _)
      | succ fuel =>
          have nonzero : x ≠ 0 := top_ne_zero proper (branch_ne_leaf .left c l x r)
          rw [height] at enough
          change Reads (nfindFrom probe (fuel + 1) x _) head _ _
          rw [nfindFrom, if_neg nonzero, seek]
          split_ifs with below greater
          · exact (reads_rbChild head path .left c l r x).bind
              (left (show Proper (plug (⟨.left, c, x, r⟩ :: path) l) from proper) (by omega))
          · exact (reads_rbChild head path .right c r l x).bind
              (right (show Proper (plug (⟨.right, c, x, l⟩ :: path) r) from proper) (by omega))
          · exact reads_pure x head _

/-- `RB_FIND` finds the element that compares equal. -/
theorem runs_rbFind (shows : heap.Shows head t) (redBlack : RedBlack t) (cuts : Cuts probe t.elems)
    (enough : 2 * Nat.log 2 (t.elems.length + 1) < fuel) :
    Runs (rbFind fuel probe head) heap ((OrderedTree.find probe t.elems).getD 0) heap := by
  have high : t.height < fuel := lt_of_le_of_lt redBlack.height_le enough
  have search := @reads_findFrom head _ probe _ [] ⟨shows.distinct, shows.proper⟩ high
  have found : OrderedTree.find probe t.elems = (seek probe t []).1.root? := by
    rcases seek_cases cuts with ⟨path, ends, -, order, smaller, greater⟩
      | ⟨focus, path, y, pre, post, ends, isRoot,
      order, zero, smaller⟩
    · rw [ends, order, find_between smaller greater]
      rfl
    · rw [ends, order, find_at smaller zero, isRoot]
  have root := @runs_rbRoot heap head
  rw [shows.root] at root
  rw [found]
  exact root.bind (search heap shows)

/-- `RB_NFIND` finds the first element that is not smaller. -/
theorem runs_rbNfind (shows : heap.Shows head t) (redBlack : RedBlack t) (cuts : Cuts probe t.elems)
    (enough : 2 * Nat.log 2 (t.elems.length + 1) < fuel) :
    Runs (rbNfind fuel probe head) heap ((t.elems.find? (fun z => decide (probe z ≤ 0))).getD 0)
      heap := by
  have high : t.height < fuel := lt_of_le_of_lt redBlack.height_le enough
  have search := @reads_nfindFrom head _ probe _ [] ⟨shows.distinct, shows.proper⟩ high
  have skips : forall {pre post : List Nat}, (forall z, z ∈ pre -> 0 < probe z) ->
      (pre ++ post).find? (fun z => decide (probe z ≤ 0)) =
          post.find? (fun z => decide (probe z ≤ 0)) := by
    intro pre post smaller
    rw [List.find?_append, List.find?_eq_none.mpr (fun z member low =>
      Int.not_lt.mpr (of_decide_eq_true low) (smaller z member)), Option.none_or]
  have root := @runs_rbRoot heap head
  rw [shows.root] at root
  refine root.bind ?_
  rcases seek_cases cuts with ⟨path, ends, -, order, smaller, greater⟩
    | ⟨focus, path, y, pre, post, ends, isRoot,
    order, zero, smaller⟩
  · have read := search heap shows
    rw [ends] at read
    have first : (beside .right path).find? (fun z => decide (probe z ≤ 0)) =
        (beside .right path).head? := by
      cases rest : beside .right path with
      | nil => rfl
      | cons z zs =>
          have less := greater z (rest ▸ List.mem_cons_self)
          rw [List.find?_cons, decide_eq_true (Int.le_of_lt less)]
          rfl
    rw [order, skips smaller, first]
    exact read
  · have read := search heap shows
    rw [ends] at read
    rw [order, skips smaller, List.find?_cons, decide_eq_true (le_of_eq zero)]
    cases focus with
    | leaf => cases isRoot
    | node c l x r =>
        cases isRoot
        exact read

/-! ## Ends and neighbours -/

/-- The first or the last element. -/
def endOf (s : Side) (elems : List Nat) : Option Nat :=
  match s with
  | .left => elems.head?
  | .right => elems.getLast?

/-- The elements on one side of an element. -/
def neighbour (s : Side) (pre post : List Nat) : Option Nat :=
  match s with
  | .left => pre.getLast?
  | .right => post.head?

/-- The way to the last element on one side. -/
theorem reads_outermost (head : Nat) (s : Side) (fuel : Nat) :
    forall (t : ColorTree Nat) (path : List (Frame Nat)),
    t ≠ .leaf -> t.height ≤ fuel -> Proper (plug path t) ->
      Exists fun way => Exists fun c => Exists fun x => Exists fun far =>
        t = plug way (branch s c .leaf x far) ∧ (forall f, f ∈ way -> f.side = s) ∧
          Reads (outermost s fuel (top t)) head (plug path t) x := by
  induction fuel with
  | zero =>
      intro t path node low
      cases t with
      | leaf => exact absurd rfl node
      | node c l x r => cases low
  | succ fuel inductionHypothesis =>
      intro t path node low proper
      rcases exists_branch s node with ⟨c, near, x, far, rfl⟩
      have read := reads_rbChild head path s c near far x
      rw [top_branch]
      by_cases leaf : near = .leaf
      · subst leaf
        exact ⟨[], c, x, far, rfl, (fun f impossible => by cases impossible),
          read.bind (reads_pure x head _)⟩
      · have inside : Proper (plug (⟨s, c, x, far⟩ :: path) near) := proper
        have nonzero := top_ne_zero inside leaf
        have lower : near.height ≤ fuel :=
          Nat.le_of_lt_succ (lt_of_lt_of_le (height_branch s c near x far) low)
        rcases inductionHypothesis near (⟨s, c, x, far⟩ :: path) leaf lower proper with
          ⟨way, c', x', far', rfl, straight, reads⟩
        refine ⟨way ++ [⟨s, c, x, far⟩], c', x', far', by rw [plug_append]; rfl,
          fun f member => ?_, read.bind ?_⟩
        · rcases List.mem_append.mp member with inWay | isLast
          · exact straight f inWay
          · rw [List.mem_singleton.mp isLast]
        · rw [if_neg nonzero]
          exact reads

/-- A straight way leads to the end. -/
theorem endOf_plug {way : List (Frame Nat)} (straight : forall f, f ∈ way -> f.side = s) :
    endOf s (plug way (branch s c .leaf x far)).elems = some x := by
  rw [elems_plug]
  cases s with
  | left =>
      rw [beside_eq_nil straight]
      rfl
  | right =>
      rw [beside_eq_nil straight, List.append_nil]
      change (_ ++ (far.elems ++ [x])).getLast? = some x
      rw [← List.append_assoc, List.getLast?_concat]

theorem reads_minmaxFrom (head : Nat) (s : Side) (fuel : Nat) :
    forall (t : ColorTree Nat) (path : List (Frame Nat))
    (parent : Nat), t.height < fuel -> Proper (plug path t) ->
      Reads (minmaxFrom s fuel (top t) parent) head (plug path t)
        ((endOf s t.elems).getD parent) := by
  induction fuel with
  | zero => exact fun t path parent impossible => absurd impossible (Nat.not_lt_zero _)
  | succ fuel inductionHypothesis =>
      intro t path parent enough proper
      by_cases node : t = .leaf
      · subst node
        cases s <;> exact reads_pure parent head _
      · have nonzero := top_ne_zero proper node
        rcases exists_branch s node with ⟨c, near, x, far, rfl⟩
        rw [top_branch] at nonzero ⊢
        have lower : near.height < fuel :=
          Nat.lt_of_succ_lt_succ (lt_of_le_of_lt (height_branch s c near x far) enough)
        have onward := inductionHypothesis near (⟨s, c, x, far⟩ :: path) x lower proper
        have same : (endOf s (branch s c near x far).elems).getD parent =
            (endOf s near.elems).getD x := by
          cases s with
          | left =>
              change (near.elems ++ x :: far.elems).head?.getD parent = near.elems.head?.getD x
              cases near.elems <;> rfl
          | right =>
              change (far.elems ++ x :: near.elems).getLast?.getD parent =
                near.elems.getLast?.getD x
              rw [List.getLast?_append, List.getLast?_cons]
              rfl
        rw [minmaxFrom, if_neg nonzero, same]
        exact (reads_rbChild head path s c near far x).bind onward

/-- `RB_MIN` and `RB_MAX`. -/
theorem runs_rbMinmax (val : Int) (shows : heap.Shows head t) (redBlack : RedBlack t)
    (enough : 2 * Nat.log 2 (t.elems.length + 1) < fuel) :
    Runs (rbMinmax fuel head val) heap ((endOf (if val < 0 then .left else .right) t.elems).getD 0)
      heap := by
  have high : t.height < fuel := lt_of_le_of_lt redBlack.height_le enough
  have search := reads_minmaxFrom head (if val < 0 then .left else .right) fuel t [] 0 high
    ⟨shows.distinct, shows.proper⟩
  have root := @runs_rbRoot heap head
  rw [shows.root] at root
  exact root.bind (search heap shows)

/-- What is beside the hole, on one side. -/
def besideHole (s : Side) (path : List (Frame Nat)) : Option Nat :=
  neighbour s (beside .left path) (beside .right path)

theorem besideHole_same {f : Frame Nat} (same : f.side = s) :
    besideHole s (f :: path) = besideHole s path := by
  rcases f with ⟨side, c, x, sibling⟩
  cases same
  cases side <;> rfl

theorem besideHole_other {f : Frame Nat} (other : f.side = s.other) :
    besideHole s (f :: path) = some f.elem := by
  rcases f with ⟨side, c, x, sibling⟩
  cases other
  cases s with
  | left =>
      change (beside .left path ++ (sibling.elems ++ [x])).getLast? = some x
      rw [← List.append_assoc, List.getLast?_concat]
  | right => rfl

theorem reads_ascend (s : Side) (path : List (Frame Nat)) : forall (t : ColorTree Nat) (fuel : Nat),
    path.length < fuel -> Proper (plug path t) -> t ≠ .leaf ->
      Reads (ascend s fuel (top t)) head (plug path t) ((besideHole s path).getD 0) := by
  induction path with
  | nil =>
      intro t fuel enough proper node
      rcases exists_branch s node with ⟨c, near, x, far, rfl⟩
      cases fuel with
      | zero => exact absurd enough (Nat.not_lt_zero _)
      | succ fuel =>
          rw [top_branch]
          refine (reads_rbParent head [] s c near far x).bind ?_
          have none : (besideHole s []).getD 0 = 0 := by cases s <;> rfl
          rw [none]
          exact reads_pure 0 head _
  | cons f path inductionHypothesis =>
      intro t fuel enough proper node
      rcases exists_branch s node with ⟨c, near, x, far, rfl⟩
      cases fuel with
      | zero => exact absurd enough (Nat.not_lt_zero _)
      | succ fuel =>
          have nonzero : f.elem ≠ 0 := fun zero => (proper_plug proper).2
            (List.mem_append_right _ (zero ▸ List.mem_cons_self))
          rcases reads_rbChild_above head s f proper (Or.inl node) with ⟨child, read, isSame⟩
          rw [top_branch] at isSame ⊢
          refine (reads_rbParent head (f :: path) s c near far x).bind ?_
          rw [above, if_neg nonzero]
          refine read.bind ?_
          by_cases same : f.side = s
          · have onward :=
              inductionHypothesis (branch f.side f.color (branch s c near x far) f.elem f.sibling)
                fuel
              (Nat.lt_of_succ_lt_succ enough) proper (branch_ne_leaf _ _ _ _ _)
            rw [top_branch] at onward
            rw [if_pos (isSame.mpr same), besideHole_same same]
            exact onward
          · rw [if_neg (fun equal => same (isSame.mp equal)),
              besideHole_other (Side.eq_other_of_ne same)]
            exact reads_pure f.elem head _

/-- `RB_NEXT` and `RB_PREV` lead to the neighbour in order. -/
theorem runs_rbStep (s : Side) {pre post : List Nat} (shows : heap.Shows head t)
    (redBlack : RedBlack t)
    (order : t.elems = pre ++ elm :: post) (enough : 2 * Nat.log 2 (t.elems.length + 1) < fuel) :
    Runs (rbStep s fuel elm) heap ((neighbour s pre post).getD 0) heap := by
  have high : t.height < fuel := lt_of_le_of_lt redBlack.height_le enough
  have member : elm ∈ t.elems := order ▸ List.mem_append_right _ List.mem_cons_self
  rcases exists_plug member with ⟨path, c, l, r, rfl⟩
  have proper : Proper (plug path (.node c l elm r)) := ⟨shows.distinct, shows.proper⟩
  -- the elements before and after are those of the children and of the path
  have split : pre = beside .left path ++ l.elems ∧ post = r.elems ++ beside .right path := by
    have distinct := shows.distinct
    rw [elems_around] at order distinct
    have parts := List.nodup_append.mp distinct
    have inj := (List.append_cons_inj_of_notMem
      (fun before => parts.2.2 elm before elm List.mem_cons_self rfl)
        (List.nodup_cons.mp parts.2.1).1).mp order
    exact ⟨inj.1.symm, inj.2.2.symm⟩
  rcases split with ⟨rfl, rfl⟩
  have long := length_add_height_le path (.node c l elm r)
  -- the child on this side, or the way up
  have step : forall near far : ColorTree Nat, branch s c near elm far = .node c l elm r ->
      (near = .leaf -> neighbour s (beside .left path ++ l.elems) (r.elems ++ beside .right path) =
        besideHole s path) ->
      (near ≠ .leaf -> neighbour s (beside .left path ++ l.elems) (r.elems ++ beside .right path) =
        endOf s.other near.elems) ->
      Runs (rbStep s fuel elm) heap
        ((neighbour s (beside .left path ++ l.elems) (r.elems ++ beside .right path)).getD 0)
            heap := by
    intro near far same up down
    have low := height_branch s c near elm far
    rw [same] at low
    rw [← same] at shows proper
    refine (reads_rbChild head path s c near far elm heap shows).bind ?_
    by_cases leaf : near = .leaf
    · rw [up leaf, leaf, top_leaf, if_pos rfl]
      refine (reads_rbParent head path s c near far elm heap shows).bind ?_
      have ascends := reads_ascend s path (branch s c near elm far) fuel (by omega) proper
        (branch_ne_leaf _ _ _ _ _) heap shows
      rw [top_branch] at ascends
      cases path with
      | nil =>
          have none : (besideHole s []).getD 0 = 0 := by cases s <;> rfl
          rw [none]
          exact runs_pure 0 heap
      | cons f path =>
          have nonzero : f.elem ≠ 0 := fun zero => (proper_plug proper).2
            (List.mem_append_right _ (zero ▸ List.mem_cons_self))
          rcases reads_rbChild_above head s.other f proper (Or.inl (branch_ne_leaf _ _ _ _ _)) with
            ⟨child, read, isSame⟩
          rw [top_branch] at isSame
          rw [above, if_neg nonzero]
          refine (read heap shows).bind ?_
          by_cases other : f.side = s.other
          · rw [if_pos (isSame.mpr other), besideHole_other other]
            exact runs_pure f.elem heap
          · rw [if_neg (fun equal => other (isSame.mp equal))]
            exact ascends
    · have inside : Proper (plug (⟨s, c, elm, far⟩ :: path) near) := proper
      rcases reads_outermost head s.other fuel near (⟨s, c, elm, far⟩ :: path) leaf (by omega)
          proper with
        ⟨way, c', x, far', rfl, straight, reads⟩
      rw [down leaf, endOf_plug straight, if_neg (top_ne_zero inside leaf)]
      exact reads heap shows
  cases s with
  | left =>
      refine step l r rfl (fun leaf => ?_) (fun node => ?_)
      · rw [leaf, elems, List.append_nil]
        rfl
      · change (beside .left path ++ l.elems).getLast? = l.elems.getLast?
        rcases exists_branch .right node with ⟨d, near, x, far, rfl⟩
        change (_ ++ (far.elems ++ x :: near.elems)).getLast? =
          (far.elems ++ x :: near.elems).getLast?
        rw [List.getLast?_append, List.getLast?_append, List.getLast?_cons]
        rfl
  | right =>
      refine step r l rfl (fun leaf => ?_) (fun node => ?_)
      · rw [leaf, elems, List.nil_append]
        rfl
      · change (r.elems ++ beside .right path).head? = r.elems.head?
        rcases exists_branch .left node with ⟨d, near, x, far, rfl⟩
        change ((near.elems ++ x :: far.elems) ++ _).head? = (near.elems ++ x :: far.elems).head?
        rw [List.head?_append, List.head?_append, List.head?_cons, Option.or_assoc]
        rfl

end Search

end Utils
end OsslScripts
