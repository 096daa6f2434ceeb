import OsslScripts.Foundation.OrderedTree
import OsslScripts.Utils.RbShape

namespace OsslScripts
namespace Utils

open Foundation
open Foundation.ColorTree

/-!
# Insertion

A new element hangs red below the place that the search has ended at.  While its
parent is red, the two colors are moved up or the three elements are turned, and
the black height of the subtree stays what the path awaits.
-/

section Coloring

variable {head x p g n fuel : Nat} {t a b sibling uncle : ColorTree Nat} {s side : Side}
  {path : List (Frame Nat)}

theorem turns_rbSetBlackred (c d : Color) : Turns (rbSetBlackred p g) head
    (plug path (branch s c (branch side d t p sibling) g uncle)) ()
    (plug path (branch s .red (branch side .black t p sibling) g uncle)) :=
  (turns_setRbColor head (⟨s, c, g, uncle⟩ :: path) side d t sibling p .black).bind
    (turns_setRbColor head path s c _ uncle g .red)

/-- A red uncle: the red color moves up to the grandparent. -/
theorem turns_insertColorTurn_up (red : ¬ uncle.IsBlack) :
    Turns (insertColorTurn s head x p g) head
      (plug (⟨side, .red, p, sibling⟩ :: ⟨s, .black, g, uncle⟩ :: path) t) g
      (plug path (branch s .red (branch side .black t p sibling) g uncle.blackened)) := by
  have node : uncle ≠ .leaf := by
    rintro rfl
    exact red trivial
  rcases exists_branch s node with ⟨c, near, u, far, rfl⟩
  refine (reads_rbChild_other head path s .black (branch side .red t p sibling) _ g).then ?_
  -- the uncle, with the path that leads to it
  have around : forall (d : Color) (brother : ColorTree Nat) (t : ColorTree Nat),
      plug (⟨s.other, d, g, brother⟩ :: path) t = plug path (branch s d brother g t) := by
    intro d brother t
    rw [plug, branch_other]
  have test :=
    reads_isRed head (⟨s.other, .black, g, branch side .red t p sibling⟩ :: path)
      (branch s c near u far)
  rw [around] at test
  refine test.then ?_
  rw [if_pos (decide_eq_true red), top_branch]
  have first :=
    turns_setRbColor head (⟨s.other, .black, g, branch side .red t p sibling⟩ :: path) s c near far
      u .black
  rw [around, around] at first
  rw [blackened_branch]
  exact first.bind ((turns_rbSetBlackred .black .red).bind (turns_pure g head _))

/-- A black uncle, and the element is on the outer side. -/
theorem turns_turnOut_outer (proper : Proper (plug (⟨s, .red, p, sibling⟩ :: path) t))
    (node : t ≠ .leaf) :
    Turns (turnOut s head p (top t)) head (plug (⟨s, .red, p, sibling⟩ :: path) t) (p, top t)
      (plug (⟨s, .red, p, sibling⟩ :: path) t) := by
  have parts := proper_plug proper
  have different : top t ≠ top sibling := by
    refine top_ne node (fun z member inSibling => ?_)
      (fun member => parts.2 (List.mem_append_left _ member))
    exact (List.nodup_append.mp parts.1).2.2 z member z
      (List.mem_append_left _ (List.mem_cons_of_mem _ inSibling)) rfl
  refine (reads_rbChild_other head path s .red t sibling p).then ?_
  rw [if_neg (Ne.symm different)]
  exact turns_pure _ head _

/-- A black uncle, and the element is on the inner side. -/
theorem turns_turnOut_inner : Turns (turnOut s head p x) head
    (plug (⟨s.other, .red, p, sibling⟩ :: path) (branch s .red a x b)) (x, p)
    (plug path (branch s .red (branch s .red sibling p a) x b)) := by
  have same : plug (⟨s.other, .red, p, sibling⟩ :: path) (branch s .red a x b) =
      plug path (branch s .red sibling p (branch s .red a x b)) := by rw [plug, branch_other]
  rw [same]
  have inner := reads_rbChild_other head path s .red sibling (branch s .red a x b) p
  rw [top_branch] at inner
  refine inner.then ?_
  rw [if_pos rfl]
  exact turns_rbRotate.bind (turns_pure _ head _)

/-- A black uncle: the red pair is turned, and the upper one becomes black. -/
theorem turns_insertColorTurn_black (black : uncle.IsBlack) {upper lower : Nat}
    {near far : ColorTree Nat}
    (out : Turns (turnOut s head p x) head
      (plug (⟨side, .red, p, sibling⟩ :: ⟨s, .black, g, uncle⟩ :: path) t)
      (upper, lower) (plug (⟨s, .black, g, uncle⟩ :: path) (branch s .red near upper far))) :
    Turns (insertColorTurn s head x p g) head
      (plug (⟨side, .red, p, sibling⟩ :: ⟨s, .black, g, uncle⟩ :: path) t) lower
      (plug path (branch s .black near upper (branch s .red far g uncle))) := by
  refine (reads_rbChild_other head path s .black (branch side .red t p sibling) uncle g).then ?_
  have test := reads_isRed head (⟨s.other, .black, g, branch side .red t p sibling⟩ :: path) uncle
  rw [plug, branch_other] at test
  refine test.then ?_
  rw [if_neg (fun isRed => (of_decide_eq_true isRed) black)]
  have turned := (@turns_rbSetBlackred head upper g near far uncle s s path .black .red)
  refine out.bind (turned.bind ?_)
  have rotation := @turns_rbRotate head g upper uncle far near s.other .red .black path
  simp only [branch_other] at rotation
  exact rotation.bind (turns_pure lower head _)

/-- What a turn leaves to do: a red element, closer to the root by one frame at least. -/
theorem turns_insertColorTurn (red : ¬ t.IsBlack) (balanced : Balanced t n)
    (holds : Holds (⟨side, .red, p, sibling⟩ :: ⟨s, .black, g, uncle⟩ :: path) n)
    (proper : Proper (plug (⟨side, .red, p, sibling⟩ :: ⟨s, .black, g, uncle⟩ :: path) t)) :
    Exists fun path' => Exists fun t' => Exists fun n' =>
      Turns (insertColorTurn s head (top t) p g) head
        (plug (⟨side, .red, p, sibling⟩ :: ⟨s, .black, g, uncle⟩ :: path) t) (top t')
          (plug path' t') ∧
      ¬ t'.IsBlack ∧ Balanced t' n' ∧ Holds path' n' ∧ path'.length ≤ path.length + 1 := by
  rcases holds with ⟨blackSibling, -, balancedSibling, balancedUncle, holds⟩
  by_cases black : uncle.IsBlack
  · by_cases outer : side = s
    · subst outer
      have node : t ≠ .leaf := fun leaf => red (leaf ▸ trivial)
      have turns :=
        turns_insertColorTurn_black black (@turns_turnOut_outer head _ _ _ _ _ proper node)
      refine ⟨⟨side, .black, p, branch side .red sibling g uncle⟩ :: path, t, n, turns, red,
        balanced,
        ⟨?_, holds⟩, Nat.le_refl _⟩
      exact balanced_red.mpr ⟨⟨blackSibling, black⟩, balancedSibling, balancedUncle⟩
    · have inner := Side.eq_other_of_ne outer
      subst inner
      rcases balanced.exists_red red s with ⟨a, x, b, rfl, ⟨blackA, blackB⟩, balancedA, balancedB⟩
      have out := @turns_turnOut_inner head x p a b sibling s (⟨s, .black, g, uncle⟩ :: path)
      have turns := turns_insertColorTurn_black (x := x) black out
      rw [top_branch]
      refine ⟨⟨s, .black, x, branch s .red b g uncle⟩ :: path, branch s .red sibling p a, n,
        ?_, ?_, ?_,
        ⟨?_, holds⟩, Nat.le_refl _⟩
      · rw [top_branch]
        exact turns
      · exact fun impossible => by cases isBlack_branch.mp impossible
      · exact balanced_red.mpr ⟨⟨blackSibling, blackA⟩, balancedSibling, balancedA⟩
      · exact balanced_red.mpr ⟨⟨blackB, black⟩, balancedB, balancedUncle⟩
  · refine ⟨path, branch s .red (branch side .black t p sibling) g uncle.blackened, n + 1, ?_, ?_,
      ?_, holds,
      Nat.le_succ _⟩
    · rw [top_branch]
      exact turns_insertColorTurn_up black
    · exact fun impossible => by cases isBlack_branch.mp impossible
    · exact balanced_red.mpr ⟨⟨isBlack_branch.mpr rfl, isBlack_blackened _⟩,
        balanced_black.mpr ⟨balanced, balancedSibling⟩, balancedUncle.blackened black⟩

/-- The root is black in the end. -/
theorem turns_blackenRoot (proper : Proper t) (node : t ≠ .leaf) :
    Turns (do let root ← rbRoot head; setRbColor root .black) head t () t.blackened := by
  rcases exists_branch .left node with ⟨c, near, x, far, rfl⟩
  refine (reads_rbRoot head _).then ?_
  rw [top_branch, blackened_branch]
  exact turns_setRbColor head [] .left c near far x .black

/-- A red element below a path that holds its tree makes a red-black tree. -/
theorem turns_rbInsertColor (fuel : Nat) :
    forall (path : List (Frame Nat)) (t : ColorTree Nat) (n : Nat),
    path.length < fuel -> ¬ t.IsBlack -> Balanced t n -> Holds path n -> Proper (plug path t) ->
      Exists fun t' =>
        RedBlack t' ∧ Turns (rbInsertColor fuel head (top t)) head (plug path t) () t' := by
  induction fuel with
  | zero => exact fun path t n impossible => absurd impossible (Nat.not_lt_zero _)
  | succ fuel inductionHypothesis =>
      intro path t n enough red balanced holds proper
      rcases balanced.exists_red red .left with ⟨a, x, b, rfl, -⟩
      have parent := reads_rbParent head path .left .red a b x
      have node := plug_ne_leaf path (branch_ne_leaf .left .red a x b)
      -- the loop ends at a black parent, or at the root
      have ends : (path = [] ∨ TakesRed path) -> Reads (isRed (above path)) head
          (plug path (branch .left .red a x b)) false ->
          Exists fun t' => RedBlack t' ∧
            Turns (rbInsertColor (fuel + 1) head x) head (plug path (branch .left .red a x b)) ()
                t' := by
        intro last test
        refine ⟨(plug path (branch .left .red a x b)).blackened, ?_, parent.then (test.then ?_)⟩
        · rcases last with rfl | takes
          · exact balanced.redBlack_blackened
          · have redBlack := holds.plug balanced (Or.inr takes)
            rwa [redBlack.blackened_eq]
        · rw [if_neg Bool.false_ne_true]
          exact turns_blackenRoot proper node
      rw [top_branch]
      cases path with
      | nil => exact ends (Or.inl rfl) (reads_pure false head _)
      | cons f path =>
          rcases f with ⟨side, c, p, sibling⟩
          have test := reads_isRed head path (branch side c (branch .left .red a x b) p sibling)
          rw [top_branch] at test
          cases c with
          | black =>
              rw [decide_eq_false (not_not_intro (isBlack_branch.mpr rfl))] at test
              exact ends (Or.inr rfl) test
          | red =>
              cases path with
              | nil => cases holds.2.1
              | cons g path =>
                  rcases g with ⟨s, c, g, uncle⟩
                  have isBlack : c = .black := holds.2.1
                  subst isBlack
                  have redParent :
                      ¬ (branch side .red (branch .left .red a x b) p sibling).IsBlack :=
                    fun black => by cases isBlack_branch.mp black
                  rw [decide_eq_true redParent] at test
                  rcases turns_insertColorTurn red balanced holds proper with
                    ⟨path', t', n', turn, red', balanced', holds', shorter⟩
                  have less : path'.length < fuel := by
                    simp only [List.length_cons] at enough
                    omega
                  rcases inductionHypothesis path' t' n' less red' balanced' holds'
                      (turn.proper proper) with
                    ⟨result, redBlack, onward⟩
                  have upper := reads_rbParent head (⟨s, .black, g, uncle⟩ :: path) side .red
                    (branch .left .red a x b) sibling p
                  rcases reads_rbChild_above head .left ⟨s, .black, g, uncle⟩ proper
                      (Or.inl (branch_ne_leaf _ _ _ _ _)) with
                    ⟨left, read, isLeft⟩
                  rw [top_branch] at isLeft turn
                  have whichSide : (if p = left then Side.left else .right) = s :=
                    Side.ite_eq isLeft
                  refine ⟨result, redBlack, parent.then (test.then ?_)⟩
                  rw [if_pos rfl]
                  refine upper.then (read.then ?_)
                  change Turns (do
                    let next ← insertColorTurn (if p = left then Side.left else .right) head x p g
                    rbInsertColor fuel head next) head _ () result
                  rw [whichSide]
                  exact turn.bind onward

end Coloring

section Insertion

variable {head elm fuel : Nat} {comp : Int} {probe : Nat -> Int} {cmp : Nat -> Nat -> Int}
  {t : ColorTree Nat} {path : List (Frame Nat)} {heap : RbHeap}

/-- The last comparison tells on which side the path goes on. -/
def Sided (comp : Int) : List (Frame Nat) -> Prop
  | [] => True
  | f :: _ => comp < 0 ↔ f.side = .left

/-- The loop of an insertion goes the way down that its probe takes. -/
theorem reads_insertSpot (proper : Proper (plug path t)) (enough : t.height < fuel)
    (sided : Sided comp path) :
    Exists fun spot =>
      Reads (insertSpot probe fuel (top t) (above path) comp) head (plug path t) spot ∧
      match (seek probe t path).1 with
      | .leaf => Exists fun comp' =>
          Sided comp' (seek probe t path).2 ∧ spot = .below (above (seek probe t path).2) comp'
      | .node _ _ y _ => spot = .found y := by
  induction t generalizing path comp fuel with
  | leaf =>
      cases fuel with
      | zero => exact absurd enough (Nat.not_lt_zero _)
      | succ fuel => exact ⟨_, reads_pure _ head _, comp, sided, rfl⟩
  | node c l x r left right =>
      cases fuel with
      | zero => exact absurd enough (Nat.not_lt_zero _)
      | succ fuel =>
          have nonzero : x ≠ 0 := fun zero => (proper_plug proper).2
            (List.mem_append_left _ (List.mem_append_right _ (zero ▸ List.mem_cons_self)))
          rw [height] at enough
          change Exists fun spot =>
            Reads (insertSpot probe (fuel + 1) x (above path) comp) head _ spot ∧ _
          rw [insertSpot, if_neg nonzero, seek]
          split_ifs with below greater
          · have onward := left (show Proper (plug (⟨.left, c, x, r⟩ :: path) l) from proper)
              (show l.height < fuel by omega) (iff_of_true below rfl)
            rcases onward with ⟨spot, reads, ends⟩
            exact ⟨spot, (reads_rbChild head path .left c l r x).bind reads, ends⟩
          · have onward := right (show Proper (plug (⟨.right, c, x, l⟩ :: path) r) from proper)
              (show r.height < fuel by omega)
              (iff_of_false below (fun impossible => by cases impossible))
            rcases onward with ⟨spot, reads, ends⟩
            exact ⟨spot, (reads_rbChild head path .right c r l x).bind reads, ends⟩
          · exact ⟨_, reads_pure _ head _, rfl⟩

/-- A new element hangs red where the path ends. -/
theorem runs_attach (shows : heap.Shows head (plug path .leaf))
    (fresh : elm ∉ (plug path .leaf).elems)
    (nonzero : elm ≠ 0) (sided : Sided comp path) :
    Exists fun heap' => Runs (attach head (above path) comp elm) heap () heap' ∧
      heap'.Shows head (plug path (.node .red .leaf elm .leaf)) ∧
      heap.Within heap' head (elm :: (plug path .leaf).elems) := by
  rcases shows_plug.mp shows with ⟨⟨leads, -⟩, distinct, proper⟩
  have perm := perm_plug path .leaf
  have outside : elm ∉ along path := fun member => fresh (perm.mem_iff.mpr member)
  let heap1 := heap.setEntry elm ⟨0, 0, above path, .red⟩
  have set : Runs (rbSet elm (above path)) heap () heap1 := runs_store nonzero _
  have leads1 : heap1.Leads head path 0 :=
    leads.same rfl (fun z member => entry_setEntry_ne (fun same => outside (same ▸ member)))
  -- the link that leads to the new element
  have link : Exists fun heap' => Runs (attach head (above path) comp elm) heap () heap' ∧
      heap'.Leads head path elm ∧ heap1.Within heap' head (along path) := by
    cases path with
    | nil =>
        refine ⟨_, set.bind (runs_setRbRoot head elm), rbhRoot_setRoot_self head, fun _ _ => rfl,
          fun other different => rbhRoot_setRoot_ne different⟩
    | cons f path =>
        rw [elems, List.nil_append] at distinct proper
        have nonzeroF : f.elem ≠ 0 := fun zero => proper (zero ▸ List.mem_cons_self)
        refine ⟨_, set.bind ?_, leads1.setChild elm distinct, fun z member => ?_, fun _ _ => rfl⟩
        · have ran := @runs_setRbChild heap1 _ elm f.side nonzeroF
          rw [above, if_neg nonzeroF]
          by_cases below : comp < 0
          · rw [if_pos below, ← sided.mp below]
            exact ran
          · rw [if_neg below, ← Side.eq_right_of_ne (mt sided.mpr below)]
            exact ran
        · exact entry_setEntry_ne (fun same => member (same ▸ List.mem_cons_self))
  rcases link with ⟨heap', ran, leads', within⟩
  refine ⟨heap', ran, shows_plug.mpr ⟨⟨leads', ?_, trivial, trivial⟩, ?_, ?_⟩, fun z member => ?_,
    within.rbhRoot⟩
  · exact (within.entry elm outside).trans entry_setEntry_self
  · exact List.nodup_cons.mpr ⟨outside, distinct⟩
  · intro member
    rcases List.mem_cons.mp member with zero | inAlong
    · exact nonzero zero.symm
    · exact proper inAlong
  · rw [List.mem_cons, not_or] at member
    have notAlong : z ∉ along path := fun inAlong => member.2 (perm.mem_iff.mpr inAlong)
    exact (within.entry z notAlong).trans (entry_setEntry_ne member.1)

/-- `RB_INSERT` inserts in order and keeps the tree red-black, or reports the equal element. -/
theorem runs_rbInsert (shows : heap.Shows head t) (redBlack : RedBlack t)
    (cuts : Cuts (cmp elm) t.elems)
    (nonzero : elm ≠ 0) (reflexive : elm ∈ t.elems -> cmp elm elm = 0)
    (enough : 2 * Nat.log 2 (t.elems.length + 1) < fuel) :
    Exists fun heap' => Exists fun t' =>
      Runs (rbInsert fuel cmp head elm) heap ((OrderedTree.insert cmp elm t.elems).2.getD 0) heap' ∧
      heap'.Shows head t' ∧ RedBlack t' ∧ t'.elems = (OrderedTree.insert cmp elm t.elems).1 ∧
      heap.Within heap' head (elm :: t.elems) := by
  have high : t.height < fuel := lt_of_le_of_lt redBlack.height_le enough
  have proper : Proper t := ⟨shows.distinct, shows.proper⟩
  have spec := @seek_spec _ _ _ [] cuts (fun z impossible => by cases impossible)
    (fun z impossible => by cases impossible)
  have whole := plug_seek (cmp elm) t []
  rcases @reads_insertSpot head _ 0 _ _ [] proper high trivial with
    ⟨spot, reads, ends⟩
  generalize seek (cmp elm) t [] = ending at spec whole ends
  rcases ending with ⟨focus, path⟩
  change plug path focus = t at whole
  subst whole
  rcases spec with ⟨smaller, greater, equal⟩
  have search : Runs (insertSpot (cmp elm) fuel (heap.rbhRoot head) 0 0) heap spot heap := by
    rw [shows.root]
    exact reads heap shows
  have order := elems_plug path focus
  cases focus with
  | node c l y r =>
      -- the element is refused
      rcases equal c l y r rfl with ⟨zero, below, above⟩
      have same : OrderedTree.insert cmp elm (plug path (.node c l y r)).elems =
          ((plug path (.node c l y r)).elems, some y) := by
        have split : (plug path (.node c l y r)).elems =
            (beside .left path ++ l.elems) ++ y :: (r.elems ++ beside .right path) := by
          rw [order, elems]
          simp only [List.append_assoc, List.cons_append]
        rw [split]
        refine insert_at (fun z member => ?_) zero
        rcases List.mem_append.mp member with inPath | inTree
        · exact smaller z inPath
        · exact below z inTree
      subst ends
      refine ⟨heap, _, ?_, shows, redBlack, by rw [same], heap.within_refl head _⟩
      rw [same]
      exact (runs_rbRoot head).bind (search.bind (runs_pure y heap))
  | leaf =>
      -- the element is new, and the tree is repaired from its place upwards
      rcases ends with ⟨comp, sided, rfl⟩
      rw [elems, List.append_nil] at order
      have fresh : elm ∉ (plug path leaf).elems := by
        intro member
        have zero := reflexive member
        rw [order] at member
        rcases List.mem_append.mp member with inLeft | inRight
        · exact ne_of_gt (smaller elm inLeft) zero
        · exact ne_of_lt (greater elm inRight) zero
      have same : OrderedTree.insert cmp elm (plug path leaf).elems =
          (beside .left path ++ elm :: beside .right path, none) := by
        rw [order]
        exact insert_between smaller greater
      rcases runs_attach shows fresh nonzero sided with ⟨heap1, attached, shows1, within1⟩
      have order1 : (plug path (.node .red .leaf elm .leaf)).elems =
          beside .left path ++ elm :: beside .right path := by
        rw [elems_plug]
        simp only [elems, List.nil_append, List.append_assoc, List.cons_append]
      rcases redBlack.unplug with ⟨n, balanced, holds, -⟩
      cases (show n = 0 from balanced)
      have short : path.length < fuel := lt_of_le_of_lt (length_add_height_le path .leaf) high
      have isRed : ¬ (ColorTree.node .red .leaf elm .leaf).IsBlack :=
        fun impossible => by cases impossible
      have balanced1 : Balanced (ColorTree.node .red .leaf elm .leaf) 0 :=
        ⟨⟨trivial, trivial⟩, rfl, rfl⟩
      rcases turns_rbInsertColor fuel path _ 0 short isRed balanced1 holds
        ⟨shows1.distinct, shows1.proper⟩ with ⟨t', redBlack', turns⟩
      rcases turns.runs heap1 shows1 with ⟨heap2, ran, shows2, within2⟩
      refine ⟨heap2, t', ?_, shows2, redBlack', ?_,
        within1.trans (within2.mono (fun z member => ?_))⟩
      · rw [same]
        refine (runs_rbRoot head).bind (search.bind ?_)
        exact attached.bind (ran.bind (runs_pure 0 heap2))
      · rw [turns.elems, order1, same]
      · rw [order1] at member
        rw [order]
        rcases List.mem_append.mp member with inLeft | inRight
        · exact List.mem_cons_of_mem _ (List.mem_append_left _ inLeft)
        · rcases List.mem_cons.mp inRight with rfl | after
          · exact List.mem_cons_self
          · exact List.mem_cons_of_mem _ (List.mem_append_right _ after)

end Insertion

end Utils
end OsslScripts
