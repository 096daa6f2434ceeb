import OsslScripts.Utils.RbSearch

namespace OsslScripts
namespace Utils

open Foundation
open Foundation.ColorTree

/-!
# Removal

A black node that goes away leaves one side of its parent short.  The short side
moves up while the sibling can spare a black node, and is made up for by a rotation
where it can not.
-/

section Coloring

variable {head p n fuel : Nat} {t sibling : ColorTree Nat} {s : Side} {c : Color}
  {path : List (Frame Nat)}

/-- The sibling, with the path that leads to it. -/
theorem plug_other (t : ColorTree Nat) : plug (⟨s.other, c, p, t⟩ :: path) sibling =
    plug (⟨s, c, p, sibling⟩ :: path) t := by
  rw [plug, plug, branch_other]

/-- A child of the sibling, with the path that leads to it. -/
theorem plug_inside (s' : Side) (d : Color) (y : Nat) (u far : ColorTree Nat) :
    plug (⟨s', d, y, far⟩ :: ⟨s.other, c, p, t⟩ :: path) u =
      plug (⟨s, c, p, branch s' d u y far⟩ :: path) t :=
  plug_other t

/-- The short side gets a black sibling. -/
theorem turns_blackSibling (holds : Holds (⟨s, c, p, sibling⟩ :: path) (n + 1)) :
    Exists fun path' => Exists fun c' => Exists fun sibling' =>
      Turns (blackSibling s head p) head (plug (⟨s, c, p, sibling⟩ :: path) t) (top sibling')
        (plug (⟨s, c', p, sibling'⟩ :: path') t) ∧
      sibling'.IsBlack ∧ Holds (⟨s, c', p, sibling'⟩ :: path') (n + 1) ∧
      (c' = .black -> path'.length = path.length) := by
  have balanced : Balanced sibling (n + 1) := by
    cases c with
    | red => exact holds.2.2.1
    | black => exact holds.1
  have first := reads_rbChild_other head path s c t sibling p
  have color : forall d near y far, sibling = branch s d near y far ->
      Reads (rbColor y) head (plug (⟨s, c, p, sibling⟩ :: path) t) d := by
    rintro d near y far rfl
    rw [← plug_other]
    exact reads_rbColor head _ s d near far y
  by_cases black : sibling.IsBlack
  · rcases balanced.exists_black black s with ⟨near, y, far, rfl, -⟩
    refine ⟨path, c, _, first.then ?_, black, holds, fun _ => rfl⟩
    rw [top_branch]
    refine (color .black near y far rfl).then ?_
    rw [if_neg (fun impossible => by cases impossible)]
    exact turns_pure y head _
  · rcases balanced.exists_red black s with
      ⟨near, y, far, rfl, ⟨blackNear, blackFar⟩, balancedNear, balancedFar⟩
    cases c with
    | red => exact absurd holds.1 black
    | black =>
        -- the red sibling comes up, and its inner child takes its place
        have blackred : Turns (rbSetBlackred y p) head
            (plug (⟨s, .black, p, branch s .red near y far⟩ :: path) t) ()
            (plug path (branch s .red t p (branch s .black near y far))) := by
          have upper :=
            turns_setRbColor head (⟨s.other, .black, p, t⟩ :: path) s .red near far y .black
          rw [plug_other, plug_other] at upper
          exact upper.bind
            (turns_setRbColor head path s .black t (branch s .black near y far) p .red)
        have rotation := @turns_rbRotate head p y t near far s .red .black path
        have last := reads_rbChild_other head (⟨s, .black, y, far⟩ :: path) s .red t near p
        refine ⟨⟨s, .black, y, far⟩ :: path, .red, near, first.then ?_, blackNear,
          ⟨blackNear, rfl, balancedNear, balancedFar, holds.2⟩,
            fun impossible => by cases impossible⟩
        rw [top_branch]
        refine (color .red near y far rfl).then ?_
        rw [if_pos rfl]
        exact blackred.bind (rotation.bind last.turns)

/-- Both children are looked at, the left one first. -/
theorem reads_bothBlack (head : Nat) (path : List (Frame Nat)) (s : Side) (c : Color)
    (near far : ColorTree Nat)
    (y : Nat) : Reads (bothBlack y) head (plug path (branch s c near y far))
      (decide (near.IsBlack ∧ far.IsBlack)) := by
  have inOrder : forall l r : ColorTree Nat,
      Reads (bothBlack y) head (plug path (.node c l y r)) (decide (l.IsBlack ∧ r.IsBlack)) := by
    intro l r
    refine (reads_rbChild head path .left c l r y).bind
      ((reads_isBlack head (⟨.left, c, y, r⟩ :: path) l).bind ?_)
    by_cases black : l.IsBlack
    · rw [if_pos (decide_eq_true black), decide_eq_decide.mpr (and_iff_right black)]
      exact (reads_rbChild head path .right c r l y).bind
        (reads_isBlack head (⟨.right, c, y, l⟩ :: path) r)
    · rw [if_neg (fun impossible => black (of_decide_eq_true impossible)),
        decide_eq_false (fun both => black both.1)]
      exact reads_pure false head _
  cases s with
  | left => exact inOrder near far
  | right =>
      rw [decide_eq_decide.mpr (and_comm (a := near.IsBlack))]
      exact inOrder far near

/-- A black sibling with a red child gets one on the outer side. -/
theorem turns_redOutside {near far : ColorTree Nat} {y : Nat} (balancedNear : Balanced near n)
    (balancedFar : Balanced far n) (notBoth : ¬ (near.IsBlack ∧ far.IsBlack))
    (proper : Proper (plug (⟨s, c, p, branch s .black near y far⟩ :: path) t)) :
    Exists fun near' => Exists fun y' => Exists fun far' =>
      Turns (redOutside s head p y) head (plug (⟨s, c, p, branch s .black near y far⟩ :: path) t) y'
        (plug (⟨s, c, p, branch s .black near' y' far'⟩ :: path) t) ∧
      Balanced near' n ∧ Balanced far' n ∧ ¬ far'.IsBlack := by
  have outer := reads_rbChild_other head (⟨s.other, c, p, t⟩ :: path) s .black near far y
  have test := reads_isBlack head (⟨s.other, .black, y, near⟩ :: ⟨s.other, c, p, t⟩ :: path) far
  rw [plug_other] at outer
  rw [plug_inside, branch_other] at test
  by_cases black : far.IsBlack
  · have red : ¬ near.IsBlack := fun blackNear => notBoth ⟨blackNear, black⟩
    rcases balancedNear.exists_red red s with ⟨a, z, b, rfl, ⟨blackA, blackB⟩, balancedA, balancedB⟩
    have inner :=
      reads_rbChild head (⟨s.other, c, p, t⟩ :: path) s .black (branch s .red a z b) far y
    have blackens :=
      turns_blacken head (⟨s, .black, y, far⟩ :: ⟨s.other, c, p, t⟩ :: path) (branch s .red a z b)
      (by rwa [plug_inside])
    have reddens :=
      turns_setRbColor head (⟨s.other, c, p, t⟩ :: path) s .black (branch s .black a z b) far y .red
    have rotation :=
      @turns_rbRotate head y z far b a s.other .red .black (⟨s.other, c, p, t⟩ :: path)
    have last := reads_rbChild_other head path s c t (branch s .black a z (branch s .red b y far)) p
    simp only [branch_other, plug_other] at inner reddens rotation
    rw [blackened_branch, plug_inside, plug_inside] at blackens
    refine ⟨a, z, branch s .red b y far, outer.then (test.then ?_), balancedA,
      balanced_red.mpr ⟨⟨blackB, black⟩, balancedB, balancedFar⟩, fun impossible => by
        cases isBlack_branch.mp impossible⟩
    rw [if_pos (decide_eq_true black)]
    rw [top_branch] at last
    exact inner.then (blackens.bind (reddens.bind (rotation.bind last.turns)))
  · refine ⟨near, y, far, outer.then (test.then ?_), balancedNear, balancedFar, black⟩
    rw [if_neg (fun impossible => black (of_decide_eq_true impossible))]
    exact turns_pure y head _

/-- What a turn leaves to do: a short tree further up, or nothing. -/
theorem turns_removeColorTurn (balanced : Balanced t n)
    (holds : Holds (⟨s, c, p, sibling⟩ :: path) (n + 1))
    (proper : Proper (plug (⟨s, c, p, sibling⟩ :: path) t)) :
    (Exists fun path' => Exists fun t' =>
      Turns (removeColorTurn s head p) head (plug (⟨s, c, p, sibling⟩ :: path) t) (some (top t'))
        (plug path' t') ∧
      t' ≠ .leaf ∧ (¬ t'.IsBlack ∧ Balanced t'.blackened (n + 1) ∧ Holds path' (n + 1) ∨
        t'.IsBlack ∧ Balanced t' (n + 1) ∧ Holds path' (n + 2) ∧ path'.length = path.length)) ∨
    Exists fun t' =>
      Turns (removeColorTurn s head p) head (plug (⟨s, c, p, sibling⟩ :: path) t) none t' ∧
        t' ≠ .leaf ∧ RedBlack t' := by
  rcases @turns_blackSibling head _ _ t _ _ _ _ holds with
    ⟨path', c', sibling', turned, black', holds', shorter⟩
  have proper' := turned.proper proper
  have balanced' : Balanced sibling' (n + 1) := by
    cases c' with
    | red => exact holds'.2.2.1
    | black => exact holds'.1
  rcases balanced'.exists_black black' s with ⟨near, y, far, rfl, balancedNear, balancedFar⟩
  rw [top_branch] at turned
  have test := reads_bothBlack head (⟨s.other, c', p, t⟩ :: path') s .black near far y
  rw [plug_other] at test
  by_cases both : near.IsBlack ∧ far.IsBlack
  · -- the sibling can spare a black node
    have reddens := turns_setRbColor head (⟨s.other, c', p, t⟩ :: path') s .black near far y .red
    rw [plug_other, plug_other] at reddens
    have balancedSibling : Balanced (branch s .red near y far) n :=
      balanced_red.mpr ⟨both, balancedNear, balancedFar⟩
    refine Or.inl ⟨path', branch s c' t p (branch s .red near y far), turned.bind (test.then ?_),
      branch_ne_leaf _ _ _ _ _, ?_⟩
    · rw [if_pos (decide_eq_true both), top_branch]
      exact reddens.bind (turns_pure _ head _)
    · cases c' with
      | red =>
          rw [blackened_branch]
          exact Or.inl ⟨(fun impossible => by cases isBlack_branch.mp impossible),
            balanced_black.mpr ⟨balanced, balancedSibling⟩, holds'.2.2.2⟩
      | black =>
          exact Or.inr ⟨isBlack_branch.mpr rfl, balanced_black.mpr ⟨balanced, balancedSibling⟩,
            holds'.2, shorter rfl⟩
  · -- a red child of the sibling makes up for it
    rcases @turns_redOutside head _ _ t _ _ _ _ _ _ balancedNear balancedFar both proper' with
      ⟨near', y', far', outside, balancedNear', balancedFar', redFar⟩
    have color := reads_rbColor head path' s c' t (branch s .black near' y' far') p
    have first := turns_setRbColor head (⟨s.other, c', p, t⟩ :: path') s .black near' far' y' c'
    rw [plug_other, plug_other] at first
    have second := turns_setRbColor head path' s c' t (branch s c' near' y' far') p .black
    have outer := reads_rbChild_other head (⟨s.other, .black, p, t⟩ :: path') s c' near' far' y'
    rw [plug_other] at outer
    have third :=
      turns_blacken head (⟨s.other, c', y', near'⟩ :: ⟨s.other, .black, p, t⟩ :: path') far' (by
      rw [plug_inside, branch_other]
      exact second.proper (first.proper (outside.proper proper')))
    simp only [plug_inside, branch_other] at third
    have last := @turns_rbRotate head p y' t near' far'.blackened s .black c' path'
    refine Or.inr ⟨plug path' (branch s c' (branch s .black t p near') y' far'.blackened),
      turned.bind (test.then ?_), ?_, ?_⟩
    · rw [if_neg (fun impossible => both (of_decide_eq_true impossible))]
      exact outside.bind (color.then (first.bind (second.bind (outer.then (third.bind
        (last.bind (turns_pure none head _)))))))
    · exact plug_ne_leaf path' (branch_ne_leaf _ _ _ _ _)
    · have blackFar := balancedFar'.blackened redFar
      have blackNear : Balanced (branch s .black t p near') (n + 1) :=
        balanced_black.mpr ⟨balanced, balancedNear'⟩
      cases c' with
      | red =>
          refine holds'.2.2.2.plug
            (balanced_red.mpr ⟨⟨isBlack_branch.mpr rfl, isBlack_blackened _⟩, blackNear,
            blackFar⟩) (Or.inr holds'.2.1)
      | black =>
          exact holds'.2.plug (balanced_black.mpr ⟨blackNear, blackFar⟩)
            (Or.inl (isBlack_branch.mpr rfl))

/-- The root is not on the short side. -/
theorem top_plug_ne {f : Frame Nat} (proper : Proper (plug (f :: path) t)) :
    top t ≠ top (plug (f :: path) t) := by
  have parts := proper_plug proper
  have member : top (plug (f :: path) t) ∈ along (f :: path) := top_plug_mem f path t
  intro same
  by_cases leaf : t = .leaf
  · rw [leaf, top_leaf] at same
    exact parts.2 (List.mem_append_right _ (by rw [leaf, ← same] at member; exact member))
  · exact (List.nodup_append.mp parts.1).2.2 _ (top_mem leaf) _ member same

/-- A short tree below a path that awaits one of greater black height makes a red-black tree. -/
theorem turns_rbRemoveColor (fuel : Nat) :
    forall (path : List (Frame Nat)) (t : ColorTree Nat) (n : Nat),
    (¬ t.IsBlack ∧ Balanced t.blackened (n + 1) ∧ 0 < fuel ∨
      t.IsBlack ∧ Balanced t n ∧ path.length + 1 < fuel) ->
      Holds path (n + 1) -> Proper (plug path t) ->
        Exists fun t' => RedBlack t' ∧
          Turns (rbRemoveColor fuel head (above path) (top t)) head (plug path t) () t' := by
  induction fuel with
  | zero =>
      rintro path t n (⟨-, -, impossible⟩ | ⟨-, -, impossible⟩)
      · exact absurd impossible (Nat.not_lt_zero _)
      · exact absurd impossible (Nat.not_lt_zero _)
  | succ fuel inductionHypothesis =>
      intro path t n short holds proper
      have test := reads_isBlack head path t
      have root := reads_rbRoot head (plug path t)
      rcases short with ⟨red, balanced, -⟩ | ⟨black, balanced, enough⟩
      · -- a red tree becomes black
        refine ⟨plug path t.blackened, holds.plug balanced (Or.inl (isBlack_blackened t)),
          test.then (root.then ?_)⟩
        rw [if_neg (fun both => red (of_decide_eq_true both.1))]
        exact turns_blacken head path t proper
      · cases path with
        | nil =>
            refine ⟨t, ⟨black, n, balanced⟩, test.then (root.then ?_)⟩
            rw [if_neg (fun both => both.2 rfl)]
            have blackens := turns_blacken head [] t proper
            rwa [blackened_of_isBlack black] at blackens
        | cons f path =>
            rcases f with ⟨s, c, p, sibling⟩
            have balancedSibling : Balanced sibling (n + 1) := by
              cases c with
              | red => exact holds.2.2.1
              | black => exact holds.1
            rcases reads_rbChild_above head .left ⟨s, c, p, sibling⟩ proper
                (Or.inr balancedSibling.ne_leaf) with
              ⟨left, read, isLeft⟩
            have whichSide : (if left = top t then Side.left else .right) = s :=
              Side.ite_eq (eq_comm.trans isLeft)
            have goesOn : (decide t.IsBlack = true ∧ top t ≠
                top (plug (⟨s, c, p, sibling⟩ :: path) t)) :=
              ⟨decide_eq_true black, top_plug_ne proper⟩
            have start : forall {result : ColorTree Nat} {next : Option Nat},
                Turns (removeColorTurn s head p) head (plug (⟨s, c, p, sibling⟩ :: path) t)
                  next result ->
                forall {t'}, Turns (next.elim
                    (do
                      let root ← rbRoot head
                      blacken root)
                    (fun elm => do
                      let parent ← rbParent elm
                      rbRemoveColor fuel head parent elm)) head result () t' ->
                  Turns (rbRemoveColor (fuel + 1) head p (top t)) head
                      (plug (⟨s, c, p, sibling⟩ :: path) t) () t' := by
              intro result next turn t' onward
              refine test.then (root.then ?_)
              rw [if_pos goesOn]
              refine read.then ?_
              rw [whichSide]
              cases next with
              | none => exact turn.bind onward
              | some elm => exact turn.bind onward
            rcases @turns_removeColorTurn head _ _ _ _ _ _ _ balanced holds proper with
              ⟨path', t', turn, node, left⟩ | ⟨t', turn, node, redBlack⟩
            · have parent : Reads (rbParent (top t')) head (plug path' t') (above path') := by
                rcases exists_branch .left node with ⟨c, near, x, far, rfl⟩
                rw [top_branch]
                exact reads_rbParent head path' .left c near far x
              have proper' := turn.proper proper
              rw [List.length_cons] at enough
              rcases left with ⟨red, balanced', holds'⟩ | ⟨black', balanced', holds', shorter⟩
              · rcases inductionHypothesis path' t' n (Or.inl ⟨red, balanced', by omega⟩) holds'
                    proper' with
                  ⟨result, redBlack, onward⟩
                exact ⟨result, redBlack, start turn (parent.then onward)⟩
              · rcases inductionHypothesis path' t' (n + 1) (Or.inr ⟨black', balanced', by omega⟩)
                    holds' proper' with
                  ⟨result, redBlack, onward⟩
                exact ⟨result, redBlack, start turn (parent.then onward)⟩
            · have blackens := turns_blacken head [] t' (turn.proper proper)
              rw [redBlack.blackened_eq] at blackens
              exact ⟨t', redBlack, start turn ((reads_rbRoot head t').then blackens)⟩

end Coloring

section Removal

variable {head fuel n elm old : Nat} {t l r : ColorTree Nat} {s : Side} {c : Color}
  {path : List (Frame Nat)}
  {heap : RbHeap}

/-- What is left when a node of this color has gone, and its subtree `t` is in its place. -/
def Vacated (c : Color) (path : List (Frame Nat)) (t : ColorTree Nat) : Prop :=
  Exists fun n => Balanced t n ∧
    match c with
    | .red => t.IsBlack ∧ Holds path n
    | .black => Holds path (n + 1)

theorem turns_finishRemove (vacated : Vacated c path t) (enough : path.length + 1 < fuel)
    (proper : Proper (plug path t)) : Exists fun t' => RedBlack t' ∧
      Turns (finishRemove fuel head c (above path) (top t)) head (plug path t) () t' := by
  rcases vacated with ⟨n, balanced, holds⟩
  cases c with
  | red => exact ⟨plug path t, holds.2.plug balanced (Or.inl holds.1), turns_pure () head _⟩
  | black =>
      refine turns_rbRemoveColor fuel path t n ?_ holds proper
      by_cases black : t.IsBlack
      · exact Or.inr ⟨black, balanced, enough⟩
      · exact Or.inl ⟨black, balanced.blackened black, by omega⟩

/-- A node with one subtree at most can go. -/
theorem vacated_of_redBlack (redBlack : RedBlack (plug path (branch s c .leaf elm t))) :
    Vacated c path t := by
  rcases redBlack.unplug with ⟨n, balanced, holds, -⟩
  cases c with
  | red =>
      have below := balanced_red.mp balanced
      exact ⟨n, below.2.2, below.1.2, holds⟩
  | black =>
      cases n with
      | zero => exact absurd balanced not_balanced_black_zero
      | succ n => exact ⟨n, (balanced_black.mp balanced).2, holds⟩

/-- A node with one subtree at most is unlinked, and its own links stay. -/
theorem runs_unlink (shows : heap.Shows head (plug path (branch s c .leaf elm t))) :
    Exists fun heap' =>
      Runs (unlink head (above path) elm (top t)) heap () heap' ∧
      heap'.Shows head (plug path t) ∧ heap.Within heap' head (plug path t).elems ∧
      heap'.entry elm = heap.entry elm := by
  rcases shows_plug.mp shows with ⟨⟨leads, owns⟩, distinct, proper⟩
  rw [top_branch] at leads
  have ownsT := (owns_branch.mp owns).2.2
  have spread : ((branch s c .leaf elm t).elems ++ along path).Perm
      (elm :: (t.elems ++ along path)) :=
    (perm_branch s c .leaf elm t).append_right _
  have parts := List.nodup_cons.mp (spread.nodup_iff.mp distinct)
  have properElm : elm ≠ 0 := fun zero => proper (spread.mem_iff.mpr (zero ▸ List.mem_cons_self))
  have properRest : 0 ∉ t.elems ++ along path :=
    fun member => proper (spread.mem_iff.mpr (List.mem_cons_of_mem _ member))
  have outside : elm ∉ along path := fun member => parts.1 (List.mem_append_right _ member)
  rcases List.nodup_append.mp parts.2 with ⟨distinctT, distinctPath, apart⟩
  rcases runs_adopt (x := above path) distinctT
      (fun member => properRest (List.mem_append_left _ member)) heap with
    ⟨heap1, adopted, owns1, elsewhere1, roots1⟩
  have leads1 : heap1.Leads head path elm :=
    leads.same (congrFun roots1 head)
      (fun z member => elsewhere1 z (fun inTree => apart z inTree z member rfl))
  rcases runs_replaceChild (top t) leads1 distinctPath
    (fun member => properRest (List.mem_append_right _ member)) outside properElm with
    ⟨heap2, replaced, leads2, within2⟩
  have perm := perm_plug path t
  refine ⟨heap2, adopted.bind replaced, shows_plug.mpr ⟨⟨leads2, ?_⟩, parts.2, properRest⟩,
    ⟨fun z member => ?_, fun other different => ?_⟩, ?_⟩
  · exact (owns1 _ ownsT).same
      (fun z member => within2.entry z (fun inPath => apart z member z inPath rfl))
  · have notIn : z ∉ t.elems ++ along path := fun inside => member (perm.mem_iff.mpr inside)
    rw [List.mem_append, not_or] at notIn
    exact (within2.entry z notIn.2).trans (elsewhere1 z notIn.1)
  · exact (within2.rbhRoot other different).trans (congrFun roots1 other)
  · exact (within2.entry elm outside).trans
      (elsewhere1 elm (fun inTree => parts.1 (List.mem_append_left _ inTree)))

/-- `RB_REMOVE` of an element with one child at most. -/
theorem runs_removeSingle (shows : heap.Shows head (plug path (branch s c .leaf elm t)))
    (redBlack : RedBlack (plug path (branch s c .leaf elm t))) (enough : path.length + 1 < fuel) :
    Exists fun heap' => Exists fun t' => Runs (removeSingle fuel head elm (top t)) heap () heap' ∧
      heap'.Shows head t' ∧ RedBlack t' ∧ t'.elems = (plug path t).elems ∧
      heap.Within heap' head (plug path t).elems := by
  have parent := reads_rbParent head path s c .leaf t elm heap shows
  have color := reads_rbColor head path s c .leaf t elm heap shows
  rcases runs_unlink shows with ⟨heap1, unlinked, shows1, within1, -⟩
  rcases turns_finishRemove (vacated_of_redBlack redBlack) enough
    ⟨shows1.distinct, shows1.proper⟩ with ⟨t', redBlack', turns⟩
  rcases turns.runs heap1 shows1 with ⟨heap2, ran, shows2, within2⟩
  refine ⟨heap2, t', ?_, shows2, redBlack', turns.elems, within1.trans within2⟩
  exact parent.bind (color.bind (unlinked.bind ran))

/-- An element from elsewhere takes the place of one with a left child. -/
theorem runs_takePlace (shows : heap.Shows head (plug path (.node c l old r))) (node : l ≠ .leaf)
    (fresh : elm ∉ (plug path (.node c l old r)).elems) (nonzero : elm ≠ 0) :
    Exists fun heap' => Runs (takePlace head old elm) heap () heap' ∧
      heap'.Shows head (plug path (.node c l elm r)) ∧
      heap.Within heap' head (elm :: (plug path (.node c l old r)).elems) := by
  rcases shows_plug.mp shows with ⟨⟨leads, entry, ownsL, ownsR⟩, distinct, proper⟩
  have perm := perm_plug path (.node c l old r)
  have spread : ((ColorTree.node c l old r).elems ++ along path).Perm
      (old :: (l.elems ++ (r.elems ++ along path))) := by
    have front := (perm_branch .left c l old r).append_right (along path)
    rwa [List.cons_append, List.append_assoc] at front
  have spread' : ((ColorTree.node c l elm r).elems ++ along path).Perm
      (elm :: (l.elems ++ (r.elems ++ along path))) := by
    have front := (perm_branch .left c l elm r).append_right (along path)
    rwa [List.cons_append, List.append_assoc] at front
  have fresh' := mt (fun member => perm.mem_iff.mpr (spread.mem_iff.mpr member)) fresh
  have distinct' := spread.nodup_iff.mp distinct
  have proper' := mt spread.mem_iff.mpr proper
  simp only [List.nodup_cons, List.nodup_append, List.mem_cons, List.mem_append,
    not_or] at distinct' proper' fresh'
  rcases distinct' with
    ⟨⟨oldL, oldR, oldPath⟩, distinctL, ⟨distinctR, distinctPath, apartR⟩, apartL⟩
  rcases proper' with ⟨notOld, notL, notR, notPath⟩
  rcases fresh' with ⟨elmOld, elmL, elmR, elmPath⟩
  have nonzeroOld : old ≠ 0 := Ne.symm notOld
  -- the new element has the links of the old one
  let heap1 := heap.setEntry elm ⟨top l, top r, above path, c⟩
  have elsewhere1 : forall z, z ≠ elm -> heap1.entry z = heap.entry z :=
    fun z different => entry_setEntry_ne different
  have entry1 : heap1.entry old = ⟨top l, top r, above path, c⟩ :=
    (elsewhere1 old (Ne.symm elmOld)).trans entry
  have first : Runs (load old) heap ⟨top l, top r, above path, c⟩ heap := by
    have ran := @runs_load heap _ nonzeroOld
    rwa [entry] at ran
  have second : Runs (store elm (fun _ => ⟨top l, top r, above path, c⟩)) heap () heap1 :=
    runs_store nonzero _
  have third : Runs (rbParent old) heap1 (above path) heap1 := by
    have ran := @runs_rbParent heap1 _ nonzeroOld
    rwa [entry1] at ran
  -- the path leads to it
  have leads1 : heap1.Leads head path old :=
    leads.same rfl (fun z member => elsewhere1 z (fun same => elmPath (same ▸ member)))
  rcases runs_replaceChild elm leads1 distinctPath notPath oldPath nonzeroOld with
    ⟨heap2, fourth, leads2, within2⟩
  have entry2 : heap2.entry old = ⟨top l, top r, above path, c⟩ :=
    (within2.entry old oldPath).trans entry1
  have fifth : Runs (rbLeft old) heap2 (top l) heap2 := by
    have ran := @runs_rbLeft heap2 _ nonzeroOld
    rwa [entry2] at ran
  -- the subtrees hang below it
  have nonzeroL : top l ≠ 0 := fun zero => notL (zero ▸ top_mem node)
  rcases runs_adopt (x := elm) distinctL notL heap2 with ⟨heap3, sixth, owns3, elsewhere3, roots3⟩
  rw [adopt, if_neg nonzeroL] at sixth
  have entry3 : heap3.entry old = ⟨top l, top r, above path, c⟩ :=
    (elsewhere3 old oldL).trans entry2
  have seventh : Runs (rbRight old) heap3 (top r) heap3 := by
    have ran := @runs_rbRight heap3 _ nonzeroOld
    rwa [entry3] at ran
  rcases runs_adopt (x := elm) distinctR notR heap3 with ⟨heap4, eighth, owns4, elsewhere4, roots4⟩
  have through : forall z, z ∉ along path -> z ∉ l.elems -> z ∉ r.elems ->
      heap4.entry z = heap1.entry z :=
    fun z notPath notL notR =>
      (elsewhere4 z notR).trans ((elsewhere3 z notL).trans (within2.entry z notPath))
  refine ⟨heap4, first.bind
    (second.bind (third.bind (fourth.bind (fifth.bind (sixth.bind (seventh.bind eighth)))))),
    shows_plug.mpr ⟨⟨?_, ?_, ?_, ?_⟩, ?_, ?_⟩, fun z outside => ?_, fun other different => ?_⟩
  · refine leads2.same ((congrFun roots4 head).trans (congrFun roots3 head)) (fun z member => ?_)
    have notL : z ∉ l.elems := fun inL => apartL z inL z (Or.inr member) rfl
    have notR : z ∉ r.elems := fun inR => apartR z inR z member rfl
    exact (elsewhere4 z notR).trans (elsewhere3 z notL)
  · exact (through elm elmPath elmL elmR).trans entry_setEntry_self
  · refine (owns3 old (ownsL.same (fun z member => ?_))).same
      (fun z member => elsewhere4 z (fun inR => apartL z member z (Or.inl inR) rfl))
    have notPath : z ∉ along path := fun inPath => apartL z member z (Or.inr inPath) rfl
    exact (within2.entry z notPath).trans (elsewhere1 z (fun same => elmL (same ▸ member)))
  · refine owns4 old (ownsR.same (fun z member => ?_))
    have notL : z ∉ l.elems := fun inL => apartL z inL z (Or.inl member) rfl
    have notPath : z ∉ along path := fun inPath => apartR z member z inPath rfl
    exact (elsewhere3 z notL).trans ((within2.entry z notPath).trans
      (elsewhere1 z (fun same => elmR (same ▸ member))))
  · refine spread'.nodup_iff.mpr
      (List.nodup_cons.mpr ⟨?_, (List.nodup_cons.mp (spread.nodup_iff.mp distinct)).2⟩)
    simp only [List.mem_append, not_or]
    exact ⟨elmL, elmR, elmPath⟩
  · intro member
    rcases List.mem_cons.mp (spread'.mem_iff.mp member) with zero | inside
    · exact nonzero zero.symm
    · exact proper (spread.mem_iff.mpr (List.mem_cons_of_mem _ inside))
  · have apart := List.mem_cons.not.mp outside
    rw [not_or, perm.mem_iff, spread.mem_iff] at apart
    simp only [List.mem_cons, List.mem_append, not_or] at apart
    exact (through z apart.2.2.2.2 apart.2.2.1 apart.2.2.2.1).trans (elsewhere1 z apart.1)
  · exact (congrFun roots4 other).trans
      ((congrFun roots3 other).trans (within2.rbhRoot other different))

/-- The way up ends at the root. -/
theorem reads_climb (head : Nat) (path : List (Frame Nat)) :
    forall (t : ColorTree Nat) (fuel : Nat),
    path.length < fuel -> Proper (plug path t) ->
      Reads (climb fuel (above path)) head (plug path t) () := by
  induction path with
  | nil =>
      intro t fuel enough proper
      cases fuel with
      | zero => exact absurd enough (Nat.not_lt_zero _)
      | succ fuel => exact reads_pure () head _
  | cons f path inductionHypothesis =>
      intro t fuel enough proper
      cases fuel with
      | zero => exact absurd enough (Nat.not_lt_zero _)
      | succ fuel =>
          have nonzero : f.elem ≠ 0 := fun zero => (proper_plug proper).2
            (List.mem_append_right _ (zero ▸ List.mem_cons_self))
          rw [above, climb, if_neg nonzero]
          exact (reads_rbParent head path f.side f.color t f.sibling f.elem).bind
            (inductionHypothesis _ fuel (Nat.lt_of_succ_lt_succ enough) proper)

/-- `RB_REMOVE` of an element with two children: its successor takes its place. -/
theorem runs_removeDouble (shows : heap.Shows head (plug path (.node c l old r)))
    (redBlack : RedBlack (plug path (.node c l old r))) (nodeL : l ≠ .leaf) (nodeR : r ≠ .leaf)
    (enough : (plug path (.node c l old r)).height < fuel) :
    Exists fun heap' => Exists fun t' => Runs (removeDouble fuel head old) heap () heap' ∧
      heap'.Shows head t' ∧ RedBlack t' ∧
      t'.elems = beside .left path ++ (l.elems ++ r.elems) ++ beside .right path ∧
      heap.Within heap' head (plug path (.node c l old r)).elems := by
  have proper : Proper (plug path (.node c l old r)) := ⟨shows.distinct, shows.proper⟩
  have high := length_add_height_le path (.node c l old r)
  have lowR : r.height ≤ fuel := by
    have step := height_branch .right c r old l
    have same : branch .right c r old l = .node c l old r := rfl
    rw [same] at step
    omega
  rcases reads_outermost head .left fuel r (⟨.right, c, old, l⟩ :: path) nodeR lowR proper with
    ⟨way, cm, elm, rest, rfl, straight, outermost⟩
  have first := reads_rbChild head path .right c (plug way (branch .left cm .leaf elm rest)) l old
  -- the tree around the successor
  have around : forall (x : Nat) (u : ColorTree Nat), plug (way ++ ⟨.right, c, x, l⟩ :: path) u =
      plug path (.node c l x (plug way u)) := fun x u => plug_append _ _ _
  let full := way ++ ⟨.right, c, old, l⟩ :: path
  let full' := way ++ ⟨.right, c, elm, l⟩ :: path
  have shows' : heap.Shows head (plug full (branch .left cm .leaf elm rest)) := by
    rw [around]; exact shows
  have redBlack' : RedBlack (plug full (branch .left cm .leaf elm rest)) := by
    rw [around]; exact redBlack
  have child := reads_rbChild head full .right cm rest .leaf elm
  have parent := reads_rbParent head full .left cm .leaf rest elm
  have color := reads_rbColor head full .left cm .leaf rest elm
  have entry := shows'.entry
  -- the successor is unlinked
  have apart : elm ∉ (plug full rest).elems := by
    have spread := (perm_plug full (branch .left cm .leaf elm rest)).trans
      ((perm_branch .left cm .leaf elm rest).append_right (along full))
    have fresh := (List.nodup_cons.mp (spread.nodup_iff.mp shows'.distinct)).1
    exact fun member => fresh ((perm_plug full rest).mem_iff.mp member)
  rcases runs_unlink shows' with ⟨heap1, unlinked, shows1, within1, entry1⟩
  have below : Runs (rbParent elm) heap1 (above full) heap1 := by
    have ran := @runs_rbParent heap1 _ entry.1
    rwa [entry1, entry.2, parent_facing] at ran
  -- and takes its place
  rw [around] at shows1 apart
  rcases runs_takePlace shows1 nodeL apart entry.1 with ⟨heap2, taken, shows2, within2⟩
  have turned : (if above full = old then elm else above full) = above full' := by
    cases way with
    | nil => exact if_pos rfl
    | cons f way =>
        have different : f.elem ≠ old := by
          intro same
          have parts := (proper_plug ⟨shows'.distinct, shows'.proper⟩).1
          have inPath := (List.nodup_append.mp parts).2.1
          rw [show full = f :: (way ++ ⟨.right, c, old, l⟩ :: path) from rfl, along_cons,
            List.cons_append,
            List.nodup_cons] at inPath
          refine inPath.1 (List.mem_append_right _ ?_)
          rw [same, along, List.flatMap_append]
          exact List.mem_append_right _ List.mem_cons_self
        exact if_neg different
  have shows2' : heap2.Shows head (plug full' rest) := by rw [around]; exact shows2
  have proper2 : Proper (plug full' rest) := ⟨shows2'.distinct, shows2'.proper⟩
  have sameLength : full'.length = full.length := by
    simp only [full, full', List.length_append, List.length_cons]
  have short : full'.length + 1 < fuel := by
    have long := length_add_height_le full (branch .left cm .leaf elm rest)
    have positive := height_branch .left cm .leaf elm rest
    rw [around] at long
    change full.length + _ ≤
      (plug path (.node c l old (plug way (branch .left cm .leaf elm rest)))).height at long
    omega
  have vacated : Vacated cm full' rest := by
    rcases vacated_of_redBlack redBlack' with ⟨n, balanced, holds⟩
    refine ⟨n, balanced, ?_⟩
    cases cm with
    | red => exact ⟨holds.1, (holds_replace way .right c old elm l path n).mp holds.2⟩
    | black => exact (holds_replace way .right c old elm l path (n + 1)).mp holds
  rcases turns_finishRemove vacated short proper2 with ⟨t', redBlack2, turns⟩
  rcases turns.runs heap2 shows2' with ⟨heap3, ran, shows3, within3⟩
  have climbs := reads_climb head full' rest fuel (by omega) proper2 heap2 shows2'
  have successor : (plug way (branch .left cm .leaf elm rest)).elems =
      elm :: (plug way rest).elems := by
    rw [elems_plug, elems_plug, beside_eq_nil straight]
    rfl
  refine ⟨heap3, t', ?_, shows3, redBlack2, ?_, ?_⟩
  · refine (first heap shows).bind
      ((outermost heap shows).bind ((child heap shows').bind ((parent heap shows').bind
      ((color heap shows').bind (unlinked.bind (below.bind (taken.bind ?_)))))))
    rw [turned]
    exact climbs.bind ran
  · rw [turns.elems, around, elems_plug, elems, successor]
  · refine (within1.mono (fun z member => ?_)).trans
      ((within2.mono (fun z member => ?_)).trans (within3.mono (fun z member => ?_)))
    all_goals
      simp only [full, full', around, elems_plug path, elems, List.mem_append,
        List.mem_cons] at member
      simp only [elems_plug path, elems, successor, List.mem_append, List.mem_cons]
      tauto

/-- `RB_REMOVE` takes an element out and keeps the tree red-black. -/
theorem runs_rbRemove (shows : heap.Shows head t) (redBlack : RedBlack t) (member : elm ∈ t.elems)
    (enough : 2 * Nat.log 2 (t.elems.length + 1) < fuel) :
    Exists fun heap' => Exists fun t' => Runs (rbRemove fuel head elm) heap elm heap' ∧
      heap'.Shows head t' ∧ RedBlack t' ∧ t'.elems = t.elems.erase elm ∧
        heap.Within heap' head t.elems := by
  have high : t.height < fuel := lt_of_le_of_lt redBlack.height_le enough
  rcases exists_plug member with ⟨path, c, l, r, rfl⟩
  have erased : (plug path (.node c l elm r)).elems.erase elm =
      beside .left path ++ (l.elems ++ r.elems) ++ beside .right path := by
    have distinct := shows.distinct
    rw [elems_around] at distinct ⊢
    have notBefore : elm ∉ beside .left path ++ l.elems :=
      fun before => (List.nodup_append.mp distinct).2.2 elm before elm List.mem_cons_self rfl
    rw [List.erase_append_right _ notBefore, List.erase_cons_head]
    simp only [List.append_assoc]
  have short : path.length + 1 < fuel := by
    have long := length_add_height_le path (.node c l elm r)
    have positive := height_branch .left c l elm r
    change l.height + 1 ≤ (ColorTree.node c l elm r).height at positive
    omega
  have left := reads_rbChild head path .left c l r elm heap shows
  have right := reads_rbChild head path .right c r l elm heap shows
  have single : forall (s : Side) (u : ColorTree Nat), branch s c .leaf elm u = .node c l elm r ->
      u.elems = l.elems ++ r.elems -> Exists fun heap' => Exists fun t' =>
        Runs (removeSingle fuel head elm (top u)) heap () heap' ∧ heap'.Shows head t' ∧
          RedBlack t' ∧
          t'.elems = (plug path (.node c l elm r)).elems.erase elm ∧
          heap.Within heap' head (plug path (.node c l elm r)).elems := by
    intro s u same below
    rw [← same] at shows redBlack
    rcases runs_removeSingle shows redBlack short with
      ⟨heap', t', ran, shows', redBlack', order', within⟩
    have rest : (plug path u).elems = (plug path (.node c l elm r)).elems.erase elm := by
      rw [erased, elems_plug, below]
    refine ⟨heap', t', ran, shows', redBlack', order'.trans rest, within.mono ?_⟩
    rw [rest]
    exact List.erase_subset
  by_cases leafL : l = .leaf
  · subst leafL
    rcases single .left r rfl rfl with ⟨heap', t', ran, shows', redBlack', order', within⟩
    refine ⟨heap', t', left.bind (right.bind ?_), shows', redBlack', order', within⟩
    rw [if_pos top_leaf]
    exact ran.bind (runs_pure elm heap')
  · have nonzeroL : top l ≠ 0 := by
      intro zero
      refine shows.proper
        ((perm_plug path _).mem_iff.mpr (List.mem_append_left _ (List.mem_append_left _ ?_)))
      exact zero ▸ top_mem leafL
    by_cases leafR : r = .leaf
    · subst leafR
      rcases single .right l rfl (List.append_nil _).symm with
        ⟨heap', t', ran, shows', redBlack', order', within⟩
      refine ⟨heap', t', left.bind (right.bind ?_), shows', redBlack', order', within⟩
      rw [if_neg nonzeroL, if_pos top_leaf]
      exact ran.bind (runs_pure elm heap')
    · have nonzeroR : top r ≠ 0 := by
        intro zero
        refine shows.proper
          ((perm_plug path _).mem_iff.mpr (List.mem_append_left _ (List.mem_append_right _ ?_)))
        exact List.mem_cons_of_mem _ (zero ▸ top_mem leafR)
      rcases runs_removeDouble shows redBlack leafL leafR high with
        ⟨heap', t', ran, shows', redBlack', order', within⟩
      refine ⟨heap', t', left.bind (right.bind ?_), shows', redBlack',
        order'.trans erased.symm, within⟩
      rw [if_neg nonzeroL, if_neg nonzeroR]
      exact ran.bind (runs_pure elm heap')

end Removal

end Utils
end OsslScripts
