import OsslScripts.Foundation.FaultState
import OsslScripts.Utils.RbTree

namespace OsslScripts
namespace Utils

open Foundation
open Foundation.ColorTree

/-!
# Trees in the links

`heap.Shows head t` says that the links below a head are those of the tree `t`.
Around a path the links split into those of the path and those of the subtree that
fills it, and each part stays as it is while other elements change.  `Turns` is a
step that makes another tree of the same elements in the same order, and leaves
all other trees alone.
-/

/-- The address of the root, or 0. -/
def top (t : ColorTree Nat) : Nat := t.root?.getD 0

/-- The element that a path comes from, or 0 at the root. -/
def above : List (Frame Nat) -> Nat
  | [] => 0
  | f :: _ => f.elem

/-- An entry with the links of the given side first. -/
def RbEntry.facing (s : Side) (near far parent : Nat) (c : Color) : RbEntry :=
  match s with
  | .left => ⟨near, far, parent, c⟩
  | .right => ⟨far, near, parent, c⟩

namespace RbHeap

/-- The links of a tree that hangs below `parent`. -/
def Owns (heap : RbHeap) : Nat -> ColorTree Nat -> Prop
  | _, .leaf => True
  | parent, .node c l x r =>
      heap.entry x = ⟨top l, top r, parent, c⟩ ∧ heap.Owns x l ∧ heap.Owns x r

/-- The links of a path that leads to `hole`. -/
def Leads (heap : RbHeap) (head : Nat) : List (Frame Nat) -> Nat -> Prop
  | [], hole => heap.rbhRoot head = hole
  | f :: path, hole =>
      heap.entry f.elem = RbEntry.facing f.side hole (top f.sibling) (above path) f.color ∧
        heap.Owns f.elem f.sibling ∧ heap.Leads head path f.elem

/-- The links below a head are those of this tree. -/
structure Shows (heap : RbHeap) (head : Nat) (t : ColorTree Nat) : Prop where
  root : heap.rbhRoot head = top t
  owns : heap.Owns 0 t
  distinct : t.elems.Nodup
  proper : 0 ∉ t.elems

/-- Only these elements have changed, and this head. -/
structure Within (heap heap' : RbHeap) (head : Nat) (elems : List Nat) : Prop where
  entry : forall x, x ∉ elems -> heap'.entry x = heap.entry x
  rbhRoot : forall other, other ≠ head -> heap'.rbhRoot other = heap.rbhRoot other

end RbHeap

open RbHeap

/-! ## Single steps -/

section Steps

variable {heap : RbHeap} {elm p : Nat} {s : Side} {c : Color}

theorem runs_load (proper : elm ≠ 0) : Runs (load elm) heap (heap.entry elm) heap := by
  rw [Runs, load, if_neg proper]

/-- The store after a change of one entry. -/
def RbHeap.setEntry (heap : RbHeap) (elm : Nat) (e : RbEntry) : RbHeap :=
  { heap with entry := Function.update heap.entry elm e }

theorem runs_store (proper : elm ≠ 0) (change : RbEntry -> RbEntry) :
    Runs (store elm change) heap () (heap.setEntry elm (change (heap.entry elm))) := by
  rw [Runs, store, if_neg proper]
  rfl

theorem runs_rbChild (proper : elm ≠ 0) :
    Runs (rbChild s elm) heap ((heap.entry elm).child s) heap :=
  runs_map _ (runs_load proper)

theorem runs_rbLeft (proper : elm ≠ 0) : Runs (rbLeft elm) heap (heap.entry elm).rbeLeft heap :=
  runs_map _ (runs_load proper)

theorem runs_rbRight (proper : elm ≠ 0) : Runs (rbRight elm) heap (heap.entry elm).rbeRight heap :=
  runs_map _ (runs_load proper)

theorem runs_rbParent (proper : elm ≠ 0) :
    Runs (rbParent elm) heap (heap.entry elm).rbeParent heap :=
  runs_map _ (runs_load proper)

theorem runs_rbColor (proper : elm ≠ 0) : Runs (rbColor elm) heap (heap.entry elm).rbeColor heap :=
  runs_map _ (runs_load proper)

theorem runs_rbRoot (head : Nat) : Runs (rbRoot head) heap (heap.rbhRoot head) heap := rfl

/-- The store after a change of one root. -/
def RbHeap.setRoot (heap : RbHeap) (head p : Nat) : RbHeap :=
  { heap with rbhRoot := Function.update heap.rbhRoot head p }

theorem runs_setRbRoot (head p : Nat) : Runs (setRbRoot head p) heap () (heap.setRoot head p) := rfl

theorem runs_setRbChild (proper : elm ≠ 0) : Runs (setRbChild s elm p) heap ()
    (heap.setEntry elm ((heap.entry elm).withChild s p)) := runs_store proper _

theorem runs_setRbParent (proper : elm ≠ 0) : Runs (setRbParent elm p) heap ()
    (heap.setEntry elm { heap.entry elm with rbeParent := p }) := runs_store proper _

theorem runs_setRbColor (proper : elm ≠ 0) : Runs (setRbColor elm c) heap ()
    (heap.setEntry elm { heap.entry elm with rbeColor := c }) := runs_store proper _

end Steps

section Entries

variable {heap : RbHeap} {elm x near far parent p : Nat} {s : Side} {c d : Color} {e : RbEntry}

@[simp] theorem entry_setEntry_self : (heap.setEntry elm e).entry elm = e :=
  Function.update_self _ _ _

theorem entry_setEntry_ne (different : x ≠ elm) : (heap.setEntry elm e).entry x = heap.entry x :=
  Function.update_of_ne different _ _

@[simp] theorem rbhRoot_setEntry : (heap.setEntry elm e).rbhRoot = heap.rbhRoot := rfl

@[simp] theorem entry_setRoot (head : Nat) : (heap.setRoot head p).entry = heap.entry := rfl

@[simp] theorem rbhRoot_setRoot_self (head : Nat) : (heap.setRoot head p).rbhRoot head = p :=
  Function.update_self _ _ _

theorem rbhRoot_setRoot_ne {head other : Nat} (different : other ≠ head) :
    (heap.setRoot head p).rbhRoot other = heap.rbhRoot other := Function.update_of_ne different _ _

@[simp] theorem child_facing : (RbEntry.facing s near far parent c).child s = near := by
  cases s <;> rfl

@[simp] theorem child_other_facing : (RbEntry.facing s near far parent c).child s.other = far := by
  cases s <;> rfl

@[simp] theorem parent_facing : (RbEntry.facing s near far parent c).rbeParent = parent := by
  cases s <;> rfl

@[simp] theorem color_facing : (RbEntry.facing s near far parent c).rbeColor = c := by
  cases s <;> rfl

@[simp] theorem withChild_facing : (RbEntry.facing s near far parent c).withChild s p =
    RbEntry.facing s p far parent c := by cases s <;> rfl

@[simp] theorem withChild_other_facing : (RbEntry.facing s near far parent c).withChild s.other p =
    RbEntry.facing s near p parent c := by cases s <;> rfl

@[simp] theorem withParent_facing : { RbEntry.facing s near far parent c with rbeParent := p } =
    RbEntry.facing s near far p c := by cases s <;> rfl

@[simp] theorem withColor_facing : { RbEntry.facing s near far parent c with rbeColor := d } =
    RbEntry.facing s near far parent d := by cases s <;> rfl

end Entries

/-! ## Trees and paths -/

section Trees

variable {heap heap' : RbHeap} {head parent hole x : Nat} {t near far : ColorTree Nat} {s : Side}
  {c : Color}
  {path : List (Frame Nat)}

@[simp] theorem top_branch : top (branch s c near x far) = x := by rw [top, root?_branch]; rfl

theorem top_mem (node : t ≠ .leaf) : top t ∈ t.elems := by
  cases t with
  | leaf => exact absurd rfl node
  | node c l x r => exact root?_mem rfl

theorem top_leaf : top .leaf = 0 := rfl

/-- The root of a tree is on every path into it. -/
theorem top_plug_mem (f : Frame Nat) (path : List (Frame Nat)) (t : ColorTree Nat) :
    top (plug (f :: path) t) ∈ along (f :: path) := by
  induction path generalizing f t with
  | nil =>
      rw [plug, plug, top_branch]
      exact List.mem_cons_self
  | cons g path inductionHypothesis =>
      rw [along_cons]
      exact List.mem_append_right _ (inductionHypothesis g _)

/-- Trees without a common element have different roots. -/
theorem top_ne {u : ColorTree Nat} (node : t ≠ .leaf) (apart : forall z, z ∈ t.elems -> z ∉ u.elems)
    (proper : 0 ∉ t.elems) : top t ≠ top u := by
  intro same
  by_cases leaf : u = .leaf
  · have zero : top t = 0 := by rw [same, leaf, top_leaf]
    exact proper (zero ▸ top_mem node)
  · exact apart _ (top_mem node) (same ▸ top_mem leaf)

theorem mem_branch {y : Nat} :
    y ∈ (branch s c near x far).elems ↔ y = x ∨ y ∈ near.elems ∨ y ∈ far.elems := by
  rw [(perm_branch _ _ _ _ _).mem_iff, List.mem_cons, List.mem_append]

theorem owns_branch : heap.Owns parent (branch s c near x far) ↔
    heap.entry x = RbEntry.facing s (top near) (top far) parent c ∧ heap.Owns x near ∧
      heap.Owns x far := by
  cases s with
  | left => rfl
  | right => exact and_congr_right fun _ => and_comm

theorem leads_plug : heap.Leads head [] (top (plug path t)) ∧ heap.Owns 0 (plug path t) ↔
    heap.Leads head path (top t) ∧ heap.Owns (above path) t := by
  induction path generalizing t with
  | nil => rfl
  | cons f path inductionHypothesis =>
      rw [plug, inductionHypothesis, owns_branch, top_branch, Leads, above]
      constructor
      · rintro ⟨leads, entry, owns, sibling⟩
        exact ⟨⟨entry, sibling, leads⟩, owns⟩
      · rintro ⟨⟨entry, sibling, leads⟩, owns⟩
        exact ⟨leads, entry, owns, sibling⟩

/-- The links of a subtree that does not change. -/
theorem RbHeap.Owns.same (owns : heap.Owns parent t)
    (same : forall y, y ∈ t.elems -> heap'.entry y = heap.entry y) : heap'.Owns parent t := by
  induction t generalizing parent with
  | leaf => trivial
  | node c l y r left right =>
      refine ⟨?_, left owns.2.1 (fun z member => same z (List.mem_append_left _ member)),
        right owns.2.2 (fun z member =>
          same z (List.mem_append_right _ (List.mem_cons_of_mem y member)))⟩
      rw [same y (List.mem_append_right _ List.mem_cons_self)]
      exact owns.1

/-- A subtree that comes below another element. -/
theorem RbHeap.Owns.adopted (owns : heap.Owns parent t) (distinct : t.elems.Nodup)
    (root : t ≠ .leaf -> heap'.entry (top t) = { heap.entry (top t) with rbeParent := x })
    (same : forall y, y ∈ t.elems -> y ≠ top t -> heap'.entry y = heap.entry y) :
    heap'.Owns x t := by
  cases t with
  | leaf => trivial
  | node c l y r =>
      have apart := (List.nodup_cons.mp (List.perm_middle.nodup_iff.mp distinct)).1
      have isTop : top (ColorTree.node c l y r) = y := rfl
      have rooted := root (fun impossible => by cases impossible)
      rw [isTop] at rooted
      refine ⟨?_, owns.2.1.same (fun z member => ?_), owns.2.2.same (fun z member => ?_)⟩
      · rw [rooted, owns.1]
      · refine same z (List.mem_append_left _ member) (fun equal => apart ?_)
        rw [isTop] at equal
        exact List.mem_append_left _ (equal ▸ member)
      · refine same z (List.mem_append_right _ (List.mem_cons_of_mem y member))
          (fun equal => apart ?_)
        rw [isTop] at equal
        exact List.mem_append_right _ (equal ▸ member)

/-- The links of a path that does not change. -/
theorem RbHeap.Leads.same (leads : heap.Leads head path hole)
    (root : heap'.rbhRoot head = heap.rbhRoot head)
    (same : forall y, y ∈ along path -> heap'.entry y = heap.entry y) :
    heap'.Leads head path hole := by
  induction path generalizing hole with
  | nil => exact root.trans leads
  | cons f path inductionHypothesis =>
      rw [along_cons] at same
      refine ⟨?_, leads.2.1.same (fun z member => ?_),
        inductionHypothesis leads.2.2 (fun z member => ?_)⟩
      · rw [same f.elem (List.mem_append_left _ List.mem_cons_self)]
        exact leads.1
      · exact same z (List.mem_append_left _ (List.mem_cons_of_mem _ member))
      · exact same z (List.mem_append_right _ member)

/-- The innermost frame is made to lead to another element. -/
theorem RbHeap.Leads.setChild {f : Frame Nat} {hole : Nat}
    (leads : heap.Leads head (f :: path) hole) (new : Nat)
    (distinct : (along (f :: path)).Nodup) :
    (heap.setEntry f.elem ((heap.entry f.elem).withChild f.side new)).Leads head
    (f :: path) new := by
  rw [along_cons, List.cons_append, List.nodup_cons] at distinct
  have elsewhere : forall z, z ∈ f.sibling.elems ++ along path ->
      (heap.setEntry f.elem ((heap.entry f.elem).withChild f.side new)).entry z = heap.entry z :=
    fun z member => entry_setEntry_ne (fun same => distinct.1 (same ▸ member))
  refine ⟨?_, leads.2.1.same (fun z member => elsewhere z (List.mem_append_left _ member)),
    leads.2.2.same rfl (fun z member => elsewhere z (List.mem_append_right _ member))⟩
  rw [entry_setEntry_self, leads.1, withChild_facing]

/-- The tree below a head, as a path and the subtree at its end. -/
theorem shows_plug : heap.Shows head (plug path t) ↔
    (heap.Leads head path (top t) ∧ heap.Owns (above path) t) ∧
      (t.elems ++ along path).Nodup ∧ 0 ∉ t.elems ++ along path := by
  have perm := perm_plug path t
  constructor
  · intro shows
    refine ⟨leads_plug.mp ⟨shows.root, shows.owns⟩, perm.nodup_iff.mp shows.distinct, ?_⟩
    exact fun member => shows.proper (perm.mem_iff.mpr member)
  · rintro ⟨links, distinct, proper⟩
    have whole := leads_plug.mpr links
    exact ⟨whole.1, whole.2, perm.nodup_iff.mpr distinct,
      fun member => proper (perm.mem_iff.mp member)⟩

end Trees

/-! ## Rebalancing steps -/

/-- The tree below the head becomes another one, of the same elements in the same order. -/
structure Turns {α : Type} (m : RbM α) (head : Nat) (t : ColorTree Nat) (value : α)
    (t' : ColorTree Nat) :
    Prop where
  elems : t'.elems = t.elems
  runs : forall heap, heap.Shows head t -> Exists fun heap' =>
    Runs m heap value heap' ∧ heap'.Shows head t' ∧ heap.Within heap' head t.elems

/-- A step that reads from the links of the tree. -/
def Reads {α : Type} (m : RbM α) (head : Nat) (t : ColorTree Nat) (value : α) : Prop :=
  forall heap, heap.Shows head t -> Runs m heap value heap

section Rebalancing

variable {heap heap' : RbHeap} {head parent x y : Nat} {t a b e near far : ColorTree Nat} {s : Side}
  {c d : Color} {path : List (Frame Nat)}

theorem RbHeap.Within.trans {heap'' : RbHeap} {elems : List Nat}
    (first : heap.Within heap' head elems)
    (second : heap'.Within heap'' head elems) : heap.Within heap'' head elems :=
  ⟨fun x outside => (second.entry x outside).trans (first.entry x outside),
    fun other different => (second.rbhRoot other different).trans (first.rbhRoot other different)⟩

theorem RbHeap.Within.mono {elems elems' : List Nat} (within : heap.Within heap' head elems)
    (subset : elems ⊆ elems') : heap.Within heap' head elems' :=
  ⟨fun x outside => within.entry x (fun member => outside (subset member)), within.rbhRoot⟩

theorem RbHeap.within_refl (heap : RbHeap) (head : Nat) (elems : List Nat) :
    heap.Within heap head elems :=
  ⟨fun _ _ => rfl, fun _ _ => rfl⟩

theorem Turns.bind {α β : Type} {m : RbM α} {next : α -> RbM β} {value : α} {result : β}
    {t' t'' : ColorTree Nat}
    (first : Turns m head t value t') (onward : Turns (next value) head t' result t'') :
    Turns (m >>= next) head t result t'' := by
  refine ⟨onward.elems.trans first.elems, fun heap shows => ?_⟩
  rcases first.runs heap shows with ⟨heap', ran, shows', within⟩
  rcases onward.runs heap' shows' with ⟨heap'', ran', shows'', within'⟩
  rw [first.elems] at within'
  exact ⟨heap'', ran.bind ran', shows'', within.trans within'⟩

theorem Reads.bind {α β : Type} {m : RbM α} {next : α -> RbM β} {value : α} {result : β}
    (first : Reads m head t value) (onward : Reads (next value) head t result) :
    Reads (m >>= next) head t result :=
  fun heap shows => (first heap shows).bind (onward heap shows)

theorem reads_pure {α : Type} (value : α) (head : Nat) (t : ColorTree Nat) :
    Reads (pure value) head t value :=
  fun heap _ => runs_pure value heap

theorem Reads.turns {α : Type} {m : RbM α} {value : α} (reads : Reads m head t value) :
    Turns m head t value t :=
  ⟨rfl, fun heap shows => ⟨heap, reads heap shows, shows, heap.within_refl head _⟩⟩

theorem Reads.then {α β : Type} {m : RbM α} {next : α -> RbM β} {value : α} {result : β}
    {t' : ColorTree Nat}
    (first : Reads m head t value) (onward : Turns (next value) head t result t') :
    Turns (m >>= next) head t result t' :=
  first.turns.bind onward

theorem turns_pure {α : Type} (value : α) (head : Nat) (t : ColorTree Nat) :
    Turns (pure value) head t value t := (reads_pure value head t).turns

theorem runs_adopt {x : Nat} (distinct : t.elems.Nodup) (proper : 0 ∉ t.elems) (heap : RbHeap) :
    Exists fun heap' => Runs (adopt (top t) x) heap () heap' ∧
      (forall parent, heap.Owns parent t -> heap'.Owns x t) ∧
      (forall y, y ∉ t.elems -> heap'.entry y = heap.entry y) ∧ heap'.rbhRoot = heap.rbhRoot := by
  by_cases node : t = .leaf
  · subst node
    refine ⟨heap, ?_, fun _ _ => trivial, fun _ _ => rfl, rfl⟩
    rw [adopt, if_pos top_leaf]
    exact runs_pure () heap
  · have member := top_mem node
    have nonzero : top t ≠ 0 := fun zero => proper (zero ▸ member)
    refine ⟨_, ?_, fun parent owns => owns.adopted distinct (fun _ => entry_setEntry_self)
      (fun y _ different => entry_setEntry_ne different), fun y outside => ?_, rfl⟩
    · rw [adopt, if_neg nonzero]
      exact runs_setRbParent nonzero
    · exact entry_setEntry_ne (fun same => outside (same ▸ member))

/-- Where the path leads to one element, it is made to lead to another. -/
theorem runs_replaceChild {old : Nat} (new : Nat) (leads : heap.Leads head path old)
    (distinct : (along path).Nodup) (proper : 0 ∉ along path) (outside : old ∉ along path)
    (nonzero : old ≠ 0) :
    Exists fun heap' => Runs (replaceChild head (above path) old new) heap () heap' ∧
      heap'.Leads head path new ∧ heap.Within heap' head (along path) := by
  cases path with
  | nil =>
      refine ⟨_, runs_setRbRoot head new, rbhRoot_setRoot_self head, fun _ _ => rfl,
        fun other different => ?_⟩
      exact rbhRoot_setRoot_ne different
  | cons f path =>
      have whole := distinct
      rw [along_cons] at proper outside
      simp only [List.cons_append, List.mem_cons, List.mem_append, not_or] at proper outside
      have nonzeroF : f.elem ≠ 0 := Ne.symm proper.1
      have different : top f.sibling ≠ old := by
        intro same
        by_cases leaf : f.sibling = .leaf
        · rw [leaf] at same
          exact nonzero same.symm
        · exact outside.2.1 (same ▸ top_mem leaf)
      refine ⟨_, ?_, leads.setChild new distinct, fun z outside => ?_, fun _ _ => rfl⟩
      · have entry := leads.1
        have ran := @runs_setRbChild heap _ new f.side nonzeroF
        rw [above, replaceChild, if_neg nonzeroF]
        refine (runs_rbLeft nonzeroF).bind ?_
        -- the left child tells on which side the old element hangs
        have isLeft : (heap.entry f.elem).rbeLeft = old ↔ f.side = .left := by
          rw [entry]
          rcases f with ⟨side, c, x, sibling⟩
          cases side with
          | left => exact iff_of_true rfl rfl
          | right => exact iff_of_false different (fun impossible => by cases impossible)
        by_cases left : (heap.entry f.elem).rbeLeft = old
        · rw [if_pos left, ← isLeft.mp left]
          exact ran
        · rw [if_neg left, ← Side.eq_right_of_ne (mt isLeft.mpr left)]
          exact ran
      · exact entry_setEntry_ne (fun same => outside (same ▸ List.mem_cons_self))

/-- A rotation. -/
theorem turns_rbRotate : Turns (rbRotate s head x) head
    (plug path (branch s c a x (branch s d b y e))) ()
      (plug path (branch s d (branch s c a x b) y e)) := by
  refine ⟨elems_plug_congr path (elems_rotate s c c d d a b e x y), fun heap shows => ?_⟩
  rcases shows_plug.mp shows with ⟨⟨leads, owns⟩, distinct, proper⟩
  rw [top_branch] at leads
  rcases owns_branch.mp owns with ⟨entryX, ownsA, ownsFar⟩
  rw [top_branch] at entryX
  rcases owns_branch.mp ownsFar with ⟨entryY, ownsB, ownsE⟩
  -- who is who
  have spread : ((branch s c a x (branch s d b y e)).elems ++ along path).Perm
      (x :: y :: (b.elems ++ (a.elems ++ (e.elems ++ along path)))) := by
    refine ((perm_branch s c a x _).append_right _).trans ?_
    refine (((perm_branch s d b y e).append_left a.elems).append_right (along path)).cons x
      |>.trans ?_
    refine List.Perm.cons x ?_
    have toFront : (a.elems ++ y :: (b.elems ++ e.elems)).Perm
        (y :: (b.elems ++ (a.elems ++ e.elems))) :=
      List.perm_middle.trans ((List.perm_append_comm_assoc _ _ _).cons y)
    have onward := toFront.append_right (along path)
    simpa only [List.cons_append, List.append_assoc] using onward
  have distinct' := spread.nodup_iff.mp distinct
  have proper' := mt spread.mem_iff.mpr proper
  simp only [List.nodup_cons, List.nodup_append, List.mem_cons, List.mem_append,
    not_or] at distinct' proper'
  rcases distinct' with
    ⟨⟨notSame, xNotB, xNotA, xNotE, xNotAlong⟩, ⟨yNotB, yNotA, yNotE, yNotAlong⟩,
    distinctB, ⟨-, ⟨-, distinctAlong, apartE⟩, apartA⟩, apartB⟩
  rcases proper' with ⟨notX, notY, notB, notA, notE, notAlong⟩
  have properX : x ≠ 0 := Ne.symm notX
  have properY : y ≠ 0 := Ne.symm notY
  -- the inner subtree goes over to `x`
  let heap1 := heap.setEntry x (RbEntry.facing s (top a) (top b) (above path) c)
  have first : Runs (rbChild s.other x) heap y heap := by
    have read := @runs_rbChild heap _ s.other properX
    rwa [entryX, child_other_facing] at read
  have second : Runs (rbChild s y) heap (top b) heap := by
    have read := @runs_rbChild heap _ s properY
    rwa [entryY, child_facing] at read
  have third : Runs (setRbChild s.other x (top b)) heap () heap1 := by
    have set := @runs_setRbChild heap _ (top b) s.other properX
    rwa [entryX, withChild_other_facing] at set
  have elsewhere1 : forall z, z ≠ x -> heap1.entry z = heap.entry z :=
    fun z different => entry_setEntry_ne different
  rcases runs_adopt (x := x) distinctB notB heap1 with ⟨heap2, fourth, ownsB2, elsewhere2, roots2⟩
  have entryX2 : heap2.entry x = RbEntry.facing s (top a) (top b) (above path) c :=
    (elsewhere2 x xNotB).trans entry_setEntry_self
  have entryY2 : heap2.entry y = RbEntry.facing s (top b) (top e) x d := by
    rw [elsewhere2 y yNotB, elsewhere1 y (Ne.symm notSame), entryY]
  -- the upper element is replaced
  let heap3 := heap2.setEntry y (RbEntry.facing s (top b) (top e) (above path) d)
  have fifth : Runs (rbParent x) heap2 (above path) heap2 := by
    have read := @runs_rbParent heap2 _ properX
    rwa [entryX2, parent_facing] at read
  have sixth : Runs (setRbParent y (above path)) heap2 () heap3 := by
    have set := @runs_setRbParent heap2 _ (above path) properY
    rwa [entryY2, withParent_facing] at set
  have leads3 : heap3.Leads head path x := by
    refine leads.same (congrFun roots2 head) (fun z member => ?_)
    have notX : z ≠ x := fun same => xNotAlong (same ▸ member)
    have notY : z ≠ y := fun same => yNotAlong (same ▸ member)
    have notB : z ∉ b.elems := fun inB => apartB z inB z (Or.inr (Or.inr member)) rfl
    exact (entry_setEntry_ne notY).trans ((elsewhere2 z notB).trans (elsewhere1 z notX))
  rcases runs_replaceChild y leads3 distinctAlong notAlong xNotAlong properX with
    ⟨heap4, seventh, leads4, within4⟩
  have entryX4 : heap4.entry x = RbEntry.facing s (top a) (top b) (above path) c :=
    (within4.entry x xNotAlong).trans ((entry_setEntry_ne notSame).trans entryX2)
  have entryY4 : heap4.entry y = RbEntry.facing s (top b) (top e) (above path) d :=
    (within4.entry y yNotAlong).trans entry_setEntry_self
  -- and hangs below the one that has come up
  let heap5 := heap4.setEntry y (RbEntry.facing s x (top e) (above path) d)
  let heap6 := heap5.setEntry x (RbEntry.facing s (top a) (top b) y c)
  have eighth : Runs (setRbChild s y x) heap4 () heap5 := by
    have set := @runs_setRbChild heap4 _ x s properY
    rwa [entryY4, withChild_facing] at set
  have ninth : Runs (setRbParent x y) heap5 () heap6 := by
    have set := @runs_setRbParent heap5 _ y properX
    rwa [entry_setEntry_ne notSame, entryX4, withParent_facing] at set
  have ends : forall z, z ≠ x -> z ≠ y -> heap6.entry z = heap4.entry z :=
    fun z notX notY => (entry_setEntry_ne notX).trans (entry_setEntry_ne notY)
  have through : forall z, z ≠ x -> z ≠ y -> z ∉ along path -> heap6.entry z = heap2.entry z :=
    fun z notX notY outside =>
      (ends z notX notY).trans ((within4.entry z outside).trans (entry_setEntry_ne notY))
  have unchanged : forall z, z ≠ x -> z ≠ y -> z ∉ b.elems -> z ∉ along path ->
      heap6.entry z = heap.entry z :=
    fun z notX notY notB outside => (through z notX notY outside).trans
      ((elsewhere2 z notB).trans (elsewhere1 z notX))
  refine ⟨heap6, first.bind (second.bind (third.bind (fourth.bind (fifth.bind (sixth.bind
    (seventh.bind (eighth.bind ninth))))))), ?_, fun z outside => ?_, fun other different => ?_⟩
  · have same := elems_rotate s c c d d a b e x y
    refine shows_plug.mpr ⟨⟨?_, ?_⟩, by rwa [same], by rwa [same]⟩
    · rw [top_branch]
      refine leads4.same rfl (fun z member => ends z ?_ ?_)
      · exact fun same => xNotAlong (same ▸ member)
      · exact fun same => yNotAlong (same ▸ member)
    · refine owns_branch.mpr ⟨?_, owns_branch.mpr ⟨entry_setEntry_self, ?_, ?_⟩, ?_⟩
      · rw [top_branch]
        exact (entry_setEntry_ne (Ne.symm notSame)).trans entry_setEntry_self
      · refine ownsA.same (fun z member => unchanged z ?_ ?_ ?_ ?_)
        · exact fun same => xNotA (same ▸ member)
        · exact fun same => yNotA (same ▸ member)
        · exact fun inB => apartB z inB z (Or.inl member) rfl
        · exact fun inAlong => apartA z member z (Or.inr inAlong) rfl
      · refine (ownsB2 y (ownsB.same (fun z member => elsewhere1 z ?_))).same
          (fun z member => through z ?_ ?_ ?_)
        · exact fun same => xNotB (same ▸ member)
        · exact fun same => xNotB (same ▸ member)
        · exact fun same => yNotB (same ▸ member)
        · exact fun inAlong => apartB z member z (Or.inr (Or.inr inAlong)) rfl
      · refine ownsE.same (fun z member => unchanged z ?_ ?_ ?_ ?_)
        · exact fun same => xNotE (same ▸ member)
        · exact fun same => yNotE (same ▸ member)
        · exact fun inB => apartB z inB z (Or.inr (Or.inl member)) rfl
        · exact fun inAlong => apartE z member z inAlong rfl
  · rw [(perm_plug path _).mem_iff, spread.mem_iff] at outside
    simp only [List.mem_cons, List.mem_append, not_or] at outside
    exact unchanged z outside.1 outside.2.1 outside.2.2.1 outside.2.2.2.2.2
  · exact (within4.rbhRoot other different).trans (congrFun roots2 other)

/-! ## What a tree tells about its links -/

/-- The elements of a tree are distinct addresses, and none is `NULL`. -/
structure Proper (t : ColorTree Nat) : Prop where
  distinct : t.elems.Nodup
  proper : 0 ∉ t.elems

theorem Turns.proper {α : Type} {m : RbM α} {value : α} {t' : ColorTree Nat}
    (turns : Turns m head t value t')
    (proper : Proper t) : Proper t' :=
  ⟨turns.elems ▸ proper.distinct, turns.elems ▸ proper.proper⟩

theorem proper_plug (proper : Proper (plug path t)) :
    (t.elems ++ along path).Nodup ∧ 0 ∉ t.elems ++ along path := by
  have perm := perm_plug path t
  exact ⟨perm.nodup_iff.mp proper.distinct, fun member => proper.proper (perm.mem_iff.mpr member)⟩

theorem RbHeap.Shows.entry (shows : heap.Shows head (plug path (branch s c near x far))) :
    x ≠ 0 ∧ heap.entry x = RbEntry.facing s (top near) (top far) (above path) c := by
  rcases shows_plug.mp shows with ⟨⟨-, owns⟩, -, proper⟩
  refine ⟨fun zero => proper (List.mem_append_left _ ?_), (owns_branch.mp owns).1⟩
  exact mem_branch.mpr (Or.inl zero.symm)

section Reads

variable (head : Nat) (path : List (Frame Nat)) (s : Side) (c : Color) (near far : ColorTree Nat)
  (x : Nat)

theorem reads_rbChild :
    Reads (rbChild s x) head (plug path (branch s c near x far)) (top near) := by
  intro heap shows
  rcases shows.entry with ⟨proper, entry⟩
  have read := @runs_rbChild heap _ s proper
  rwa [entry, child_facing] at read

theorem reads_rbChild_other :
    Reads (rbChild s.other x) head (plug path (branch s c near x far)) (top far) := by
  have reads := reads_rbChild head path s.other c far near x
  rwa [branch_other] at reads

theorem reads_rbParent :
    Reads (rbParent x) head (plug path (branch s c near x far)) (above path) := by
  intro heap shows
  rcases shows.entry with ⟨proper, entry⟩
  have read := @runs_rbParent heap _ proper
  rwa [entry, parent_facing] at read

theorem reads_rbColor : Reads (rbColor x) head (plug path (branch s c near x far)) c := by
  intro heap shows
  rcases shows.entry with ⟨proper, entry⟩
  have read := @runs_rbColor heap _ proper
  rwa [entry, color_facing] at read

theorem turns_setRbColor (d : Color) :
    Turns (setRbColor x d) head (plug path (branch s c near x far)) ()
    (plug path (branch s d near x far)) := by
  have same := elems_recolor s d c near x far
  refine ⟨elems_plug_congr path same, fun heap shows => ?_⟩
  rcases shows.entry with ⟨nonzero, entry⟩
  rcases shows_plug.mp shows with ⟨⟨leads, owns⟩, distinct, proper⟩
  have set := @runs_setRbColor heap _ d nonzero
  rw [entry, withColor_facing] at set
  have inside : x ∈ (branch s c near x far).elems := mem_branch.mpr (Or.inl rfl)
  have apart := (List.nodup_append.mp distinct).2.2 x inside
  have below := (List.nodup_cons.mp ((perm_branch s c near x far).nodup_iff.mp
    (List.nodup_append.mp distinct).1)).1
  rcases owns_branch.mp owns with ⟨-, ownsNear, ownsFar⟩
  refine ⟨_, set, shows_plug.mpr
    ⟨⟨?_, owns_branch.mpr ⟨entry_setEntry_self, ?_, ?_⟩⟩, by rwa [same],
    by rwa [same]⟩, fun z outside => ?_, fun _ _ => rfl⟩
  · rw [top_branch] at leads ⊢
    exact leads.same rfl (fun z member => entry_setEntry_ne (Ne.symm (apart z member)))
  · refine ownsNear.same (fun z member => entry_setEntry_ne (fun equal => below ?_))
    exact List.mem_append_left _ (equal ▸ member)
  · refine ownsFar.same (fun z member => entry_setEntry_ne (fun equal => below ?_))
    exact List.mem_append_right _ (equal ▸ member)
  · refine entry_setEntry_ne (fun equal => outside ?_)
    rw [equal, (perm_plug path _).mem_iff]
    exact List.mem_append_left _ inside

theorem reads_rbRoot (t : ColorTree Nat) : Reads (rbRoot head) head t (top t) := by
  intro heap shows
  have read := @runs_rbRoot heap head
  rwa [shows.root] at read

end Reads

/-- `NULL` counts as black. -/
theorem reads_isBlack (head : Nat) (path : List (Frame Nat)) (t : ColorTree Nat) :
    Reads (isBlack (top t)) head (plug path t) (decide t.IsBlack) := by
  by_cases node : t = .leaf
  · subst node
    exact reads_pure true head _
  · rcases exists_branch .left node with ⟨c, near, x, far, rfl⟩
    intro heap shows
    rcases shows.entry with ⟨proper, entry⟩
    have read := runs_map (fun c => decide (c = .black)) (@runs_rbColor heap _ proper)
    rw [entry, color_facing] at read
    rw [top_branch, isBlack, if_neg proper]
    exact read

theorem reads_isRed (head : Nat) (path : List (Frame Nat)) (t : ColorTree Nat) :
    Reads (isRed (top t)) head (plug path t) (decide (¬ t.IsBlack)) := by
  by_cases node : t = .leaf
  · subst node
    exact reads_pure false head _
  · rcases exists_branch .left node with ⟨c, near, x, far, rfl⟩
    intro heap shows
    rcases shows.entry with ⟨proper, entry⟩
    have read := runs_map (fun c => decide (c = .red)) (@runs_rbColor heap _ proper)
    rw [entry, color_facing] at read
    have opposite : decide (¬ (branch .left c near x far).IsBlack) = decide (c = .red) := by
      cases c <;> rfl
    rw [top_branch, isRed, if_neg proper, opposite]
    exact read

theorem turns_blacken (head : Nat) (path : List (Frame Nat)) (t : ColorTree Nat)
    (proper : Proper (plug path t)) :
    Turns (blacken (top t)) head (plug path t) () (plug path t.blackened) := by
  by_cases node : t = .leaf
  · subst node
    exact turns_pure () head _
  · rcases exists_branch .left node with ⟨c, near, x, far, rfl⟩
    have nonzero : x ≠ 0 := by
      intro zero
      refine (proper_plug proper).2 (List.mem_append_left _ (mem_branch.mpr (Or.inl zero.symm)))
    rw [top_branch, blacken, if_neg nonzero, blackened_branch]
    exact turns_setRbColor head path .left c near far x .black

/-- A child of the parent tells on which side the path goes on. -/
theorem reads_rbChild_above (head : Nat) (s : Side) (f : Frame Nat)
    (proper : Proper (plug (f :: path) t))
    (node : t ≠ .leaf ∨ f.sibling ≠ .leaf) :
    Exists fun child => Reads (rbChild s f.elem) head (plug (f :: path) t) child ∧
      (top t = child ↔ f.side = s) := by
  rcases f with ⟨side, c, x, sibling⟩
  have parts := proper_plug proper
  have apart : forall z, z ∈ t.elems -> z ∉ sibling.elems := fun z member inSibling =>
    (List.nodup_append.mp parts.1).2.2 z member z
    (List.mem_append_left _ (List.mem_cons_of_mem _ inSibling)) rfl
  have different : top t ≠ top sibling := by
    rcases node with node | node
    · exact top_ne node apart (fun member => parts.2 (List.mem_append_left _ member))
    · refine Ne.symm
        (top_ne node (fun z member inTree => apart z inTree member) (fun member => parts.2 ?_))
      exact List.mem_append_right _ (List.mem_append_left _ (List.mem_cons_of_mem _ member))
  by_cases same : side = s
  · subst same
    exact ⟨top t, reads_rbChild head path side c t sibling x, iff_of_true rfl rfl⟩
  · have other : s = side.other := Side.eq_other_of_ne (Ne.symm same)
    subst other
    exact ⟨top sibling, reads_rbChild_other head path side c t sibling x,
      iff_of_false different same⟩

end Rebalancing

end Utils
end OsslScripts
