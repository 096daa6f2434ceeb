import OsslScripts.Mprofile.StackOrder

namespace OsslScripts
namespace Mprofile

open Foundation

/-!
# What the stack set operations do

A heap of stack sets is well formed when each set has its stacks in both trees,
each tree in its order, and no stack hangs in two sets.  Adding and merging are
described case by case for such heaps, in terms of three primitive steps: take
a stack out of a set (`unlinkStack`), hang one into a set (`hangStack`), and
change a use count (`bump`, `unbump`).  The freshness of `stset_id` is not part
of well-formedness, because `mprofile_merge_stack` does not keep it.
-/

namespace StackHeap

/-- The stacks of a set, in content order. -/
def members (heap : StackHeap) (s : Nat) : List Nat := (heap.stset s).stsetRbh

def key (heap : StackHeap) (p : Nat) : Lex (Nat × List Nat) := stackKey (heap.mps p)

def idOf (heap : StackHeap) (p : Nat) : Nat := (heap.mps p).mpsId

def countOf (heap : StackHeap) (p : Nat) : Nat := (heap.mps p).mpsCount

/-- Create a stack object. -/
def alloc (heap : StackHeap) (mps : MprofileStack) : StackHeap :=
  { heap.setMps heap.mpsTop mps with mpsTop := heap.mpsTop + 1 }

end StackHeap

/-- Hang an object into both trees of a set, which hands out `next` afterwards. -/
def hangStack (heap : StackHeap) (s p next : Nat) : StackHeap :=
  heap.setStset s
    { stsetId := next
      stsetRbh := (OrderedTree.insert heap.contentOrder p (heap.stset s).stsetRbh).1
      stsetIdRbh := (OrderedTree.insert heap.idOrder p (heap.stset s).stsetIdRbh).1 }

/-- Both trees of a set are in order, and the id tree has stacks of the set only. -/
structure StsetTrees (heap : StackHeap) (s : Nat) : Prop where
  content : OrderedTree.Sorted heap.key (heap.stset s).stsetRbh
  ids : OrderedTree.Sorted heap.idOf (heap.stset s).stsetIdRbh
  indexed : forall p, p ∈ (heap.stset s).stsetIdRbh -> p ∈ heap.members s

/-- A set of stacks with frames, all of them in both trees. -/
structure StsetWf (heap : StackHeap) (s : Nat) : Prop where
  content : OrderedTree.Sorted heap.key (heap.stset s).stsetRbh
  ids : OrderedTree.Sorted heap.idOf (heap.stset s).stsetIdRbh
  same : forall p, p ∈ (heap.stset s).stsetIdRbh ↔ p ∈ heap.members s
  nonempty : forall p, p ∈ heap.members s -> 0 < (heap.mps p).mpsStackDepth

/-- All sets are well formed, and each object hangs in one of them at most. -/
structure StacksWf (heap : StackHeap) : Prop where
  sets : forall s, StsetWf heap s
  top : 0 < heap.mpsTop
  allocated : forall s p, p ∈ heap.members s -> 0 < p ∧ p < heap.mpsTop
  apart : forall s t p, p ∈ heap.members s -> p ∈ heap.members t -> s = t

section Searches

variable {heap : StackHeap} {s p k : Nat} {mps : MprofileStack}

theorem depth_eq_of_stackKey_eq {a b : MprofileStack} (same : stackKey a = stackKey b) :
    a.mpsStackDepth = b.mpsStackDepth :=
  (Prod.mk.inj (toLex.injective same)).1

theorem frames_eq_of_stackKey_eq {a b : MprofileStack} (same : stackKey a = stackKey b) :
    a.frames = b.frames := by
  by_cases empty : a.mpsStackDepth = 0
  · have none : b.mpsStackDepth = 0 := (depth_eq_of_stackKey_eq same).symm.trans empty
    rw [MprofileStack.frames, MprofileStack.frames, empty, none]
    rfl
  · exact (stackKey_eq_iff (Nat.pos_of_ne_zero empty) b).mp same

theorem StsetWf.trees (wf : StsetWf heap s) : StsetTrees heap s :=
  ⟨wf.content, wf.ids, fun p => (wf.same p).mp⟩

theorem contentProbe (heap : StackHeap) (mps : MprofileStack) (q : Nat) :
    stackCompare mps (heap.mps q) = 0 ↔ heap.key q = stackKey mps := by
  rw [(stackCompare_keyed mps (heap.mps q)).2, eq_comm]
  rfl

theorem findContent_some_iff (sorted : OrderedTree.Sorted heap.key (heap.stset s).stsetRbh) :
    heap.findContent mps (heap.stset s).stsetRbh = some p ↔
      p ∈ heap.members s ∧ heap.key p = stackKey mps :=
  OrderedTree.find_eq_some_iff (fun q _ => contentProbe heap mps q) sorted p

theorem StsetTrees.findContent_some_iff (trees : StsetTrees heap s) :
    heap.findContent mps (heap.stset s).stsetRbh = some p ↔
      p ∈ heap.members s ∧ heap.key p = stackKey mps :=
  Mprofile.findContent_some_iff trees.content

theorem findContent_none_iff :
    heap.findContent mps (heap.stset s).stsetRbh = none ↔
      forall p, p ∈ heap.members s -> heap.key p ≠ stackKey mps :=
  OrderedTree.find_eq_none_iff (fun q _ => contentProbe heap mps q)

theorem findId_some_iff (sorted : OrderedTree.Sorted heap.idOf (heap.stset s).stsetIdRbh) :
    heap.findId k (heap.stset s).stsetIdRbh = some p ↔
      p ∈ (heap.stset s).stsetIdRbh ∧ heap.idOf p = k :=
  OrderedTree.find_eq_some_iff
    (fun q _ => by rw [threeWay_zero_iff, eq_comm]; rfl) sorted p

theorem StsetTrees.findId_some_iff (trees : StsetTrees heap s) :
    heap.findId k (heap.stset s).stsetIdRbh = some p ↔
      p ∈ (heap.stset s).stsetIdRbh ∧ heap.idOf p = k :=
  Mprofile.findId_some_iff trees.ids

theorem StsetWf.findContent_some_iff (wf : StsetWf heap s) :
    heap.findContent mps (heap.stset s).stsetRbh = some p ↔
      p ∈ heap.members s ∧ heap.key p = stackKey mps :=
  wf.trees.findContent_some_iff

theorem StsetWf.findId_some_iff (wf : StsetWf heap s) :
    heap.findId k (heap.stset s).stsetIdRbh = some p ↔ p ∈ heap.members s ∧ heap.idOf p = k := by
  rw [wf.trees.findId_some_iff, wf.same]

theorem StsetWf.findId_none_iff (wf : StsetWf heap s) :
    heap.findId k (heap.stset s).stsetIdRbh = none ↔
      forall p, p ∈ heap.members s -> heap.idOf p ≠ k := by
  simp only [← wf.same]
  exact OrderedTree.find_eq_none_iff (fun q _ => by rw [threeWay_zero_iff, eq_comm]; rfl)

theorem contentOrder_keyed (heap : StackHeap) (p q : Nat) :
    (heap.contentOrder p q < 0 ↔ heap.key p < heap.key q) ∧
      (heap.contentOrder p q = 0 ↔ heap.key p = heap.key q) :=
  stackCompare_keyed (heap.mps p) (heap.mps q)

theorem idOrder_keyed (heap : StackHeap) (p q : Nat) :
    (heap.idOrder p q < 0 ↔ heap.idOf p < heap.idOf q) ∧
      (heap.idOrder p q = 0 ↔ heap.idOf p = heap.idOf q) :=
  ⟨threeWay_neg_iff _ _, threeWay_zero_iff _ _⟩

end Searches

/-! ## The primitive steps -/

section Primitives

variable {heap heap' : StackHeap} {s t p q next : Nat}

/-- A set looks at the keys and the ids of its own stacks only. -/
theorem StsetWf.agree (wf : StsetWf heap s) (sameSet : heap'.stset s = heap.stset s)
    (agree : forall p, p ∈ heap.members s -> heap'.key p = heap.key p ∧
      heap'.idOf p = heap.idOf p) :
    StsetWf heap' s := by
  have membersSame : heap'.members s = heap.members s := by
    rw [StackHeap.members, StackHeap.members, sameSet]
  refine ⟨?_, ?_, ?_, ?_⟩
  · rw [sameSet]
    refine wf.content.imp_of_mem (fun {a b} memberA memberB less => ?_)
    rw [(agree a memberA).1, (agree b memberB).1]
    exact less
  · rw [sameSet]
    refine wf.ids.imp_of_mem (fun {a b} memberA memberB less => ?_)
    rw [(agree a ((wf.same a).mp memberA)).2, (agree b ((wf.same b).mp memberB)).2]
    exact less
  · intro p
    rw [sameSet, membersSame]
    exact wf.same p
  · intro p member
    rw [membersSame] at member
    rw [depth_eq_of_stackKey_eq (agree p member).1]
    exact wf.nonempty p member

/-- Changes outside of the sets' keys and ids keep the heap well formed. -/
theorem StacksWf.agree (wf : StacksWf heap) (sameSets : heap'.stset = heap.stset)
    (top : heap.mpsTop ≤ heap'.mpsTop)
    (agree : forall s p, p ∈ heap.members s ->
      heap'.key p = heap.key p ∧ heap'.idOf p = heap.idOf p) : StacksWf heap' := by
  have membersSame : forall s, heap'.members s = heap.members s := fun s => by
    rw [StackHeap.members, StackHeap.members, sameSets]
  refine ⟨fun s => (wf.sets s).agree (by rw [sameSets]) (agree s),
    Nat.lt_of_lt_of_le wf.top top, fun s p member => ?_, fun s t p inS inT => ?_⟩
  · rw [membersSame] at member
    have old := wf.allocated s p member
    exact ⟨old.1, Nat.lt_of_lt_of_le old.2 top⟩
  · rw [membersSame] at inS inT
    exact wf.apart s t p inS inT

/-- Changing an object that hangs in no set. -/
theorem StacksWf.setMps (wf : StacksWf heap) (mps : MprofileStack)
    (outside : forall s, p ∉ heap.members s) : StacksWf (heap.setMps p mps) := by
  refine wf.agree rfl (Nat.le_refl _) (fun s q member => ?_)
  have different : q ≠ p := fun same => outside s (same ▸ member)
  rw [StackHeap.key, StackHeap.idOf, StackHeap.setMps_mps, Function.update_of_ne different]
  exact ⟨rfl, rfl⟩

theorem StacksWf.top_outside (wf : StacksWf heap) (s : Nat) : heap.mpsTop ∉ heap.members s :=
  fun member => Nat.lt_irrefl _ (wf.allocated s _ member).2

theorem StacksWf.alloc (wf : StacksWf heap) (mps : MprofileStack) : StacksWf (heap.alloc mps) := by
  have changed := wf.setMps mps (p := heap.mpsTop) wf.top_outside
  exact changed.agree rfl (Nat.le_succ _) (fun _ _ _ => ⟨rfl, rfl⟩)

/-- Counting uses changes neither the keys nor the ids. -/
theorem recount_agree (heap : StackHeap) (p q count : Nat) :
    (heap.setMps p { heap.mps p with mpsCount := count }).key q = heap.key q ∧
      (heap.setMps p { heap.mps p with mpsCount := count }).idOf q = heap.idOf q := by
  simp only [StackHeap.key, StackHeap.idOf, StackHeap.setMps_mps]
  by_cases same : q = p
  · subst same
    rw [Function.update_self]
    exact ⟨stackKey_congr rfl rfl, rfl⟩
  · rw [Function.update_of_ne same]
    exact ⟨rfl, rfl⟩

theorem bump_agree (heap : StackHeap) (p q : Nat) :
    (heap.bump p).key q = heap.key q ∧ (heap.bump p).idOf q = heap.idOf q :=
  recount_agree heap p q _

theorem unbump_agree (heap : StackHeap) (p q : Nat) :
    (heap.unbump p).key q = heap.key q ∧ (heap.unbump p).idOf q = heap.idOf q :=
  recount_agree heap p q _

theorem countOf_setMps_self (heap : StackHeap) (p count : Nat) :
    (heap.setMps p { heap.mps p with mpsCount := count }).countOf p = count := by
  rw [StackHeap.countOf, StackHeap.setMps_mps, Function.update_self]

theorem countOf_setMps_of_ne (heap : StackHeap) (mps : MprofileStack) {q : Nat}
    (different : q ≠ p) :
    (heap.setMps p mps).countOf q = heap.countOf q := by
  rw [StackHeap.countOf, StackHeap.setMps_mps, Function.update_of_ne different]
  rfl

theorem StacksWf.bump (wf : StacksWf heap) (p : Nat) : StacksWf (heap.bump p) :=
  wf.agree rfl (Nat.le_refl _) (fun _ q _ => bump_agree heap p q)

theorem StacksWf.unbump (wf : StacksWf heap) (p : Nat) : StacksWf (heap.unbump p) :=
  wf.agree rfl (Nat.le_refl _) (fun _ q _ => unbump_agree heap p q)

/-- A set that is not updated keeps its members. -/
theorem members_setStset_of_ne {set : MprofileStset} (different : t ≠ s) :
    (heap.setStset s set).members t = heap.members t := by
  rw [StackHeap.members, StackHeap.setStset_stset, Function.update_of_ne different]
  rfl

theorem StsetWf.setStset_of_ne {set : MprofileStset} (wf : StsetWf heap t) (different : t ≠ s) :
    StsetWf (heap.setStset s set) t :=
  wf.agree (by rw [StackHeap.setStset_stset, Function.update_of_ne different])
    (fun _ _ => ⟨rfl, rfl⟩)

theorem StsetWf.mem_unlink (wf : StsetWf heap s) (p q : Nat) :
    q ∈ (unlinkStack heap s p).members s ↔ q ≠ p ∧ q ∈ heap.members s := by
  rw [StackHeap.members, unlinkStack, StackHeap.setStset_stset, Function.update_self]
  exact wf.content.nodup.mem_erase_iff

theorem members_unlink_of_ne (different : t ≠ s) :
    (unlinkStack heap s p).members t = heap.members t :=
  members_setStset_of_ne different

theorem StsetWf.unlink (wf : StsetWf heap s) (p : Nat) : StsetWf (unlinkStack heap s p) s := by
  refine ⟨?_, ?_, fun q => ?_, fun q member => wf.nonempty q ((wf.mem_unlink p q).mp member).2⟩
  · rw [unlinkStack, StackHeap.setStset_stset, Function.update_self]
    exact wf.content.erase p
  · rw [unlinkStack, StackHeap.setStset_stset, Function.update_self]
    exact wf.ids.erase p
  · rw [wf.mem_unlink, ← wf.same, unlinkStack, StackHeap.setStset_stset, Function.update_self]
    exact wf.ids.nodup.mem_erase_iff

/-- Taking an object out of its set. -/
theorem StacksWf.unlink (wf : StacksWf heap) (s p : Nat) : StacksWf (unlinkStack heap s p) := by
  have own := wf.sets s
  have shrinks : forall t q, q ∈ (unlinkStack heap s p).members t -> q ∈ heap.members t := by
    intro t q member
    by_cases here : t = s
    · subst here
      exact ((own.mem_unlink p q).mp member).2
    · rwa [members_unlink_of_ne here] at member
  refine ⟨fun t => ?_, wf.top, fun t q member => wf.allocated t q (shrinks t q member),
    fun t u q inT inU => wf.apart t u q (shrinks t q inT) (shrinks u q inU)⟩
  by_cases here : t = s
  · subst here
    exact own.unlink p
  · exact (wf.sets t).setStset_of_ne here

theorem StacksWf.unlink_outside (wf : StacksWf heap) (member : p ∈ heap.members s) (t : Nat) :
    p ∉ (unlinkStack heap s p).members t := by
  by_cases here : t = s
  · subst here
    exact fun still => (((wf.sets t).mem_unlink p p).mp still).1 rfl
  · rw [members_unlink_of_ne here]
    exact fun still => here (wf.apart t s p still member)

theorem mem_hang (freshKey : forall q, q ∈ heap.members s ->
      heap.key q ≠ heap.key p) (next q : Nat) :
    q ∈ (hangStack heap s p next).members s ↔ q = p ∨ q ∈ heap.members s := by
  have inserted := (OrderedTree.insert_fresh (fun q _ => contentOrder_keyed heap p q) freshKey).2.1
  rw [StackHeap.members, hangStack, StackHeap.setStset_stset, Function.update_self]
  exact (inserted.mem_iff (a := q)).trans List.mem_cons

theorem members_hang_of_ne (different : t ≠ s) :
    (hangStack heap s p next).members t = heap.members t :=
  members_setStset_of_ne different

/-- Hanging an object into a set that knows neither its content nor its id. -/
theorem StacksWf.hang (wf : StacksWf heap) (outside : forall t, p ∉ heap.members t)
    (allocated : 0 < p ∧ p < heap.mpsTop) (nonempty : 0 < (heap.mps p).mpsStackDepth)
    (freshKey : forall q, q ∈ heap.members s -> heap.key q ≠ heap.key p)
    (freshId : forall q, q ∈ heap.members s -> heap.idOf q ≠ heap.idOf p) (next : Nat) :
    StacksWf (hangStack heap s p next) := by
  have own := wf.sets s
  have content := OrderedTree.insert_fresh (fun q _ => contentOrder_keyed heap p q) freshKey
  have ids := OrderedTree.insert_fresh (x := p)
    (fun q (_ : q ∈ (heap.stset s).stsetIdRbh) => idOrder_keyed heap p q)
    (fun q member => freshId q ((own.same q).mp member))
  have here : forall q, q ∈ (hangStack heap s p next).members s ↔ q = p ∨ q ∈ heap.members s :=
    mem_hang freshKey next
  have elsewhere : forall t, t ≠ s -> (hangStack heap s p next).members t = heap.members t :=
    fun t different => members_hang_of_ne different
  refine ⟨fun t => ?_, wf.top, fun t q member => ?_, fun t u q inT inU => ?_⟩
  · by_cases same : t = s
    · subst same
      refine ⟨?_, ?_, fun q => ?_, fun q member => ?_⟩
      · rw [hangStack, StackHeap.setStset_stset, Function.update_self]
        exact content.2.2 own.content
      · rw [hangStack, StackHeap.setStset_stset, Function.update_self]
        exact ids.2.2 own.ids
      · rw [here, ← own.same, hangStack, StackHeap.setStset_stset, Function.update_self]
        simp only
        rw [ids.2.1.mem_iff, List.mem_cons]
      · rcases (here q).mp member with rfl | old
        · exact nonempty
        · exact own.nonempty q old
    · exact (wf.sets t).setStset_of_ne same
  · by_cases same : t = s
    · subst same
      rcases (here q).mp member with rfl | old
      · exact allocated
      · exact wf.allocated t q old
    · rw [elsewhere t same] at member
      exact wf.allocated t q member
  · have origin : forall t, q ∈ (hangStack heap s p next).members t ->
        (q = p ∧ t = s) ∨ q ∈ heap.members t := by
      intro t member
      by_cases same : t = s
      · subst same
        rcases (here q).mp member with isP | old
        · exact Or.inl ⟨isP, rfl⟩
        · exact Or.inr old
      · rw [elsewhere t same] at member
        exact Or.inr member
    rcases origin t inT with ⟨isP, atT⟩ | oldT
    · rcases origin u inU with ⟨-, atU⟩ | oldU
      · rw [atT, atU]
      · exact absurd (isP ▸ oldU) (outside u)
    · rcases origin u inU with ⟨isP, -⟩ | oldU
      · exact absurd (isP ▸ oldT) (outside t)
      · exact wf.apart t u q oldT oldU

end Primitives

theorem stacksWf_empty : StacksWf StackHeap.empty := by
  have nothing : forall s p, p ∉ StackHeap.empty.members s := fun s p => List.not_mem_nil
  exact ⟨fun s => ⟨List.Pairwise.nil, List.Pairwise.nil, fun p => Iff.rfl,
      fun p member => absurd member (nothing s p)⟩, Nat.one_pos,
    fun s p member => absurd member (nothing s p), fun s t p member => absurd member (nothing s p)⟩

theorem createStset_stset (heap : StackHeap) :
    (mprofileCreateStset heap true).1.stset =
      Function.update heap.stset heap.stsetTop ⟨1, [], []⟩ := rfl

/-- Creating a set. -/
theorem StacksWf.createStset {heap : StackHeap} (wf : StacksWf heap) (ok : Bool) :
    StacksWf (mprofileCreateStset heap ok).1 := by
  cases ok with
  | false => exact wf
  | true =>
      have shrinks : forall s p, p ∈ (mprofileCreateStset heap true).1.members s ->
          p ∈ heap.members s := by
        intro s p member
        rw [StackHeap.members, createStset_stset] at member
        by_cases here : s = heap.stsetTop
        · subst here
          rw [Function.update_self] at member
          exact absurd member List.not_mem_nil
        · rwa [Function.update_of_ne here] at member
      refine ⟨fun s => ?_, wf.top, fun s p member => wf.allocated s p (shrinks s p member),
        fun s t p inS inT => wf.apart s t p (shrinks s p inS) (shrinks t p inT)⟩
      by_cases here : s = heap.stsetTop
      · subst here
        refine ⟨?_, ?_, fun p => ?_, fun p member => (wf.sets _).nonempty p (shrinks _ p member)⟩
        · rw [createStset_stset, Function.update_self]
          exact List.Pairwise.nil
        · rw [createStset_stset, Function.update_self]
          exact List.Pairwise.nil
        · rw [StackHeap.members, createStset_stset, Function.update_self]
      · exact (wf.sets s).agree (by rw [createStset_stset, Function.update_of_ne here])
          (fun _ _ => ⟨rfl, rfl⟩)

/-! ## Adding and merging, case by case -/

section Operations

variable {heap : StackHeap} {s dst src k : Nat} {mps : MprofileStack}
  {block : Option (Int -> UInt64)}

/-- The object that `mprofile_add_stack` creates. -/
def newStack (heap : StackHeap) (s : Nat) (copy : MprofileStack) : StackHeap :=
  heap.alloc { copy with mpsId := (heap.stset s).stsetId }

/-- The new object is the last one, and the others stay as they are. -/
theorem newStack_others (heap : StackHeap) (s : Nat) (copy : MprofileStack) {p : Nat}
    (below : p ≠ heap.mpsTop) : (newStack heap s copy).mps p = heap.mps p :=
  Function.update_of_ne below _ _

theorem newStack_self (heap : StackHeap) (s : Nat) (copy : MprofileStack) :
    (newStack heap s copy).mps heap.mpsTop = { copy with mpsId := (heap.stset s).stsetId } :=
  Function.update_self _ _ _

/-- The three ways of adding a stack. -/
theorem mprofileAddStack_cases (mps : MprofileStack) (block : Option (Int -> UInt64))
    (sorted : OrderedTree.Sorted heap.key (heap.stset s).stsetRbh) (valid : s ≠ 0) :
    (Exists fun p => p ∈ heap.members s ∧ heap.key p = stackKey mps ∧
        mprofileAddStack heap s mps block = (heap.bump p, p)) ∨
      ((forall p, p ∈ heap.members s -> heap.key p ≠ stackKey mps) ∧
        ((mprofileCopyStack mps block = none ∧ mprofileAddStack heap s mps block = (heap, 0)) ∨
          Exists fun copy => mprofileCopyStack mps block = some copy ∧
            mprofileAddStack heap s mps block =
              (hangStack (newStack heap s copy) s heap.mpsTop (uintSucc (heap.stset s).stsetId),
                heap.mpsTop))) := by
  unfold mprofileAddStack
  rw [if_neg valid]
  cases found : heap.findContent mps (heap.stset s).stsetRbh with
  | some p =>
      have parts := (findContent_some_iff sorted).mp found
      exact Or.inl ⟨p, parts.1, parts.2, rfl⟩
  | none =>
      refine Or.inr ⟨findContent_none_iff.mp found, ?_⟩
      cases copied : mprofileCopyStack mps block with
      | none => exact Or.inl ⟨rfl, rfl⟩
      | some copy => exact Or.inr ⟨copy, rfl, rfl⟩

/-- What becomes of a stack with one use left. -/
inductive MoveCase (heap : StackHeap) (dst src old : Nat) : Except MergeFault (StackHeap × Nat) ->
    Prop where
  /-- The content is in the destination already. -/
  | folded (p : Nat) (member : p ∈ heap.members dst) (same : heap.key p = heap.key old) :
      MoveCase heap dst src old (.ok ((unlinkStack heap src old).bump p, p))
  /-- It moves and keeps the id from its own set. -/
  | kept (absent : forall p, p ∈ heap.members dst -> heap.key p ≠ heap.key old)
      (free : forall p, p ∈ heap.members dst -> heap.idOf p ≠ heap.idOf old) :
      MoveCase heap dst src old
        (.ok (hangStack (unlinkStack heap src old) dst old (heap.stset dst).stsetId, old))
  /-- It moves and takes the next id of the destination. -/
  | renamed (absent : forall p, p ∈ heap.members dst -> heap.key p ≠ heap.key old)
      (taken : Exists fun p => p ∈ heap.members dst ∧ heap.idOf p = heap.idOf old)
      (free : forall p, p ∈ heap.members dst -> heap.idOf p ≠ (heap.stset dst).stsetId) :
      MoveCase heap dst src old
        (.ok (hangStack ((unlinkStack heap src old).setMps old
          { heap.mps old with mpsId := (heap.stset dst).stsetId }) dst old
          (uintSucc (heap.stset dst).stsetId), old))
  /-- The next id of the destination is in use. -/
  | refused (absent : forall p, p ∈ heap.members dst -> heap.key p ≠ heap.key old)
      (taken : Exists fun p => p ∈ heap.members dst ∧ heap.idOf p = heap.idOf old)
      (clash : Exists fun p => p ∈ heap.members dst ∧ heap.idOf p = (heap.stset dst).stsetId) :
      MoveCase heap dst src old (.error .freshIdTaken)

/-- What becomes of a stack with several uses left. -/
inductive ShareCase (heap : StackHeap) (dst old : Nat) (block : Option (Int -> UInt64)) :
    Except MergeFault (StackHeap × Nat) -> Prop where
  | folded (p : Nat) (member : p ∈ heap.members dst) (same : heap.key p = heap.key old) :
      ShareCase heap dst old block (.ok ((heap.bump p).unbump old, p))
  | noMemory (absent : forall p, p ∈ heap.members dst -> heap.key p ≠ heap.key old)
      (uncopied : block = none) : ShareCase heap dst old block (.error .noMemory)
  | copied (copy : MprofileStack)
    (absent : forall p, p ∈ heap.members dst -> heap.key p ≠ heap.key old)
      (same : mprofileCopyStack (heap.mps old) block = some copy) :
      ShareCase heap dst old block
        (.ok ((hangStack (newStack heap dst copy) dst heap.mpsTop
          (uintSucc (heap.stset dst).stsetId)).unbump old, heap.mpsTop))

/-- Renaming an object does not change the order of contents. -/
theorem contentOrder_rename (heap : StackHeap) (p id : Nat) :
    (heap.setMps p { heap.mps p with mpsId := id }).contentOrder = heap.contentOrder := by
  have same : forall q,
      ((heap.setMps p { heap.mps p with mpsId := id }).mps q).mpsStackDepth =
          (heap.mps q).mpsStackDepth ∧
        ((heap.setMps p { heap.mps p with mpsId := id }).mps q).mpsStack =
            (heap.mps q).mpsStack := by
    intro q
    rw [StackHeap.setMps_mps]
    by_cases here : q = p
    · subst here
      rw [Function.update_self]
      exact ⟨rfl, rfl⟩
    · rw [Function.update_of_ne here]
      exact ⟨rfl, rfl⟩
  funext q r
  exact stackCompare_congr (same q) (same r)

/-- What `moveStack` does, in terms of what the two trees of the destination hold. -/
inductive MoveOutcome (heap : StackHeap) (dst src old : Nat) :
    Except MergeFault (StackHeap × Nat) ->
    Prop where
  | folded (p : Nat) (member : p ∈ heap.members dst) (same : heap.key p = heap.key old) :
      MoveOutcome heap dst src old (.ok ((unlinkStack heap src old).bump p, p))
  | kept (absent : forall p, p ∈ heap.members dst -> heap.key p ≠ heap.key old)
      (free : forall p, p ∈ (heap.stset dst).stsetIdRbh -> heap.idOf p ≠ heap.idOf old) :
      MoveOutcome heap dst src old
        (.ok (hangStack (unlinkStack heap src old) dst old (heap.stset dst).stsetId, old))
  | renamed (absent : forall p, p ∈ heap.members dst -> heap.key p ≠ heap.key old)
      (taken : Exists fun p => p ∈ (heap.stset dst).stsetIdRbh ∧ heap.idOf p = heap.idOf old)
      (free : forall p, p ∈ (heap.stset dst).stsetIdRbh -> heap.idOf p ≠ (heap.stset dst).stsetId) :
      MoveOutcome heap dst src old
        (.ok (hangStack ((unlinkStack heap src old).setMps old
          { heap.mps old with mpsId := (heap.stset dst).stsetId }) dst old
          (uintSucc (heap.stset dst).stsetId), old))
  | refused (absent : forall p, p ∈ heap.members dst -> heap.key p ≠ heap.key old)
      (taken : Exists fun p => p ∈ (heap.stset dst).stsetIdRbh ∧ heap.idOf p = heap.idOf old)
      (clash : Exists fun p => p ∈ (heap.stset dst).stsetIdRbh ∧
        heap.idOf p = (heap.stset dst).stsetId) :
      MoveOutcome heap dst src old (.error .freshIdTaken)

theorem moveStack_outcome {old : Nat}
    (content : OrderedTree.Sorted heap.key (heap.stset dst).stsetRbh)
    (ids : OrderedTree.Sorted heap.idOf (heap.stset dst).stsetIdRbh) (different : dst ≠ src)
    (outside : old ∉ (heap.stset dst).stsetIdRbh) :
    MoveOutcome heap dst src old (moveStack heap dst src old) := by
  have sameSet : (unlinkStack heap src old).stset dst = heap.stset dst := by
    rw [unlinkStack, StackHeap.setStset_stset, Function.update_of_ne different]
  have contentOrder : (unlinkStack heap src old).contentOrder = heap.contentOrder := rfl
  have idOrder : (unlinkStack heap src old).idOrder = heap.idOrder := rfl
  unfold moveStack
  simp only [sameSet, contentOrder, idOrder]
  rcases OrderedTree.insert_cases (fun q _ => contentOrder_keyed heap old q) content with
    ⟨absent, accepted⟩ | ⟨p, inDst, same, found⟩
  · rw [OrderedTree.insert_accepted accepted]
    rcases OrderedTree.insert_cases (fun q _ => idOrder_keyed heap old q) ids with
      ⟨free, idAccepted⟩ | ⟨p, inIds, sameId, idFound⟩
    · rw [OrderedTree.insert_accepted idAccepted]
      have result : MoveOutcome heap dst src old _ := MoveOutcome.kept absent free
      unfold hangStack at result
      rw [sameSet] at result
      exact result
    · rw [idFound]
      have taken : Exists fun p => p ∈ (heap.stset dst).stsetIdRbh ∧ heap.idOf p = heap.idOf old :=
        ⟨p, inIds, sameId⟩
      -- the id tree of the destination, seen with the new id of the object
      dsimp only
      generalize isRenamed : (unlinkStack heap src old).setMps old
        { (unlinkStack heap src old).mps old with mpsId := (heap.stset dst).stsetId } = renamed
      have idOld : renamed.idOf old = (heap.stset dst).stsetId := by
        simp only [← isRenamed, StackHeap.idOf, StackHeap.setMps_mps, Function.update_self]
      have idOther : forall q, q ∈ (heap.stset dst).stsetIdRbh -> renamed.idOf q = heap.idOf q := by
        intro q member
        have others : q ≠ old := fun same => outside (same ▸ member)
        simp only [← isRenamed, StackHeap.idOf, StackHeap.setMps_mps, Function.update_of_ne others]
        rfl
      have sorted : OrderedTree.Sorted renamed.idOf (heap.stset dst).stsetIdRbh := by
        refine ids.imp_of_mem (fun {a b} memberA memberB less => ?_)
        rw [idOther a memberA, idOther b memberB]
        exact less
      rcases OrderedTree.insert_cases (fun q _ => idOrder_keyed renamed old q) sorted with
        ⟨free, idAccepted⟩ | ⟨q, clashes, sameNext, refusal⟩
      · rw [OrderedTree.insert_accepted idAccepted]
        have result : MoveOutcome heap dst src old _ := MoveOutcome.renamed absent taken
          (fun q member equal => free q member (by rw [idOther q member, idOld, equal]))
        have renamedSet : renamed.stset dst = heap.stset dst := by
          rw [← isRenamed]
          exact sameSet
        have renamedOrder : renamed.contentOrder = heap.contentOrder := by
          rw [← isRenamed]
          exact contentOrder_rename (unlinkStack heap src old) old (heap.stset dst).stsetId
        have sameObject : (unlinkStack heap src old).setMps old
            { heap.mps old with mpsId := (heap.stset dst).stsetId } = renamed := isRenamed
        rw [sameObject] at result
        unfold hangStack at result
        rw [renamedSet, renamedOrder] at result
        exact result
      · rw [refusal]
        exact MoveOutcome.refused absent taken
          ⟨q, clashes, by rw [← idOther q clashes, sameNext, idOld]⟩
  · rw [found]
    exact MoveOutcome.folded p inDst same

/-- In a well-formed destination both trees hold the same stacks. -/
theorem moveStack_case {old : Nat} (wf : StacksWf heap) (different : dst ≠ src)
    (member : old ∈ heap.members src) : MoveCase heap dst src old (moveStack heap dst src old) := by
  have own := wf.sets dst
  have outside : old ∉ (heap.stset dst).stsetIdRbh :=
    fun inDst => different (wf.apart dst src old ((own.same old).mp inDst) member)
  have outcome := moveStack_outcome own.content own.ids different outside
  generalize moveStack heap dst src old = result at outcome
  have inMembers :
      forall id, (Exists fun p => p ∈ (heap.stset dst).stsetIdRbh ∧ heap.idOf p = id) ->
      Exists fun p => p ∈ heap.members dst ∧ heap.idOf p = id := by
    rintro id ⟨p, inIds, isId⟩
    exact ⟨p, (own.same p).mp inIds, isId⟩
  cases outcome with
  | folded p inDst same => exact MoveCase.folded p inDst same
  | kept absent free => exact MoveCase.kept absent (fun q inDst => free q ((own.same q).mpr inDst))
  | renamed absent taken free =>
      exact MoveCase.renamed absent (inMembers _ taken)
        (fun q inDst => free q ((own.same q).mpr inDst))
  | refused absent taken clash =>
    exact MoveCase.refused absent (inMembers _ taken) (inMembers _ clash)

theorem shareStack_case {old : Nat}
    (content : OrderedTree.Sorted heap.key (heap.stset dst).stsetRbh)
    (positive : 0 < heap.mpsTop) (valid : dst ≠ 0) :
    ShareCase heap dst old block (shareStack heap dst old block) := by
  unfold shareStack
  cases found : heap.findContent (heap.mps old) (heap.stset dst).stsetRbh with
  | some p =>
      have parts := (findContent_some_iff content).mp found
      exact ShareCase.folded p parts.1 parts.2
  | none =>
      have absent := findContent_none_iff.mp found
      rcases mprofileAddStack_cases (heap.mps old) block content valid with
        ⟨p, inDst, same, -⟩ | ⟨-, ⟨uncopied, added⟩ | ⟨copy, copied, added⟩⟩
      · exact absurd same (absent p inDst)
      · simp only [added]
        cases block with
        | none => exact ShareCase.noMemory absent rfl
        | some words => cases uncopied
      · have result : ShareCase heap dst old _ _ := ShareCase.copied copy absent copied
        simp only [added]
        cases top : heap.mpsTop with
        | zero => omega
        | succ n => rw [top] at result; exact result

/-- `mprofile_merge_stack` between two sets. -/
theorem mprofileMergeStack_case (k : Nat) (block : Option (Int -> UInt64)) (wf : StacksWf heap)
    (different : dst ≠ src) (valid : dst ≠ 0) :
    ((forall p, p ∈ heap.members src -> heap.idOf p ≠ k) ∧
        mprofileMergeStack heap dst src k block = .error .sourceMissing) ∨
      Exists fun old => old ∈ heap.members src ∧ heap.idOf old = k ∧
        ((heap.countOf old = 1 ∧ MoveCase heap dst src old
          (mprofileMergeStack heap dst src k block)) ∨
          (heap.countOf old ≠ 1 ∧
            ShareCase heap dst old block (mprofileMergeStack heap dst src k block))) := by
  have source := wf.sets src
  unfold mprofileMergeStack
  cases found : heap.findId k (heap.stset src).stsetIdRbh with
  | none => exact Or.inl ⟨source.findId_none_iff.mp found, rfl⟩
  | some old =>
      have parts := source.findId_some_iff.mp found
      refine Or.inr ⟨old, parts.1, parts.2, ?_⟩
      by_cases single : (heap.mps old).mpsCount = 1
      · simp only [if_pos single]
        exact Or.inl ⟨single, moveStack_case wf different parts.1⟩
      · simp only [if_neg single]
        exact Or.inr ⟨single, shareStack_case (wf.sets dst).content wf.top valid⟩

theorem unlinkStack_self_hang {old : Nat} (trees : StsetTrees heap s)
    (member : old ∈ (heap.stset s).stsetIdRbh) :
    hangStack (unlinkStack heap s old) s old (heap.stset s).stsetId = heap := by
  have content := OrderedTree.insert_erase (fun q _ => contentOrder_keyed heap old q) trees.content
    (trees.indexed old member)
  have ids := OrderedTree.insert_erase (fun q _ => idOrder_keyed heap old q) trees.ids member
  have contentOrder : (unlinkStack heap s old).contentOrder = heap.contentOrder := rfl
  have idOrder : (unlinkStack heap s old).idOrder = heap.idOrder := rfl
  unfold hangStack
  rw [contentOrder, idOrder, unlinkStack, StackHeap.setStset_stset, Function.update_self]
  simp only
  rw [content, ids, StackHeap.setStset, StackHeap.setStset_stset, Function.update_idem,
    Function.update_eq_self]
  rfl

/-- Counting a use up and down again. -/
theorem unbump_bump (heap : StackHeap) (p : Nat) (small : heap.countOf p < 2 ^ 32) :
    (heap.bump p).unbump p = heap := by
  have count : uintPred (uintSucc (heap.mps p).mpsCount) = (heap.mps p).mpsCount := by
    unfold StackHeap.countOf at small
    unfold uintPred uintSucc
    omega
  unfold StackHeap.unbump StackHeap.bump
  simp only [StackHeap.setMps, Function.update_self, Function.update_idem, count,
    Function.update_eq_self]

/-- Merging a set into itself changes nothing. -/
theorem mprofileMergeStack_self (trees : StsetTrees heap s) {old : Nat}
    (member : old ∈ (heap.stset s).stsetIdRbh) (isId : heap.idOf old = k)
    (small : heap.countOf old < 2 ^ 32) :
    mprofileMergeStack heap s s k block = .ok (heap, old) := by
  have found := trees.findId_some_iff.mpr ⟨member, isId⟩
  have inContent := trees.indexed old member
  unfold mprofileMergeStack
  simp only [found]
  by_cases single : (heap.mps old).mpsCount = 1
  · rw [if_pos single]
    have back := unlinkStack_self_hang trees member
    have content := OrderedTree.insert_erase (fun q _ => contentOrder_keyed heap old q)
      trees.content inContent
    have ids := OrderedTree.insert_erase (fun q _ => idOrder_keyed heap old q) trees.ids member
    have contentOrder : (unlinkStack heap s old).contentOrder = heap.contentOrder := rfl
    have idOrder : (unlinkStack heap s old).idOrder = heap.idOrder := rfl
    have erased : (unlinkStack heap s old).stset s =
        { heap.stset s with
          stsetRbh := (heap.stset s).stsetRbh.erase old
          stsetIdRbh := (heap.stset s).stsetIdRbh.erase old } := by
      rw [unlinkStack, StackHeap.setStset_stset, Function.update_self]
    unfold moveStack
    unfold hangStack at back
    simp only [erased, contentOrder, idOrder, content, ids] at back ⊢
    rw [back]
  · rw [if_neg single]
    have self : heap.findContent (heap.mps old) (heap.stset s).stsetRbh = some old :=
      trees.findContent_some_iff.mpr ⟨inContent, rfl⟩
    unfold shareStack
    simp only [self, unbump_bump heap old small]

end Operations

end Mprofile
end OsslScripts
