import OsslScripts.Mprofile.Capture
import OsslScripts.Mprofile.MergeRoom
import OsslScripts.Utils.RbForest

namespace OsslScripts
namespace Mprofile

open Foundation
open Utils

/-!
# Stack sets on linked trees

The functions of stack.c once more, on the links of the red-black trees that hold
the stacks of a set by content and by id.  Each does what the corresponding function
on ordered lists does, whether it succeeds or stops.
-/

/-- Why a function on linked stacks does not return. -/
inductive LinkStop where
  | tree (stop : RbStop)
  | merge (fault : MergeFault)
  /-- `assert(mps->mps_flags == MPS_FLAG_MANAGED)` -/
  | unmanaged

/-- What has been given to `free`. -/
structure Freed where
  mps : List Nat
  stset : List Nat

/-- The stacks and the sets by address, the links of `mps_rbe` and of `mps_id_rbe`, and
what has been freed. -/
structure LinkedHeap where
  mps : Nat -> MprofileStack
  mpsTop : Nat
  stsetId : Nat -> Nat
  stsetTop : Nat
  mpsRbe : RbHeap
  mpsIdRbe : RbHeap
  freed : Freed

abbrev LinkM := StateT LinkedHeap (Except LinkStop)

namespace Linked

/-- Work on the trees that are ordered by content. -/
def content {α : Type} (m : RbM α) : LinkM α :=
  focus LinkedHeap.mpsRbe (fun heap links => { heap with mpsRbe := links }) LinkStop.tree m

/-- Work on the trees that are ordered by id. -/
def ids {α : Type} (m : RbM α) : LinkM α :=
  focus LinkedHeap.mpsIdRbe (fun heap links => { heap with mpsIdRbe := links }) LinkStop.tree m

def setMps (p : Nat) (change : MprofileStack -> MprofileStack) : LinkM Unit :=
  modify (fun heap => { heap with mps := Function.update heap.mps p (change (heap.mps p)) })

def free (p : Nat) : LinkM Unit :=
  modify (fun heap => { heap with freed := { heap.freed with mps := heap.freed.mps ++ [p] } })

def freeStset (stset : Nat) : LinkM Unit :=
  modify (fun heap =>
    { heap with freed := { heap.freed with stset := heap.freed.stset ++ [stset] } })

/-- `malloc` of a stack. -/
def allocate (mps : MprofileStack) : LinkM Nat := fun heap =>
  .ok (heap.mpsTop, { heap with
    mps := Function.update heap.mps heap.mpsTop mps
    mpsTop := heap.mpsTop + 1 })

/-- `stset->stset_id++`. -/
def nextId (stset : Nat) : LinkM Nat := fun heap =>
  .ok (heap.stsetId stset, { heap with
    stsetId := Function.update heap.stsetId stset (uintSucc (heap.stsetId stset)) })

variable (fuel : Nat)

/-- `RB_INSERT` by content. -/
def insertContent (stset p : Nat) : LinkM Nat := do
  let heap ← get
  content (rbInsert fuel (fun a b => stackCompare (heap.mps a) (heap.mps b)) stset p)

/-- `RB_INSERT` by id. -/
def insertId (stset p : Nat) : LinkM Nat := do
  let heap ← get
  ids (rbInsert fuel (fun a b => stackIdCompare (heap.mps a) (heap.mps b)) stset p)

/-- `RB_FIND` by content. -/
def findContent (key : MprofileStack) (stset : Nat) : LinkM Nat := do
  let heap ← get
  content (rbFind fuel (fun p => stackCompare key (heap.mps p)) stset)

/-- `RB_FIND` by id. -/
def findId (stackId stset : Nat) : LinkM Nat := do
  let heap ← get
  ids (rbFind fuel (fun p => threeWay stackId (heap.mps p).mpsId) stset)

/-- `mprofile_create_stset`; `ok` tells whether its `malloc` succeeds. -/
def mprofileCreateStset (ok : Bool) : LinkM Nat :=
  if ok then do
    let heap ← get
    content (rbInit heap.stsetTop)
    ids (rbInit heap.stsetTop)
    modify (fun heap => { heap with
      stsetId := Function.update heap.stsetId heap.stsetTop 1
      stsetTop := heap.stsetTop + 1 })
    pure heap.stsetTop
  else pure 0

/-- `mps->mps_count++`. -/
def countUse (p : Nat) : LinkM Unit :=
  setMps p (fun mps => { mps with mpsCount := uintSucc mps.mpsCount })

/-- A copy that has been made gets the next id of the set. -/
def linkCopy (stset : Nat) (copy : MprofileStack) : LinkM Nat := do
  let mps ← allocate copy
  let id ← nextId stset
  setMps mps (fun mps => { mps with mpsId := id })
  let _ ← insertContent fuel stset mps
  let _ ← insertId fuel stset mps
  pure mps

/-- `mprofile_add_stack`. -/
def mprofileAddStack (stset : Nat) (newMps : MprofileStack)
    (block : Option (Int -> UInt64)) : LinkM Nat :=
  if stset = 0 then pure 0
  else do
    let mps ← findContent fuel newMps stset
    if mps ≠ 0 then do
      countUse mps
      pure mps
    else
      match mprofileCopyStack newMps block with
      | none => pure 0
      | some copy => linkCopy fuel stset copy

/-- `RB_REMOVE` from both trees of the set. -/
def unlinkStack (stset p : Nat) : LinkM Unit := do
  let _ ← content (rbRemove fuel stset p)
  let _ ← ids (rbRemove fuel stset p)
  pure ()

/-- The id of a stack that has moved, if that is taken. -/
def renumber (dst old : Nat) : LinkM Unit := do
  let id ← nextId dst
  setMps old (fun mps => { mps with mpsId := id })
  let chk ← insertId fuel dst old
  if chk ≠ 0 then throw (.merge .freshIdTaken) else pure ()

/-- A stack that has moved keeps its id if that is free. -/
def settleId (dst old : Nat) : LinkM Unit := do
  let chk ← insertId fuel dst old
  if chk ≠ 0 then renumber fuel dst old else pure ()

/-- `mprofile_merge_stack`, for a stack with a single use. -/
def moveStack (dst src old : Nat) : LinkM Nat := do
  unlinkStack fuel src old
  let new ← insertContent fuel dst old
  if new = 0 then do
    settleId fuel dst old
    pure old
  else do
    free old
    countUse new
    pure new

/-- `mps->mps_count--`. -/
def uncountUse (p : Nat) : LinkM Unit :=
  setMps p (fun mps => { mps with mpsCount := uintPred mps.mpsCount })

/-- `mprofile_merge_stack`, for a stack with more uses. -/
def shareStack (dst old : Nat) (block : Option (Int -> UInt64)) : LinkM Nat := do
  let heap ← get
  let known ← findContent fuel (heap.mps old) dst
  if known = 0 then do
    let new ← mprofileAddStack fuel dst (heap.mps old) block
    if new = 0 then throw (.merge .noMemory)
    else do
      uncountUse old
      pure new
  else do
    countUse known
    uncountUse old
    pure known

/-- `mprofile_merge_stack`. -/
def mprofileMergeStack (dst src stackId : Nat) (block : Option (Int -> UInt64)) : LinkM Nat := do
  let old ← findId fuel stackId src
  if old = 0 then throw (.merge .sourceMissing)
  else do
    let heap ← get
    if (heap.mps old).mpsCount = 1 then moveStack fuel dst src old
      else shareStack fuel dst old block

/-- `mprofile_get_next_stack`. -/
def mprofileGetNextStack (stset mps : Nat) : LinkM Nat :=
  if stset = 0 then pure 0
  else if mps = 0 then content (rbMin fuel stset)
  else content (rbNext fuel mps)

/-- `mprofile_destroy_stack`. -/
def mprofileDestroyStack (mps : Nat) : LinkM Unit := do
  let heap ← get
  if (heap.mps mps).mpsFlags = mpsFlagManaged then free mps else throw .unmanaged

/-- The loop of `mprofile_destroy_stset`. -/
def destroyFrom (stset : Nat) : Nat -> Nat -> LinkM Unit
  | 0, _ => throw (.tree .outOfFuel)
  | turns + 1, mps =>
      if mps = 0 then pure ()
      else do
        let walk ← content (rbNext fuel mps)
        unlinkStack fuel stset mps
        mprofileDestroyStack mps
        destroyFrom stset turns walk

/-- `mprofile_destroy_stset` -/
def mprofileDestroyStset (turns stset : Nat) : LinkM Unit :=
  if stset = 0 then pure ()
  else do
    let mps ← content (rbMin fuel stset)
    destroyFrom fuel stset turns mps
    freeStset stset

end Linked

/-! ## Refinement -/

/-- The linked trees are those of the ordered lists, and this is what has been freed. -/
structure Embodies (linked : LinkedHeap) (heap : StackHeap) (freed : Freed) : Prop where
  mps : linked.mps = heap.mps
  mpsTop : linked.mpsTop = heap.mpsTop
  stsetId : linked.stsetId = fun s => (heap.stset s).stsetId
  stsetTop : linked.stsetTop = heap.stsetTop
  content : linked.mpsRbe.Plants (fun s => (heap.stset s).stsetRbh)
  ids : linked.mpsIdRbe.Plants (fun s => (heap.stset s).stsetIdRbh)
  freed : linked.freed = freed

/-- What the linked functions rely on: all trees are in order, and a stack is in the id
tree of a set only if it is in its content tree. -/
structure Tidy (heap : StackHeap) : Prop where
  inOrder : TreesInOrder heap
  indexed : forall s p, p ∈ (heap.stset s).stsetIdRbh -> p ∈ heap.members s

/-- `malloc` returns no block that a linked stack is in. -/
def StackHeap.NotInUse (heap : StackHeap) (block : Option (Int -> UInt64)) : Prop :=
  forall words, block = some words -> forall s p, p ∈ heap.members s ->
    (heap.mps p).mpsStack (-1) ≠ words (-1)

/-- The key of a copy is not that of a stack elsewhere in memory. -/
theorem key_copied_ne_of {known mps copy : MprofileStack} {block : Option (Int -> UInt64)}
    (notInUse : forall words, block = some words -> known.mpsStack (-1) ≠ words (-1))
    (copied : mprofileCopyStack mps block = some copy) (different : stackKey known ≠ stackKey mps)
    (id : Nat) :
    stackKey known ≠ stackKey { copy with mpsId := id } := by
  have fresh : StackHeap.freshBlock { StackHeap.empty with mps := fun _ => known } block := by
    cases block with
    | none => trivial
    | some words => exact fun _ _ => notInUse words rfl
  exact key_copied_ne (p := 0) fresh copied Nat.one_pos different id

section Primitives

variable {linked : LinkedHeap} {heap : StackHeap} {fuel s p : Nat} {freed : Freed}

/-- The stacks are no more than have been allocated. -/
theorem fuelled_of_lt {elems : List Nat} {top : Nat} (distinct : elems.Nodup) (proper : 0 ∉ elems)
    (below : forall x, x ∈ elems -> x < top) (positive : 0 < top)
    (enough : 2 * Nat.log 2 top < fuel) :
    Fuelled fuel elems := by
  have subset : (0 :: elems) ⊆ List.range top := by
    intro x member
    rcases List.mem_cons.mp member with rfl | inElems
    · exact List.mem_range.mpr positive
    · exact List.mem_range.mpr (below x inElems)
  have short := (List.subperm_of_subset (List.nodup_cons.mpr ⟨proper, distinct⟩) subset).length_le
  rw [List.length_cons, List.length_range] at short
  exact lt_of_le_of_lt (Nat.mul_le_mul_left 2 (Nat.log_mono_right short)) enough

theorem Embodies.proper_content (embodies : Embodies linked heap freed) (s : Nat) :
    0 ∉ heap.members s := by
  rcases embodies.content.shows s with ⟨t, shows, -, same⟩
  have proper := shows.proper
  rwa [same] at proper

theorem Embodies.proper_ids (embodies : Embodies linked heap freed) (s : Nat) :
    0 ∉ (heap.stset s).stsetIdRbh := by
  rcases embodies.ids.shows s with ⟨t, shows, -, same⟩
  have proper := shows.proper
  rwa [same] at proper

theorem Embodies.fuelled_content (embodies : Embodies linked heap freed)
    (inOrder : TreesInOrder heap)
    (enough : 2 * Nat.log 2 heap.mpsTop < fuel) (s : Nat) : Fuelled fuel (heap.stset s).stsetRbh :=
  fuelled_of_lt (inOrder.content s).nodup (embodies.proper_content s)
    (fun x member => inOrder.allocated s x (Or.inl member)) inOrder.top enough

theorem Embodies.fuelled_ids (embodies : Embodies linked heap freed) (tidy : Tidy heap)
    (enough : 2 * Nat.log 2 heap.mpsTop < fuel) (s : Nat) :
    Fuelled fuel (heap.stset s).stsetIdRbh :=
  fuelled_of_lt (tidy.inOrder.ids s).nodup
    (fun zero => embodies.proper_content s (tidy.indexed s 0 zero))
    (fun x member => tidy.inOrder.allocated s x (Or.inr member)) tidy.inOrder.top enough

/-- Set a set, and see one of its fields. -/
theorem field_setStset {β : Type} (field : MprofileStset -> β) (set : MprofileStset) :
    (fun t => field ((heap.setStset s set).stset t)) =
      Function.update (fun t => field (heap.stset t)) s (field set) := by
  funext t
  by_cases here : t = s
  · subst here
    rw [StackHeap.setStset_stset, Function.update_self, Function.update_self]
  · rw [StackHeap.setStset_stset, Function.update_of_ne here, Function.update_of_ne here]

/-- A change of the content tree of a set. -/
theorem Embodies.withContent (embodies : Embodies linked heap freed) {links : RbHeap}
    {rbh : List Nat}
    (plants : links.Plants (Function.update (fun t => (heap.stset t).stsetRbh) s rbh)) :
    Embodies { linked with mpsRbe := links } (heap.setStset s { heap.stset s with stsetRbh := rbh })
      freed := by
  refine ⟨embodies.mps, embodies.mpsTop, ?_, embodies.stsetTop, ?_, ?_, embodies.freed⟩
  · rw [field_setStset MprofileStset.stsetId, Function.update_eq_self]
    exact embodies.stsetId
  · rw [field_setStset MprofileStset.stsetRbh]
    exact plants
  · rw [field_setStset MprofileStset.stsetIdRbh, Function.update_eq_self]
    exact embodies.ids

/-- A change of the id tree of a set. -/
theorem Embodies.withIds (embodies : Embodies linked heap freed) {links : RbHeap} {idRbh : List Nat}
    (plants : links.Plants (Function.update (fun t => (heap.stset t).stsetIdRbh) s idRbh)) :
    Embodies { linked with mpsIdRbe := links }
      (heap.setStset s { heap.stset s with stsetIdRbh := idRbh }) freed := by
  refine ⟨embodies.mps, embodies.mpsTop, ?_, embodies.stsetTop, ?_, ?_, embodies.freed⟩
  · rw [field_setStset MprofileStset.stsetId, Function.update_eq_self]
    exact embodies.stsetId
  · rw [field_setStset MprofileStset.stsetRbh, Function.update_eq_self]
    exact embodies.content
  · rw [field_setStset MprofileStset.stsetIdRbh]
    exact plants

/-- `RB_INSERT` by content. -/
theorem Embodies.insertContent (embodies : Embodies linked heap freed) (inOrder : TreesInOrder heap)
    (enough : 2 * Nat.log 2 heap.mpsTop < fuel) (nonzero : p ≠ 0)
    (outside : forall t, p ∉ heap.members t) :
    Exists fun linked' => Runs (Linked.insertContent fuel s p) linked
        ((OrderedTree.insert heap.contentOrder p (heap.stset s).stsetRbh).2.getD 0) linked' ∧
      Embodies linked' (heap.setStset s { heap.stset s with
        stsetRbh := (OrderedTree.insert heap.contentOrder p (heap.stset s).stsetRbh).1 })
          freed := by
  have cuts : ColorTree.Cuts (heap.contentOrder p) (heap.stset s).stsetRbh :=
    ColorTree.Cuts.of_sorted (inOrder.content s) (fun q _ => contentOrder_keyed heap p q)
  rcases embodies.content.rbInsert cuts nonzero (fun t member => absurd member (outside t))
    (embodies.fuelled_content inOrder enough s) with ⟨links, ran, plants⟩
  have order : (fun a b => stackCompare (linked.mps a) (linked.mps b)) = heap.contentOrder := by
    rw [embodies.mps]
    rfl
  refine ⟨_, (runs_get linked).bind ?_, embodies.withContent plants⟩
  rw [order]
  exact runs_focus ran

/-- `RB_INSERT` by id. -/
theorem Embodies.insertId (embodies : Embodies linked heap freed)
    (sorted : OrderedTree.Sorted heap.idOf (heap.stset s).stsetIdRbh)
    (fuelled : Fuelled fuel (heap.stset s).stsetIdRbh) (nonzero : p ≠ 0)
    (outside : forall t, p ∉ (heap.stset t).stsetIdRbh) :
    Exists fun linked' => Runs (Linked.insertId fuel s p) linked
        ((OrderedTree.insert heap.idOrder p (heap.stset s).stsetIdRbh).2.getD 0) linked' ∧
      Embodies linked' (heap.setStset s { heap.stset s with
        stsetIdRbh := (OrderedTree.insert heap.idOrder p (heap.stset s).stsetIdRbh).1 }) freed := by
  have cuts : ColorTree.Cuts (heap.idOrder p) (heap.stset s).stsetIdRbh :=
    ColorTree.Cuts.of_sorted sorted (fun q _ => idOrder_keyed heap p q)
  rcases embodies.ids.rbInsert cuts nonzero (fun t member => absurd member (outside t)) fuelled with
    ⟨links, ran, plants⟩
  have order : (fun a b => stackIdCompare (linked.mps a) (linked.mps b)) = heap.idOrder := by
    rw [embodies.mps]
    rfl
  refine ⟨_, (runs_get linked).bind ?_, embodies.withIds plants⟩
  rw [order]
  exact runs_focus ran

/-- `RB_FIND` by content. -/
theorem Embodies.findContent (embodies : Embodies linked heap freed) (inOrder : TreesInOrder heap)
    (enough : 2 * Nat.log 2 heap.mpsTop < fuel) (key : MprofileStack) (s : Nat) :
    Runs (Linked.findContent fuel key s) linked
      ((heap.findContent key (heap.stset s).stsetRbh).getD 0) linked := by
  have cuts : ColorTree.Cuts (fun q => stackCompare key (heap.mps q)) (heap.stset s).stsetRbh :=
    ColorTree.Cuts.of_sorted (inOrder.content s) (fun q _ => stackCompare_keyed key (heap.mps q))
  have ran := embodies.content.rbFind cuts (embodies.fuelled_content inOrder enough s)
  refine (runs_get linked).bind ?_
  rw [embodies.mps]
  exact runs_focus ran

/-- `RB_FIND` by id. -/
theorem Embodies.findId (embodies : Embodies linked heap freed) (tidy : Tidy heap)
    (enough : 2 * Nat.log 2 heap.mpsTop < fuel) (id s : Nat) :
    Runs (Linked.findId fuel id s) linked ((heap.findId id (heap.stset s).stsetIdRbh).getD 0)
      linked := by
  have cuts : ColorTree.Cuts (fun q => threeWay id (heap.mps q).mpsId) (heap.stset s).stsetIdRbh :=
    ColorTree.Cuts.of_sorted (tidy.inOrder.ids s)
      (fun q _ => ⟨threeWay_neg_iff _ _, threeWay_zero_iff _ _⟩)
  have ran := embodies.ids.rbFind cuts (embodies.fuelled_ids tidy enough s)
  refine (runs_get linked).bind ?_
  rw [embodies.mps]
  exact runs_focus ran

/-- `RB_REMOVE` from both trees of the set. -/
theorem Embodies.unlinkStack (embodies : Embodies linked heap freed) (tidy : Tidy heap)
    (enough : 2 * Nat.log 2 heap.mpsTop < fuel) (inContent : p ∈ heap.members s)
    (inIds : p ∈ (heap.stset s).stsetIdRbh) :
    Exists fun linked' => Runs (Linked.unlinkStack fuel s p) linked () linked' ∧
      Embodies linked' (Mprofile.unlinkStack heap s p) freed := by
  rcases embodies.content.rbRemove inContent (embodies.fuelled_content tidy.inOrder enough s) with
    ⟨links, ran, plants⟩
  rcases embodies.ids.rbRemove inIds (embodies.fuelled_ids tidy enough s) with
    ⟨idLinks, idRan, idPlants⟩
  refine ⟨{ linked with mpsRbe := links, mpsIdRbe := idLinks }, ?_, ?_⟩
  · have first : Runs (Linked.content (rbRemove fuel s p)) linked p
        { linked with mpsRbe := links } :=
      runs_focus ran
    have second : Runs (Linked.ids (rbRemove fuel s p)) { linked with mpsRbe := links } p
        { linked with mpsRbe := links, mpsIdRbe := idLinks } := runs_focus idRan
    exact first.bind (second.bind (runs_pure () _))
  · refine ⟨embodies.mps, embodies.mpsTop, ?_, embodies.stsetTop, ?_, ?_, embodies.freed⟩
    · rw [Mprofile.unlinkStack, field_setStset MprofileStset.stsetId, Function.update_eq_self]
      exact embodies.stsetId
    · rw [Mprofile.unlinkStack, field_setStset MprofileStset.stsetRbh]
      exact plants
    · rw [Mprofile.unlinkStack, field_setStset MprofileStset.stsetIdRbh]
      exact idPlants

/-- A change of one stack. -/
theorem Embodies.setMps (embodies : Embodies linked heap freed) (p : Nat)
    (change : MprofileStack -> MprofileStack) :
    Exists fun linked' => Runs (Linked.setMps p change) linked () linked' ∧
      Embodies linked' (heap.setMps p (change (heap.mps p))) freed := by
  refine ⟨_, runs_modify _ linked, ?_, embodies.mpsTop, embodies.stsetId, embodies.stsetTop,
    embodies.content,
    embodies.ids, embodies.freed⟩
  rw [embodies.mps]
  rfl

theorem Embodies.countUse (embodies : Embodies linked heap freed) (p : Nat) :
    Exists fun linked' => Runs (Linked.countUse p) linked () linked' ∧
      Embodies linked' (heap.bump p) freed :=
  embodies.setMps p _

theorem Embodies.uncountUse (embodies : Embodies linked heap freed) (p : Nat) :
    Exists fun linked' => Runs (Linked.uncountUse p) linked () linked' ∧
      Embodies linked' (heap.unbump p) freed :=
  embodies.setMps p _

theorem Embodies.free (embodies : Embodies linked heap freed) (p : Nat) :
    Exists fun linked' => Runs (Linked.free p) linked () linked' ∧
      Embodies linked' heap { freed with mps := freed.mps ++ [p] } := by
  refine ⟨_, runs_modify _ linked, embodies.mps, embodies.mpsTop, embodies.stsetId,
    embodies.stsetTop, embodies.content,
    embodies.ids, ?_⟩
  rw [embodies.freed]

theorem Embodies.allocate (embodies : Embodies linked heap freed) (mps : MprofileStack) :
    Exists fun linked' => Runs (Linked.allocate mps) linked heap.mpsTop linked' ∧
      Embodies linked' (heap.alloc mps) freed := by
  have ran : Runs (Linked.allocate mps) linked heap.mpsTop
      { linked with
          mps := Function.update heap.mps heap.mpsTop mps, mpsTop := heap.mpsTop + 1 } := by
    rw [Runs, Linked.allocate, embodies.mpsTop, embodies.mps]
  exact ⟨_, ran, rfl, rfl, embodies.stsetId, embodies.stsetTop, embodies.content, embodies.ids,
    embodies.freed⟩

theorem Embodies.nextId (embodies : Embodies linked heap freed) (s : Nat) :
    Exists fun linked' => Runs (Linked.nextId s) linked (heap.stset s).stsetId linked' ∧
      Embodies linked'
        (heap.setStset s { heap.stset s with stsetId := uintSucc (heap.stset s).stsetId })
          freed := by
  have ran : Runs (Linked.nextId s) linked (heap.stset s).stsetId { linked with
      stsetId := Function.update (fun t => (heap.stset t).stsetId) s
          (uintSucc (heap.stset s).stsetId) } := by
    rw [Runs, Linked.nextId, embodies.stsetId]
  refine ⟨_, ran, embodies.mps, embodies.mpsTop, ?_, embodies.stsetTop, ?_, ?_, embodies.freed⟩
  · rw [field_setStset MprofileStset.stsetId]
  · rw [field_setStset MprofileStset.stsetRbh, Function.update_eq_self]
    exact embodies.content
  · rw [field_setStset MprofileStset.stsetIdRbh, Function.update_eq_self]
    exact embodies.ids

end Primitives

/-! ## Adding a stack -/

section Adding

variable {linked : LinkedHeap} {heap : StackHeap} {fuel s p next : Nat} {freed : Freed}
  {copy newMps : MprofileStack}
  {block : Option (Int -> UInt64)}

/-- The trees of all sets are as they were. -/
theorem Tidy.sameTrees {heap' : StackHeap} (tidy : Tidy heap) (inOrder : TreesInOrder heap')
    (content : forall t, (heap'.stset t).stsetRbh = (heap.stset t).stsetRbh)
    (ids : forall t, (heap'.stset t).stsetIdRbh = (heap.stset t).stsetIdRbh) : Tidy heap' := by
  refine ⟨inOrder, fun t p member => ?_⟩
  rw [ids] at member
  rw [StackHeap.members, content]
  exact tidy.indexed t p member

theorem Tidy.alloc (tidy : Tidy heap) (mps : MprofileStack) : Tidy (heap.alloc mps) :=
  tidy.sameTrees (tidy.inOrder.alloc mps) (fun _ => rfl) (fun _ => rfl)

theorem Tidy.setMps (tidy : Tidy heap) (outside : forall s, ¬ heap.Hangs s p)
    (mps : MprofileStack) :
    Tidy (heap.setMps p mps) :=
  tidy.sameTrees (tidy.inOrder.setMps outside mps) (fun _ => rfl) (fun _ => rfl)

theorem Tidy.bump (tidy : Tidy heap) (p : Nat) : Tidy (heap.bump p) :=
  tidy.sameTrees (tidy.inOrder.bump p) (fun _ => rfl) (fun _ => rfl)

theorem Tidy.unbump (tidy : Tidy heap) (p : Nat) : Tidy (heap.unbump p) :=
  tidy.sameTrees (tidy.inOrder.unbump p) (fun _ => rfl) (fun _ => rfl)

/-- Only the next id of a set changes. -/
theorem trees_setId (heap : StackHeap) (s next : Nat) :
    (forall t, ((heap.setStset s { heap.stset s with stsetId := next }).stset t).stsetRbh =
      (heap.stset t).stsetRbh) ∧
      forall t, ((heap.setStset s { heap.stset s with stsetId := next }).stset t).stsetIdRbh =
        (heap.stset t).stsetIdRbh := by
  constructor
  · intro t
    have same := congrFun (@field_setStset heap s _ MprofileStset.stsetRbh
      { heap.stset s with stsetId := next }) t
    rwa [Function.update_eq_self] at same
  · intro t
    have same := congrFun (@field_setStset heap s _ MprofileStset.stsetIdRbh
      { heap.stset s with stsetId := next }) t
    rwa [Function.update_eq_self] at same

theorem hangs_setId (heap : StackHeap) (s next t q : Nat) :
    (heap.setStset s { heap.stset s with stsetId := next }).Hangs t q ↔ heap.Hangs t q := by
  rw [StackHeap.Hangs, StackHeap.members, (trees_setId heap s next).1, (trees_setId heap s next).2]
  rfl

theorem Tidy.setId (tidy : Tidy heap) (s next : Nat) :
    Tidy (heap.setStset s { heap.stset s with stsetId := next }) := by
  have same := trees_setId heap s next
  have inOrder := tidy.inOrder
  refine tidy.sameTrees ⟨inOrder.top, fun t => ?_, fun t => ?_, fun t q hung => ?_,
    fun t u q inT inU => ?_⟩
    same.1 same.2
  · rw [same.1]
    exact inOrder.content t
  · rw [same.2]
    exact inOrder.ids t
  · exact inOrder.allocated t q ((hangs_setId heap s next t q).mp hung)
  · exact inOrder.apart t u q ((hangs_setId heap s next t q).mp inT)
      ((hangs_setId heap s next u q).mp inU)

/-- Only the content tree of a set changes. -/
theorem ids_setContent (heap : StackHeap) (s : Nat) (rbh : List Nat) (t : Nat) :
    ((heap.setStset s { heap.stset s with stsetRbh := rbh }).stset t).stsetIdRbh =
      (heap.stset t).stsetIdRbh := by
  have same := congrFun (@field_setStset heap s _ MprofileStset.stsetIdRbh
    { heap.stset s with stsetRbh := rbh }) t
  rwa [Function.update_eq_self] at same

/-- A new stack hangs in both trees, unless one of them refuses it. -/
theorem Embodies.hangBoth (embodies : Embodies linked heap freed) (tidy : Tidy heap)
    (enough : 2 * Nat.log 2 heap.mpsTop < fuel) (nonzero : p ≠ 0)
    (outside : forall t, ¬ heap.Hangs t p) :
    Exists fun linked' =>
      Runs (do let _ ← Linked.insertContent fuel s p; let _ ← Linked.insertId fuel s p; pure p)
        linked p linked' ∧ Embodies linked' (hangStack heap s p (heap.stset s).stsetId) freed := by
  have notContent : forall t, p ∉ heap.members t := fun t member => outside t (Or.inl member)
  rcases embodies.insertContent (s := s) tidy.inOrder enough nonzero notContent with
    ⟨middle, first, embodies1⟩
  let heap1 := heap.setStset s { heap.stset s with
    stsetRbh := (OrderedTree.insert heap.contentOrder p (heap.stset s).stsetRbh).1 }
  have sameIds :=
    ids_setContent heap s (OrderedTree.insert heap.contentOrder p (heap.stset s).stsetRbh).1
  have sorted : OrderedTree.Sorted heap1.idOf (heap1.stset s).stsetIdRbh := by
    rw [sameIds]
    exact tidy.inOrder.ids s
  have fuelled : Fuelled fuel (heap1.stset s).stsetIdRbh := by
    rw [sameIds]
    exact embodies.fuelled_ids tidy enough s
  have notIds : forall t, p ∉ (heap1.stset t).stsetIdRbh := by
    intro t member
    rw [sameIds] at member
    exact outside t (Or.inr member)
  rcases embodies1.insertId sorted fuelled nonzero notIds with ⟨last, second, embodies2⟩
  refine ⟨last, first.bind (second.bind (runs_pure p last)), ?_⟩
  have whole : heap1.setStset s { heap1.stset s with
      stsetIdRbh := (OrderedTree.insert heap1.idOrder p (heap1.stset s).stsetIdRbh).1 } =
        hangStack heap s p (heap.stset s).stsetId := by
    rw [sameIds]
    simp only [heap1, hangStack, StackHeap.setStset, Function.update_idem, Function.update_self]
    rfl
  rwa [whole] at embodies2

/-- The id tree has no stack that the content tree refuses. -/
theorem Tidy.hang (tidy : Tidy heap) (outside : forall t, ¬ heap.Hangs t p)
    (allocated : p < heap.mpsTop)
    (fresh : forall q, q ∈ heap.members s -> heap.key q ≠ heap.key p) (next : Nat) :
    Tidy (hangStack heap s p next) := by
  refine ⟨tidy.inOrder.hang outside allocated s next, fun t q member => ?_⟩
  by_cases here : t = s
  · subst here
    rw [StackHeap.members]
    rw [hangStack, StackHeap.setStset_stset, Function.update_self] at member ⊢
    have accepted := (OrderedTree.insert_fresh (fun q _ => contentOrder_keyed heap p q) fresh).1
    rcases OrderedTree.mem_insert member with rfl | old
    · exact OrderedTree.mem_insert_of_accepted accepted
    · exact OrderedTree.subset_insert _ _ _ (tidy.indexed t q old)
  · rw [StackHeap.members]
    rw [hangStack, StackHeap.setStset_stset, Function.update_of_ne here] at member ⊢
    exact tidy.indexed t q member

/-- A copy hangs in both trees of the set, under the next id. -/
theorem Embodies.linkCopy (embodies : Embodies linked heap freed) (tidy : Tidy heap)
    (enough : 2 * Nat.log 2 (heap.mpsTop + 1) < fuel)
    (fresh : forall q, q ∈ heap.members s ->
      heap.key q ≠ stackKey { copy with mpsId := (heap.stset s).stsetId }) :
    Exists fun linked' => Runs (Linked.linkCopy fuel s copy) linked heap.mpsTop linked' ∧
      Embodies linked'
        (linkStack (heap.alloc { copy with mpsId := (heap.stset s).stsetId }) s heap.mpsTop) freed ∧
      Tidy (linkStack (heap.alloc { copy with mpsId := (heap.stset s).stsetId }) s
        heap.mpsTop) := by
  let new := heap.alloc { copy with mpsId := (heap.stset s).stsetId }
  let heap3 := new.setStset s { new.stset s with stsetId := uintSucc (heap.stset s).stsetId }
  rcases embodies.allocate copy with ⟨linked1, first, embodies1⟩
  rcases embodies1.nextId s with ⟨linked2, second, embodies2⟩
  rcases embodies2.setMps heap.mpsTop (fun mps => { mps with mpsId := (heap.stset s).stsetId }) with
    ⟨linked3, third, embodies3⟩
  -- the object with its id, as one step
  have whole : ((heap.alloc copy).setStset s { (heap.alloc copy).stset s with
      stsetId := uintSucc ((heap.alloc copy).stset s).stsetId }).setMps heap.mpsTop
        { ((heap.alloc copy).setStset s { (heap.alloc copy).stset s with
          stsetId := uintSucc ((heap.alloc copy).stset s).stsetId }).mps heap.mpsTop with
            mpsId := (heap.stset s).stsetId } = heap3 := by
    simp only [heap3, new, StackHeap.alloc, StackHeap.setStset, StackHeap.setMps,
      Function.update_idem,
      Function.update_self]
  rw [whole] at embodies3
  have outside : forall t, ¬ heap3.Hangs t heap.mpsTop := by
    intro t hung
    exact tidy.inOrder.top_outside t ((hangs_setId new s _ t _).mp hung)
  have tidy3 : Tidy heap3 := (tidy.alloc _).setId s _
  rcases embodies3.hangBoth (s := s) tidy3 enough (Nat.ne_of_gt tidy.inOrder.top) outside with
    ⟨linked4, fourth, embodies4⟩
  have last : hangStack heap3 s heap.mpsTop (heap3.stset s).stsetId =
      linkStack new s heap.mpsTop := by
    simp only [heap3, hangStack, linkStack, StackHeap.setStset, Function.update_idem,
      Function.update_self]
    rfl
  have newKey : forall q, q ∈ heap3.members s -> heap3.key q ≠ heap3.key heap.mpsTop := by
    intro q member
    rw [StackHeap.members, (trees_setId new s _).1] at member
    have different : q ≠ heap.mpsTop :=
      fun same => tidy.inOrder.top_outside s (Or.inl (same ▸ member))
    have known : heap3.key q = heap.key q := by
      change stackKey (Function.update heap.mps heap.mpsTop _ q) = _
      rw [Function.update_of_ne different]
      rfl
    have own : heap3.key heap.mpsTop = stackKey { copy with mpsId := (heap.stset s).stsetId } := by
      change stackKey (Function.update heap.mps heap.mpsTop _ heap.mpsTop) = _
      rw [Function.update_self]
    rw [known, own]
    exact fresh q member
  have tidy4 := tidy3.hang outside (Nat.lt_succ_self _) newKey (heap3.stset s).stsetId
  rw [last] at embodies4 tidy4
  exact ⟨linked4, first.bind (second.bind (third.bind fourth)), embodies4, tidy4⟩

/-- `mprofile_add_stack`. -/
theorem Embodies.mprofileAddStack (embodies : Embodies linked heap freed) (tidy : Tidy heap)
    (enough : 2 * Nat.log 2 (heap.mpsTop + 1) < fuel) (notInUse : heap.NotInUse block) :
    Exists fun linked' =>
      Runs (Linked.mprofileAddStack fuel s newMps block) linked
        (Mprofile.mprofileAddStack heap s newMps block).2
        linked' ∧
      Embodies linked' (Mprofile.mprofileAddStack heap s newMps block).1 freed ∧
      Tidy (Mprofile.mprofileAddStack heap s newMps block).1 := by
  rw [Linked.mprofileAddStack, Mprofile.mprofileAddStack]
  by_cases valid : s = 0
  · rw [if_pos valid, if_pos valid]
    exact ⟨linked, runs_pure 0 linked, embodies, tidy⟩
  · rw [if_neg valid, if_neg valid]
    have less : 2 * Nat.log 2 heap.mpsTop < fuel :=
      lt_of_le_of_lt (Nat.mul_le_mul_left 2 (Nat.log_mono_right (Nat.le_succ _))) enough
    have search := embodies.findContent tidy.inOrder less newMps s
    cases found : heap.findContent newMps (heap.stset s).stsetRbh with
    | some p =>
        rw [found, Option.getD_some] at search
        have member := (OrderedTree.find_some found).1
        have nonzero : p ≠ 0 := fun zero => embodies.proper_content s (zero ▸ member)
        rcases embodies.countUse p with ⟨linked', counted, embodies'⟩
        refine ⟨linked', search.bind ?_, embodies', tidy.bump p⟩
        rw [if_pos nonzero]
        exact counted.bind (runs_pure p linked')
    | none =>
        rw [found, Option.getD_none] at search
        have unknown := findContent_none_iff.mp found
        simp only
        cases copied : mprofileCopyStack newMps block with
        | none =>
            refine ⟨linked, search.bind ?_, embodies, tidy⟩
            rw [if_neg (fun impossible => impossible rfl)]
            exact runs_pure 0 linked
        | some copy =>
            have newKey : forall q, q ∈ heap.members s ->
                heap.key q ≠ stackKey { copy with mpsId := (heap.stset s).stsetId } :=
                  fun q member =>
              key_copied_ne_of (fun words granted => notInUse words granted s q member) copied
                (unknown q member) _
            rcases embodies.linkCopy tidy enough newKey with ⟨linked', ran, embodies', tidy'⟩
            refine ⟨linked', search.bind ?_, embodies', tidy'⟩
            rw [if_neg (fun impossible => impossible rfl)]
            exact ran

end Adding

end Mprofile
end OsslScripts
