import OsslScripts.Mprofile.LinkedStacks

namespace OsslScripts
namespace Mprofile

open Foundation
open Utils

/-!
# Merging linked stack sets

`mprofile_merge_stack` on the links returns the stack that it returns on ordered
lists, and stops with the same fault.  A stack that has moved and whose content is
in the destination already is freed; nothing else is.
-/

/-! ## What moving and sharing leave -/

section Lists

variable {heap : StackHeap} {s dst src old p : Nat} {block : Option (Int -> UInt64)}
  {result : StackHeap × Nat}

/-- A stack that has moved gets its place in the id tree. -/
def settleId (heap : StackHeap) (dst old : Nat) : Except MergeFault StackHeap :=
  match OrderedTree.insert heap.idOrder old (heap.stset dst).stsetIdRbh with
  | (idRbh, none) => .ok (heap.setStset dst { heap.stset dst with stsetIdRbh := idRbh })
  | (_, some _) =>
      let renamed := heap.setMps old { heap.mps old with mpsId := (heap.stset dst).stsetId }
      match OrderedTree.insert renamed.idOrder old (heap.stset dst).stsetIdRbh with
      | (idRbh, none) => .ok (renamed.setStset dst
          { heap.stset dst with stsetId := uintSucc (heap.stset dst).stsetId, stsetIdRbh := idRbh })
      | (_, some _) => .error .freshIdTaken

/-- A move takes the stack out, puts it in by content, and settles its id. -/
theorem moveStack_eq (heap : StackHeap) (dst src old : Nat) : moveStack heap dst src old =
    match OrderedTree.insert (unlinkStack heap src old).contentOrder old
      ((unlinkStack heap src old).stset dst).stsetRbh with
    | (rbh, none) => (settleId ((unlinkStack heap src old).setStset dst
        { (unlinkStack heap src old).stset dst with stsetRbh := rbh }) dst old).map
          (fun final => (final, old))
    | (_, some same) => .ok ((unlinkStack heap src old).bump same, same) := by
  rw [moveStack]
  generalize unlinkStack heap src old = unlinked
  simp only
  rcases OrderedTree.insert unlinked.contentOrder old (unlinked.stset dst).stsetRbh with
    ⟨rbh, _ | same⟩
  · simp only [settleId, StackHeap.setStset_stset, Function.update_self, StackHeap.setStset_mps]
    have order : (unlinked.setStset dst { unlinked.stset dst with stsetRbh := rbh }).idOrder =
      unlinked.idOrder := rfl
    rw [order]
    rcases OrderedTree.insert unlinked.idOrder old (unlinked.stset dst).stsetIdRbh with
      ⟨idRbh, _ | taken⟩
    · simp only [Except.map, StackHeap.setStset, Function.update_idem]
    · simp only
      have renamedOrder :
        ((unlinked.setStset dst { unlinked.stset dst with stsetRbh := rbh }).setMps old
          { unlinked.mps old with mpsId := (unlinked.stset dst).stsetId }).idOrder =
            (unlinked.setMps old
              { unlinked.mps old with mpsId := (unlinked.stset dst).stsetId }).idOrder := rfl
      rw [renamedOrder]
      rcases OrderedTree.insert (unlinked.setMps old
        { unlinked.mps old with mpsId := (unlinked.stset dst).stsetId }).idOrder old
          (unlinked.stset dst).stsetIdRbh with ⟨again, _ | clash⟩
      · simp only [Except.map, StackHeap.setMps, StackHeap.setStset, Function.update_idem]
      · rfl
  · rfl

/-- The stack is in the id tree in the end, maybe under another id. -/
theorem settleId_placed {final : StackHeap} (settled : settleId heap dst old = .ok final) :
    Exists fun id => Exists fun next => final =
      (heap.setMps old { heap.mps old with mpsId := id }).setStset dst { heap.stset dst with
        stsetId := next
        stsetIdRbh :=
          (OrderedTree.insert (heap.setMps old { heap.mps old with mpsId := id }).idOrder old
          (heap.stset dst).stsetIdRbh).1 } := by
  rw [settleId] at settled
  cases first : OrderedTree.insert heap.idOrder old (heap.stset dst).stsetIdRbh with
  | mk idRbh refusal =>
      rw [first] at settled
      cases refusal with
      | none =>
          cases settled
          refine ⟨(heap.mps old).mpsId, (heap.stset dst).stsetId, ?_⟩
          have self : heap.setMps old { heap.mps old with mpsId := (heap.mps old).mpsId } =
              heap := by
            rw [StackHeap.setMps, Function.update_eq_self]
          rw [self, first]
      | some taken =>
          simp only at settled
          refine ⟨(heap.stset dst).stsetId, uintSucc (heap.stset dst).stsetId, ?_⟩
          cases second : OrderedTree.insert
            (heap.setMps old { heap.mps old with mpsId := (heap.stset dst).stsetId }).idOrder old
              (heap.stset dst).stsetIdRbh with
          | mk idRbh' clash =>
              rw [second] at settled
              cases clash with
              | none =>
                  cases settled
                  rfl
              | some _ => cases settled

/-- A stack that has moved is folded into one of the destination, or hangs there, maybe
under another id. -/
theorem moveStack_placed (inOrder : TreesInOrder (unlinkStack heap src old))
    (moved : moveStack heap dst src old = .ok result) :
    (Exists fun same => same ∈ (unlinkStack heap src old).members dst ∧
        result = ((unlinkStack heap src old).bump same, same)) ∨
      (forall q, q ∈ (unlinkStack heap src old).members dst ->
          (unlinkStack heap src old).key q ≠ (unlinkStack heap src old).key old) ∧
        Exists fun id => Exists fun next =>
          result = (hangStack ((unlinkStack heap src old).setMps old
          { (unlinkStack heap src old).mps old with mpsId := id }) dst old next, old) := by
  rw [moveStack_eq] at moved
  generalize unlinkStack heap src old = unlinked at inOrder moved
  rcases OrderedTree.insert_cases (fun q _ => contentOrder_keyed unlinked old q)
      (inOrder.content dst) with
    ⟨absent, accepted⟩ | ⟨same, inDst, -, found⟩
  · refine Or.inr ⟨absent, ?_⟩
    rw [OrderedTree.insert_accepted accepted] at moved
    simp only at moved
    cases settled : settleId (unlinked.setStset dst { unlinked.stset dst with
        stsetRbh := (OrderedTree.insert unlinked.contentOrder old (unlinked.stset dst).stsetRbh).1
            }) dst old with
    | error fault => rw [settled] at moved; cases moved
    | ok final =>
        rw [settled] at moved
        cases moved
        rcases settleId_placed settled with ⟨id, next, rfl⟩
        refine ⟨id, next, ?_⟩
        have content : (unlinked.setMps old { unlinked.mps old with mpsId := id }).contentOrder =
          unlinked.contentOrder := contentOrder_rename unlinked old id
        rw [hangStack, content]
        simp only [StackHeap.setMps, StackHeap.setStset, Function.update_idem, Function.update_self]
        rfl
  · rw [found] at moved
    cases moved
    exact Or.inl ⟨same, inDst, rfl⟩

/-! ## Linked stacks are not freed -/

theorem Tidy.unlink (tidy : Tidy heap) (s p : Nat) : Tidy (unlinkStack heap s p) := by
  refine ⟨tidy.inOrder.unlink s p, fun t q member => ?_⟩
  have parts := tidy.inOrder.hangs_unlink (Or.inr member)
  have inContent : q ∈ heap.members t := parts.1.elim id (tidy.indexed t q)
  by_cases here : t = s
  · subst here
    rw [StackHeap.members, unlinkStack, StackHeap.setStset_stset, Function.update_self]
    exact (List.mem_erase_of_ne (parts.2 rfl)).mpr inContent
  · rw [StackHeap.members, unlinkStack, StackHeap.setStset_stset, Function.update_of_ne here]
    exact inContent

theorem Tidy.hangs (tidy : Tidy heap) (hung : heap.Hangs s p) : p ∈ heap.members s :=
  hung.elim id (tidy.indexed s p)

/-- The linked stacks are managed ones, and none of them is freed. -/
structure Sound (heap : StackHeap) (freed : List Nat) : Prop where
  tidy : Tidy heap
  managed : forall s p, p ∈ heap.members s -> (heap.mps p).mpsFlags = mpsFlagManaged
  once : freed.Nodup
  allocated : forall p, p ∈ freed -> p < heap.mpsTop
  unlinked : forall p, p ∈ freed -> forall s, p ∉ heap.members s

variable {heap' : StackHeap} {freed : List Nat} {next : Nat}

/-- The stacks that are linked now were linked before. -/
theorem Sound.shrink (sound : Sound heap freed) (tidy : Tidy heap')
    (top : heap.mpsTop ≤ heap'.mpsTop)
    (linked : forall s p, p ∈ heap'.members s -> (Exists fun t => p ∈ heap.members t) ∧
      (heap'.mps p).mpsFlags = (heap.mps p).mpsFlags) : Sound heap' freed := by
  refine ⟨tidy, fun s p member => ?_, sound.once, fun p inFreed => ?_, fun p inFreed s member => ?_⟩
  · rcases linked s p member with ⟨⟨t, before⟩, same⟩
    exact same.trans (sound.managed t p before)
  · exact Nat.lt_of_lt_of_le (sound.allocated p inFreed) top
  · rcases (linked s p member).1 with ⟨t, before⟩
    exact sound.unlinked p inFreed t before

theorem flags_recount (heap : StackHeap) (p q count : Nat) :
    ((heap.setMps p { heap.mps p with mpsCount := count }).mps q).mpsFlags =
      (heap.mps q).mpsFlags := by
  rw [StackHeap.setMps_mps]
  by_cases here : q = p
  · subst here
    rw [Function.update_self]
  · rw [Function.update_of_ne here]

theorem Sound.bump (sound : Sound heap freed) (p : Nat) : Sound (heap.bump p) freed :=
  sound.shrink (sound.tidy.bump p) (Nat.le_refl _)
    (fun s q member => ⟨⟨s, member⟩, flags_recount heap p q _⟩)

theorem Sound.unbump (sound : Sound heap freed) (p : Nat) : Sound (heap.unbump p) freed :=
  sound.shrink (sound.tidy.unbump p) (Nat.le_refl _)
    (fun s q member => ⟨⟨s, member⟩, flags_recount heap p q _⟩)

theorem Sound.unlink (sound : Sound heap freed) (s p : Nat) :
    Sound (unlinkStack heap s p) freed := by
  refine sound.shrink (sound.tidy.unlink s p) (Nat.le_refl _) (fun t q member => ⟨⟨t, ?_⟩, rfl⟩)
  exact sound.tidy.hangs (sound.tidy.inOrder.hangs_unlink (Or.inl member)).1

/-- A stack outside of the trees is changed. -/
theorem Sound.setMps (sound : Sound heap freed) (outside : forall s, ¬ heap.Hangs s p)
    (mps : MprofileStack) :
    Sound (heap.setMps p mps) freed := by
  refine sound.shrink (sound.tidy.setMps outside mps) (Nat.le_refl _)
    (fun s q member => ⟨⟨s, member⟩, ?_⟩)
  have different : q ≠ p := fun same => outside s (Or.inl (same ▸ member))
  rw [StackHeap.setMps_mps, Function.update_of_ne different]

theorem Sound.alloc (sound : Sound heap freed) (mps : MprofileStack) :
    Sound (heap.alloc mps) freed :=
  (sound.setMps sound.tidy.inOrder.top_outside mps).shrink (sound.tidy.alloc mps) (Nat.le_succ _)
    (fun s _ member => ⟨⟨s, member⟩, rfl⟩)

/-- A managed stack outside of the trees is linked. -/
theorem Sound.hang (sound : Sound heap freed) (outside : forall t, ¬ heap.Hangs t p)
    (allocated : p < heap.mpsTop)
    (managed : (heap.mps p).mpsFlags = mpsFlagManaged) (kept : p ∉ freed)
    (fresh : forall q, q ∈ heap.members s -> heap.key q ≠ heap.key p) (next : Nat) :
    Sound (hangStack heap s p next) freed := by
  have tidy := sound.tidy.hang outside allocated fresh next
  have linked : forall t q, q ∈ (hangStack heap s p next).members t -> q = p ∨
      Exists fun t => q ∈ heap.members t := by
    intro t q member
    rcases hangs_hang (Or.inl member) with ⟨-, same⟩ | hung
    · exact Or.inl same
    · exact Or.inr ⟨t, sound.tidy.hangs hung⟩
  refine ⟨tidy, fun t q member => ?_, sound.once, sound.allocated, fun q inFreed t member => ?_⟩
  · rcases linked t q member with rfl | ⟨u, before⟩
    · exact managed
    · exact sound.managed u q before
  · rcases linked t q member with rfl | ⟨u, before⟩
    · exact kept inFreed
    · exact sound.unlinked q inFreed u before

/-- A stack that is linked nowhere is freed. -/
theorem Sound.free (sound : Sound heap freed) (allocated : p < heap.mpsTop) (kept : p ∉ freed)
    (outside : forall s, p ∉ heap.members s) : Sound heap (freed ++ [p]) := by
  have either : forall q, q ∈ freed ++ [p] -> q ∈ freed ∨ q = p := fun q member =>
    (List.mem_append.mp member).imp_right List.mem_singleton.mp
  refine ⟨sound.tidy, sound.managed, ?_, fun q member => ?_, fun q member => ?_⟩
  · exact List.nodup_append.mpr ⟨sound.once, List.nodup_singleton p, fun q inFreed r isLast same =>
      kept (List.mem_singleton.mp isLast ▸ same ▸ inFreed)⟩
  · rcases either q member with inFreed | rfl
    · exact sound.allocated q inFreed
    · exact allocated
  · rcases either q member with inFreed | rfl
    · exact sound.unlinked q inFreed
    · exact outside

theorem Sound.not_freed (sound : Sound heap freed) (member : p ∈ heap.members s) : p ∉ freed :=
  fun inFreed => sound.unlinked p inFreed s member

/-- Another id does not change the key of a stack. -/
theorem key_rename_ne {unlinked : StackHeap} {q : Nat} (outside : forall t, ¬ unlinked.Hangs t old)
    (inDst : q ∈ unlinked.members dst) (absent : unlinked.key q ≠ unlinked.key old) (id : Nat) :
    (unlinked.setMps old { unlinked.mps old with mpsId := id }).key q ≠
      (unlinked.setMps old { unlinked.mps old with mpsId := id }).key old := by
  have different : q ≠ old := fun equal => outside dst (Or.inl (equal ▸ inDst))
  rw [StackHeap.key, StackHeap.key, StackHeap.setMps_mps, Function.update_of_ne different,
    Function.update_self]
  exact absent

/-- Moving a stack frees it if it does not move. -/
theorem Sound.moveStack (sound : Sound heap freed) (member : old ∈ heap.members src)
    (moved : moveStack heap dst src old = .ok result) :
    Sound result.1 (freed ++ if result.2 = old then [] else [old]) := by
  have allocated := sound.tidy.inOrder.allocated src old (Or.inl member)
  have kept := sound.not_freed member
  have outside := sound.tidy.inOrder.unlink_outside (Or.inl member)
  have managed := sound.managed src old member
  have unlinked := sound.unlink src old
  rcases moveStack_placed unlinked.tidy.inOrder moved with
    ⟨same, inDst, rfl⟩ | ⟨absent, id, next, rfl⟩
  · have different : same ≠ old := fun equal => outside dst (Or.inl (equal ▸ inDst))
    rw [if_neg different]
    exact (unlinked.bump same).free allocated kept (fun s inSet => outside s (Or.inl inSet))
  · rw [if_pos rfl, List.append_nil]
    refine (unlinked.setMps outside _).hang outside allocated ?_ kept
      (fun q inDst => key_rename_ne outside inDst (absent q inDst) id) next
    rw [StackHeap.setMps_mps, Function.update_self]
    exact managed

/-- No stack of the set has the key of a copy that is new to it. -/
theorem newStack_fresh {newMps copy : MprofileStack} (tidy : Tidy heap)
    (notInUse : heap.NotInUse block)
    (copied : mprofileCopyStack newMps block = some copy)
    (unknown : forall p, p ∈ heap.members s -> heap.key p ≠ stackKey newMps) :
    forall q, q ∈ (newStack heap s copy).members s ->
      (newStack heap s copy).key q ≠ (newStack heap s copy).key heap.mpsTop := by
  intro q member same
  have different : q ≠ heap.mpsTop :=
    fun equal => tidy.inOrder.top_outside s (Or.inl (equal ▸ member))
  have others := congrArg stackKey (newStack_others heap s copy different)
  have own := congrArg stackKey (newStack_self heap s copy)
  exact key_copied_ne_of (fun words granted => notInUse words granted s q member) copied
    (unknown q member) _
    (others.symm.trans (Eq.trans same own))

/-- Adding a stack. -/
theorem Sound.mprofileAddStack {newMps : MprofileStack} (sound : Sound heap freed)
    (notInUse : heap.NotInUse block) :
    Sound (mprofileAddStack heap s newMps block).1 freed := by
  by_cases valid : s = 0
  · rw [Mprofile.mprofileAddStack, if_pos valid]
    exact sound
  · rcases mprofileAddStack_cases newMps block (sound.tidy.inOrder.content s) valid with
      ⟨p, -, -, added⟩ | ⟨unknown, ⟨-, added⟩ | ⟨copy, copied, added⟩⟩
    · rw [added]
      exact sound.bump p
    · rw [added]
      exact sound
    · rw [added]
      have managed : copy.mpsFlags = mpsFlagManaged := by
        cases block with
        | none => cases copied
        | some words =>
            cases copied
            rfl
      refine (sound.alloc _).hang sound.tidy.inOrder.top_outside (Nat.lt_succ_self _) ?_
        (fun inFreed => Nat.lt_irrefl _ (sound.allocated _ inFreed))
        (newStack_fresh sound.tidy notInUse copied unknown) _
      exact (congrArg MprofileStack.mpsFlags (newStack_self heap s copy)).trans managed

/-- A shared stack is counted, or added. -/
theorem shareStack_added (shared : shareStack heap dst old block = .ok result) :
    (Exists fun p => result = ((heap.bump p).unbump old, p)) ∨
      result = ((mprofileAddStack heap dst (heap.mps old) block).1.unbump old,
        (mprofileAddStack heap dst (heap.mps old) block).2) := by
  rw [Mprofile.shareStack] at shared
  cases found : heap.findContent (heap.mps old) (heap.stset dst).stsetRbh with
  | some p =>
      rw [found] at shared
      cases shared
      exact Or.inl ⟨p, rfl⟩
  | none =>
      rw [found] at shared
      rcases both : Mprofile.mprofileAddStack heap dst (heap.mps old) block with ⟨final, new⟩
      rw [both] at shared
      cases new with
      | zero => cases shared
      | succ n =>
          cases shared
          exact Or.inr rfl

/-- Sharing a stack. -/
theorem Sound.shareStack (sound : Sound heap freed) (notInUse : heap.NotInUse block)
    (shared : shareStack heap dst old block = .ok result) : Sound result.1 freed := by
  rcases shareStack_added shared with ⟨p, rfl⟩ | rfl
  · exact (sound.bump p).unbump old
  · exact (sound.mprofileAddStack notInUse).unbump old

/-- What `mprofile_merge_stack` frees, when it returns `new`. -/
def mergeFrees (heap : StackHeap) (src stackId new : Nat) : List Nat :=
  match heap.findId stackId (heap.stset src).stsetIdRbh with
  | none => []
  | some old => if (heap.mps old).mpsCount = 1 ∧ new ≠ old then [old] else []

/-- A merge moves a stack or shares it. -/
theorem mprofileMergeStack_parts {stackId : Nat} (tidy : Tidy heap)
    (merged : mprofileMergeStack heap dst src stackId block = .ok result) :
    (Exists fun old => old ∈ heap.members src ∧ moveStack heap dst src old = .ok result ∧
        mergeFrees heap src stackId result.2 = if result.2 = old then [] else [old]) ∨
      Exists fun old => shareStack heap dst old block = .ok result ∧
        mergeFrees heap src stackId result.2 = [] := by
  rw [Mprofile.mprofileMergeStack] at merged
  unfold mergeFrees
  cases found : heap.findId stackId (heap.stset src).stsetIdRbh with
  | none => rw [found] at merged; cases merged
  | some old =>
      rw [found] at merged
      simp only at merged ⊢
      by_cases single : (heap.mps old).mpsCount = 1
      · rw [if_pos single] at merged
        refine Or.inl ⟨old, tidy.indexed src old (OrderedTree.find_some found).1, merged, ?_⟩
        by_cases same : result.2 = old
        · rw [if_pos same, if_neg (fun both => both.2 same)]
        · rw [if_neg same, if_pos ⟨single, same⟩]
      · rw [if_neg single] at merged
        exact Or.inr ⟨old, merged, if_neg (fun both => single both.1)⟩

/-- Merging a stack. -/
theorem Sound.mprofileMergeStack {stackId : Nat} (sound : Sound heap freed)
    (notInUse : heap.NotInUse block)
    (merged : mprofileMergeStack heap dst src stackId block = .ok result) :
    Sound result.1 (freed ++ mergeFrees heap src stackId result.2) := by
  rcases mprofileMergeStack_parts sound.tidy merged with
    ⟨old, member, moved, frees⟩ | ⟨old, shared, frees⟩
  · rw [frees]
    exact sound.moveStack member moved
  · rw [frees, List.append_nil]
    exact sound.shareStack notInUse shared

/-! ## No stack is lost -/

/-- Each stack is freed, or linked in a set that has been created. -/
structure Accounted (heap : StackHeap) (freed : List Nat) : Prop where
  placed : forall p, 0 < p -> p < heap.mpsTop -> p ∈ freed ∨ Exists fun s => p ∈ heap.members s
  blank : forall s, heap.stsetTop ≤ s -> heap.members s = []

theorem Accounted.sameTrees (accounted : Accounted heap freed)
    (members : heap'.members = heap.members)
    (top : heap'.mpsTop = heap.mpsTop) (stsetTop : heap'.stsetTop = heap.stsetTop) :
    Accounted heap' freed := by
  refine ⟨?_, ?_⟩
  · rw [top, members]
    exact accounted.placed
  · rw [stsetTop, members]
    exact accounted.blank

theorem Accounted.mono (accounted : Accounted heap freed) {freed' : List Nat}
    (subset : freed ⊆ freed') :
    Accounted heap freed' :=
  ⟨fun p positive below =>
    (accounted.placed p positive below).imp_left (fun inFreed => subset inFreed),
    accounted.blank⟩

theorem Accounted.alloc (accounted : Accounted heap freed) (mps : MprofileStack) :
    Accounted (heap.alloc mps) (heap.mpsTop :: freed) := by
  refine ⟨fun p positive below => ?_, accounted.blank⟩
  by_cases new : p = heap.mpsTop
  · exact Or.inl (new ▸ List.mem_cons_self)
  · have old : p < heap.mpsTop := lt_of_le_of_ne (Nat.lt_succ_iff.mp below) new
    exact (accounted.placed p positive old).imp_left (List.mem_cons_of_mem _)

/-- A stack that was taken out of a set has to be linked again, or freed. -/
theorem Accounted.unlink (accounted : Accounted heap freed) (tidy : Tidy heap) (s p : Nat) :
    Accounted (unlinkStack heap s p) (p :: freed) := by
  refine ⟨fun q positive below => ?_, fun t beyond => ?_⟩
  · by_cases own : q = p
    · exact Or.inl (own ▸ List.mem_cons_self)
    · rcases accounted.placed q positive below with inFreed | ⟨t, member⟩
      · exact Or.inl (List.mem_cons_of_mem p inFreed)
      · refine Or.inr ⟨t, ?_⟩
        rw [StackHeap.members, unlinkStack, StackHeap.setStset_stset]
        by_cases here : t = s
        · subst here
          rw [Function.update_self]
          exact (List.mem_erase_of_ne own).mpr member
        · rw [Function.update_of_ne here]
          exact member
  · refine List.eq_nil_iff_forall_not_mem.mpr (fun q member => ?_)
    have before := tidy.hangs (tidy.inOrder.hangs_unlink (Or.inl member)).1
    rw [accounted.blank t beyond] at before
    cases before

theorem Accounted.hang (accounted : Accounted heap (p :: freed)) (created : s < heap.stsetTop)
    (fresh : forall q, q ∈ heap.members s -> heap.key q ≠ heap.key p) (next : Nat) :
    Accounted (hangStack heap s p next) freed := by
  refine ⟨fun q positive below => ?_, fun t beyond => ?_⟩
  · rcases accounted.placed q positive below with inFreed | ⟨t, member⟩
    · rcases List.mem_cons.mp inFreed with rfl | before
      · exact Or.inr ⟨s, (mem_hang fresh next q).mpr (Or.inl rfl)⟩
      · exact Or.inl before
    · refine Or.inr ⟨t, ?_⟩
      by_cases here : t = s
      · subst here
        exact (mem_hang fresh next q).mpr (Or.inr member)
      · rwa [members_hang_of_ne here]
  · have different : t ≠ s := fun same => Nat.not_lt.mpr beyond (same ▸ created)
    rw [members_hang_of_ne different]
    exact accounted.blank t beyond

theorem Accounted.mprofileAddStack {newMps : MprofileStack} (accounted : Accounted heap freed)
    (sound : Sound heap freed) (notInUse : heap.NotInUse block) (created : s < heap.stsetTop) :
    Accounted (mprofileAddStack heap s newMps block).1 freed := by
  by_cases valid : s = 0
  · rw [Mprofile.mprofileAddStack, if_pos valid]
    exact accounted
  · rcases mprofileAddStack_cases newMps block (sound.tidy.inOrder.content s) valid with
      ⟨p, -, -, added⟩ | ⟨unknown, ⟨-, added⟩ | ⟨copy, copied, added⟩⟩
    · rw [added]
      exact accounted.sameTrees rfl rfl rfl
    · rw [added]
      exact accounted
    · rw [added]
      exact (accounted.alloc _).hang created (newStack_fresh sound.tidy notInUse copied unknown) _

theorem Accounted.shareStack (accounted : Accounted heap freed) (sound : Sound heap freed)
    (notInUse : heap.NotInUse block) (created : dst < heap.stsetTop)
    (shared : shareStack heap dst old block = .ok result) : Accounted result.1 freed := by
  rcases shareStack_added shared with ⟨p, rfl⟩ | rfl
  · exact accounted.sameTrees rfl rfl rfl
  · exact (accounted.mprofileAddStack sound notInUse created).sameTrees rfl rfl rfl

theorem Accounted.moveStack (accounted : Accounted heap freed) (sound : Sound heap freed)
    (created : dst < heap.stsetTop) (moved : moveStack heap dst src old = .ok result)
    (member : old ∈ heap.members src) :
    Accounted result.1 (freed ++ if result.2 = old then [] else [old]) := by
  have unlinked := accounted.unlink sound.tidy src old
  have outside := sound.tidy.inOrder.unlink_outside (Or.inl member)
  rcases moveStack_placed (sound.unlink src old).tidy.inOrder moved with
    ⟨same, inDst, rfl⟩ | ⟨absent, id, next, rfl⟩
  · have different : same ≠ old := fun equal => outside dst (Or.inl (equal ▸ inDst))
    rw [if_neg different]
    refine (unlinked.mono (fun p member => ?_)).sameTrees rfl rfl rfl
    rcases List.mem_cons.mp member with rfl | inFreed
    · exact List.mem_append_right _ List.mem_cons_self
    · exact List.mem_append_left _ inFreed
  · rw [if_pos rfl, List.append_nil]
    have renamed : Accounted ((unlinkStack heap src old).setMps old
        { (unlinkStack heap src old).mps old with mpsId := id }) (old :: freed) :=
          unlinked.sameTrees rfl rfl rfl
    exact renamed.hang created (fun q inDst => key_rename_ne outside inDst (absent q inDst) id) next

theorem Accounted.mprofileMergeStack {stackId : Nat} (accounted : Accounted heap freed)
    (sound : Sound heap freed)
    (notInUse : heap.NotInUse block) (created : dst < heap.stsetTop)
    (merged : mprofileMergeStack heap dst src stackId block = .ok result) :
    Accounted result.1 (freed ++ mergeFrees heap src stackId result.2) := by
  rcases mprofileMergeStack_parts sound.tidy merged with
    ⟨old, member, moved, frees⟩ | ⟨old, shared, frees⟩
  · rw [frees]
    exact accounted.moveStack sound created moved member
  · rw [frees, List.append_nil]
    exact accounted.shareStack sound notInUse created shared

end Lists

/-! ## Refinement -/

/-- The linked program returns what the list program returns, or stops where that stops. -/
def Agrees (m : LinkM Nat) (linked : LinkedHeap) (freed : Freed) (frees : Nat -> List Nat) :
    Except MergeFault (StackHeap × Nat) -> Prop
  | .ok result => Exists fun linked' => Runs m linked result.2 linked' ∧
      Embodies linked' result.1 { freed with mps := freed.mps ++ frees result.2 }
  | .error fault => Stops m linked (.merge fault)

theorem Agrees.after {α : Type} {m : LinkM α} {next : α -> LinkM Nat} {linked linked' : LinkedHeap}
    {value : α}
    {freed : Freed} {frees : Nat -> List Nat} {result : Except MergeFault (StackHeap × Nat)}
    (first : Runs m linked value linked')
    (onward : Agrees (next value) linked' freed frees result) :
    Agrees (m >>= next) linked freed frees result := by
  cases result with
  | ok both =>
      rcases onward with ⟨final, ran, embodies⟩
      exact ⟨final, first.bind ran, embodies⟩
  | error fault => exact first.then_stops onward

theorem Agrees.refree {m : LinkM Nat} {linked : LinkedHeap} {freed : Freed}
    {frees frees' : Nat -> List Nat}
    {result : Except MergeFault (StackHeap × Nat)} (agrees : Agrees m linked freed frees result)
    (same : forall new, frees new = frees' new) : Agrees m linked freed frees' result := by
  have equal : frees = frees' := funext same
  exact equal ▸ agrees

section Merging

variable {linked : LinkedHeap} {heap : StackHeap} {fuel s dst src old stackId : Nat} {freed : Freed}
  {block : Option (Int -> UInt64)}

/-- The next id of the set. -/
theorem Embodies.renumber (embodies : Embodies linked heap freed)
    (sorted : forall id, OrderedTree.Sorted (heap.setMps old { heap.mps old with mpsId := id }).idOf
      (heap.stset dst).stsetIdRbh)
    (fuelled : Fuelled fuel (heap.stset dst).stsetIdRbh) (nonzero : old ≠ 0)
    (outside : forall t, old ∉ (heap.stset t).stsetIdRbh) :
    match OrderedTree.insert
      (heap.setMps old { heap.mps old with mpsId := (heap.stset dst).stsetId }).idOrder old
        (heap.stset dst).stsetIdRbh with
    | (idRbh, none) => Exists fun linked' => Runs (Linked.renumber fuel dst old) linked () linked' ∧
        Embodies linked'
          ((heap.setMps old { heap.mps old with mpsId := (heap.stset dst).stsetId }).setStset dst
          { heap.stset dst with stsetId := uintSucc (heap.stset dst).stsetId, stsetIdRbh := idRbh })
            freed
    | (_, some _) => Stops (Linked.renumber fuel dst old) linked (.merge .freshIdTaken) := by
  let counted :=
    heap.setStset dst { heap.stset dst with stsetId := uintSucc (heap.stset dst).stsetId }
  let renamed := counted.setMps old { counted.mps old with mpsId := (heap.stset dst).stsetId }
  have sameIds : forall t, (renamed.stset t).stsetIdRbh = (heap.stset t).stsetIdRbh :=
    (trees_setId heap dst _).2
  have sameOrder : renamed.idOrder = (heap.setMps old
    { heap.mps old with mpsId := (heap.stset dst).stsetId }).idOrder := rfl
  rcases embodies.nextId dst with ⟨linked1, first, embodies1⟩
  rcases embodies1.setMps old (fun mps => { mps with mpsId := (heap.stset dst).stsetId }) with
    ⟨linked2, second, embodies2⟩
  have sorted2 : OrderedTree.Sorted renamed.idOf (renamed.stset dst).stsetIdRbh := by
    rw [sameIds]
    exact sorted _
  have fuelled2 : Fuelled fuel (renamed.stset dst).stsetIdRbh := by
    rw [sameIds]
    exact fuelled
  have outside2 : forall t, old ∉ (renamed.stset t).stsetIdRbh := by
    intro t
    rw [sameIds]
    exact outside t
  rcases embodies2.insertId sorted2 fuelled2 nonzero outside2 with ⟨linked3, third, embodies3⟩
  change Runs _ linked2
    ((OrderedTree.insert renamed.idOrder old (renamed.stset dst).stsetIdRbh).2.getD 0) linked3
    at third
  change Embodies linked3 (renamed.setStset dst { renamed.stset dst with
    stsetIdRbh := (OrderedTree.insert renamed.idOrder old (renamed.stset dst).stsetIdRbh).1 })
      freed at embodies3
  rw [sameIds, sameOrder] at third embodies3
  cases inserted : OrderedTree.insert (heap.setMps old
    { heap.mps old with mpsId := (heap.stset dst).stsetId }).idOrder old
        (heap.stset dst).stsetIdRbh with
  | mk idRbh refusal =>
      rw [inserted] at third embodies3
      cases refusal with
      | none =>
          refine ⟨linked3, first.bind (second.bind (third.bind ?_)), ?_⟩
          · rw [Option.getD_none, if_neg (fun impossible => impossible rfl)]
            exact runs_pure () linked3
          · simp only [renamed, counted, StackHeap.setMps, StackHeap.setStset, Function.update_idem,
              Function.update_self] at embodies3
            exact embodies3
      | some clash =>
          refine first.then_stops (second.then_stops (third.then_stops ?_))
          have inIds := (OrderedTree.insert_refused (congrArg Prod.snd inserted)).1
          have taken : clash ≠ 0 := fun zero => embodies.proper_ids dst (zero ▸ inIds)
          rw [Option.getD_some, if_pos taken]
          rfl

/-- The id of a stack that has moved. -/
theorem Embodies.settleId (embodies : Embodies linked heap freed)
    (sorted : OrderedTree.Sorted heap.idOf (heap.stset dst).stsetIdRbh)
    (fuelled : Fuelled fuel (heap.stset dst).stsetIdRbh) (nonzero : old ≠ 0)
    (outside : forall t, old ∉ (heap.stset t).stsetIdRbh) :
    match Mprofile.settleId heap dst old with
    | .ok final => Exists fun linked' => Runs (Linked.settleId fuel dst old) linked () linked' ∧
        Embodies linked' final freed
    | .error fault => Stops (Linked.settleId fuel dst old) linked (.merge fault) := by
  rcases embodies.insertId sorted fuelled nonzero outside with ⟨linked1, first, embodies1⟩
  rw [Mprofile.settleId]
  cases inserted : OrderedTree.insert heap.idOrder old (heap.stset dst).stsetIdRbh with
  | mk idRbh refusal =>
      rw [inserted] at first embodies1
      cases refusal with
      | none =>
          refine ⟨linked1, first.bind ?_, embodies1⟩
          rw [Option.getD_none, if_neg (fun impossible => impossible rfl)]
          exact runs_pure () linked1
      | some taken =>
          have refused := OrderedTree.insert_refused (congrArg Prod.snd inserted)
          have nonzeroTaken : taken ≠ 0 := fun zero => embodies.proper_ids dst (zero ▸ refused.1)
          -- the tree is as before, so the sets are
          have same : heap.setStset dst { heap.stset dst with stsetIdRbh := idRbh } = heap := by
            have tree : idRbh = (heap.stset dst).stsetIdRbh := by
              rw [← refused.2, inserted]
            rw [tree, StackHeap.setStset, Function.update_eq_self]
          rw [same] at embodies1
          have resorted : forall id, OrderedTree.Sorted
            (heap.setMps old { heap.mps old with mpsId := id }).idOf
              (heap.stset dst).stsetIdRbh := by
            intro id
            refine sorted.imp_of_mem (fun {a b} memberA memberB less => ?_)
            have notA : a ≠ old := fun equal => outside dst (equal ▸ memberA)
            have notB : b ≠ old := fun equal => outside dst (equal ▸ memberB)
            rw [StackHeap.idOf, StackHeap.idOf, StackHeap.setMps_mps, Function.update_of_ne notA,
              Function.update_of_ne notB]
            exact less
          have again := embodies1.renumber resorted fuelled nonzero outside
          simp only
          rw [Option.getD_some] at first
          cases second : OrderedTree.insert (heap.setMps old
              { heap.mps old with mpsId := (heap.stset dst).stsetId }).idOrder old
                  (heap.stset dst).stsetIdRbh with
          | mk idRbh' clash =>
              rw [second] at again
              cases clash with
              | none =>
                  rcases again with ⟨linked2, ran, embodies2⟩
                  refine ⟨linked2, first.bind ?_, embodies2⟩
                  rw [if_pos nonzeroTaken]
                  exact ran
              | some _ =>
                  refine first.then_stops ?_
                  rw [if_pos nonzeroTaken]
                  exact again

/-- Moving a stack. -/
theorem Embodies.moveStack (embodies : Embodies linked heap freed) (tidy : Tidy heap)
    (enough : 2 * Nat.log 2 heap.mpsTop < fuel) (member : old ∈ (heap.stset src).stsetIdRbh) :
    Agrees (Linked.moveStack fuel dst src old) linked freed
      (fun new => if new = old then [] else [old])
      (Mprofile.moveStack heap dst src old) := by
  have inContent := tidy.indexed src old member
  have nonzero : old ≠ 0 := fun zero => embodies.proper_content src (zero ▸ inContent)
  have outside := tidy.inOrder.unlink_outside (Or.inr member)
  have tidy1 := tidy.unlink src old
  have enough1 : 2 * Nat.log 2 (Mprofile.unlinkStack heap src old).mpsTop < fuel := enough
  rcases embodies.unlinkStack tidy enough inContent member with ⟨linked1, first, embodies1⟩
  rw [moveStack_eq]
  generalize Mprofile.unlinkStack heap src old = unlinked at outside tidy1 enough1 embodies1 ⊢
  have notContent : forall t, old ∉ unlinked.members t := fun t inTree => outside t (Or.inl inTree)
  rcases embodies1.insertContent (s := dst) tidy1.inOrder enough1 nonzero notContent with
    ⟨linked2, second, embodies2⟩
  cases inserted : OrderedTree.insert unlinked.contentOrder old (unlinked.stset dst).stsetRbh with
  | mk rbh refusal =>
      rw [inserted] at second embodies2
      cases refusal with
      | none =>
          rw [Option.getD_none] at second
          have sameIds := ids_setContent unlinked dst rbh
          have settled := embodies2.settleId
            (by rw [sameIds]; exact tidy1.inOrder.ids dst)
            (by rw [sameIds]; exact embodies1.fuelled_ids tidy1 enough1 dst) nonzero
            (fun t => by rw [sameIds]; exact fun inTree => outside t (Or.inr inTree))
          simp only at settled ⊢
          cases final : Mprofile.settleId
            (unlinked.setStset dst { unlinked.stset dst with stsetRbh := rbh }) dst
              old with
          | error fault =>
              rw [final] at settled
              refine first.then_stops (second.then_stops ?_)
              rw [if_pos rfl]
              exact settled.bind
          | ok final' =>
              rw [final] at settled
              rcases settled with ⟨linked3, third, embodies3⟩
              refine ⟨linked3, first.bind (second.bind ?_), ?_⟩
              · rw [if_pos rfl]
                exact third.bind (runs_pure old linked3)
              · simp only [if_true, List.append_nil]
                exact embodies3
      | some same =>
          rw [Option.getD_some] at second
          have refused := OrderedTree.insert_refused (congrArg Prod.snd inserted)
          have nonzeroSame : same ≠ 0 := fun zero => embodies1.proper_content dst (zero ▸ refused.1)
          have different : same ≠ old := fun equal => notContent dst (equal ▸ refused.1)
          have kept : unlinked.setStset dst { unlinked.stset dst with stsetRbh := rbh } =
              unlinked := by
            have tree : rbh = (unlinked.stset dst).stsetRbh := by
              rw [← refused.2, inserted]
            rw [tree, StackHeap.setStset, Function.update_eq_self]
          rw [kept] at embodies2
          rcases embodies2.free old with ⟨linked3, third, embodies3⟩
          rcases embodies3.countUse same with ⟨linked4, fourth, embodies4⟩
          refine ⟨linked4, first.bind (second.bind ?_), ?_⟩
          · rw [if_neg nonzeroSame]
            exact third.bind (fourth.bind (runs_pure same linked4))
          · simp only [if_neg different]
            exact embodies4

/-- Sharing a stack. -/
theorem Embodies.shareStack (embodies : Embodies linked heap freed) (tidy : Tidy heap)
    (enough : 2 * Nat.log 2 (heap.mpsTop + 1) < fuel) (notInUse : heap.NotInUse block) :
    Agrees (Linked.shareStack fuel dst old block) linked freed (fun _ => [])
      (Mprofile.shareStack heap dst old block) := by
  have less : 2 * Nat.log 2 heap.mpsTop < fuel :=
    lt_of_le_of_lt (Nat.mul_le_mul_left 2 (Nat.log_mono_right (Nat.le_succ _))) enough
  have search := embodies.findContent tidy.inOrder less (heap.mps old) dst
  have same : linked.mps old = heap.mps old := congrFun embodies.mps old
  rw [Mprofile.shareStack]
  cases found : heap.findContent (heap.mps old) (heap.stset dst).stsetRbh with
  | some new =>
      rw [found, Option.getD_some, ← same] at search
      have nonzero : new ≠ 0 :=
        fun zero => embodies.proper_content dst (zero ▸ (OrderedTree.find_some found).1)
      rcases embodies.countUse new with ⟨linked1, second, embodies1⟩
      rcases embodies1.uncountUse old with ⟨linked2, third, embodies2⟩
      refine ⟨linked2, (runs_get linked).bind (search.bind ?_), ?_⟩
      · rw [if_neg nonzero]
        exact second.bind (third.bind (runs_pure new linked2))
      · rw [List.append_nil]
        exact embodies2
  | none =>
      rw [found, Option.getD_none, ← same] at search
      rcases @Embodies.mprofileAddStack _ _ _ dst _ (heap.mps old) _ embodies tidy enough
          notInUse with
        ⟨linked1, second, embodies1, -⟩
      rw [← same] at second embodies1
      simp only
      rw [← same]
      rcases both : Mprofile.mprofileAddStack heap dst (linked.mps old) block with ⟨final, new⟩
      rw [both] at second embodies1
      cases new with
      | zero =>
          refine (runs_get linked).then_stops (search.then_stops ?_)
          rw [if_pos rfl]
          refine second.then_stops ?_
          rw [if_pos rfl]
          rfl
      | succ n =>
          rcases embodies1.uncountUse old with ⟨linked2, third, embodies2⟩
          refine ⟨linked2, (runs_get linked).bind (search.bind ?_), ?_⟩
          · rw [if_pos rfl]
            refine second.bind ?_
            rw [if_neg (Nat.succ_ne_zero n)]
            exact third.bind (runs_pure (n + 1) linked2)
          · rw [List.append_nil]
            exact embodies2

/-- `mprofile_merge_stack` -/
theorem Embodies.mprofileMergeStack (embodies : Embodies linked heap freed) (tidy : Tidy heap)
    (enough : 2 * Nat.log 2 (heap.mpsTop + 1) < fuel) (notInUse : heap.NotInUse block) :
    Agrees (Linked.mprofileMergeStack fuel dst src stackId block) linked freed
      (mergeFrees heap src stackId)
      (Mprofile.mprofileMergeStack heap dst src stackId block) := by
  have less : 2 * Nat.log 2 heap.mpsTop < fuel :=
    lt_of_le_of_lt (Nat.mul_le_mul_left 2 (Nat.log_mono_right (Nat.le_succ _))) enough
  have search := embodies.findId tidy less stackId src
  rw [Mprofile.mprofileMergeStack]
  unfold mergeFrees
  cases found : heap.findId stackId (heap.stset src).stsetIdRbh with
  | none =>
      rw [found, Option.getD_none] at search
      refine search.then_stops ?_
      rw [if_pos rfl]
      rfl
  | some old =>
      rw [found, Option.getD_some] at search
      have member := (OrderedTree.find_some found).1
      have nonzero : old ≠ 0 := fun zero => embodies.proper_ids src (zero ▸ member)
      have same : linked.mps old = heap.mps old := congrFun embodies.mps old
      refine Agrees.after search ?_
      rw [if_neg nonzero]
      refine Agrees.after (runs_get linked) ?_
      rw [same]
      by_cases single : (heap.mps old).mpsCount = 1
      · simp only [if_pos single]
        refine (embodies.moveStack tidy less member).refree (fun new => ?_)
        by_cases isOld : new = old
        · rw [if_pos isOld, if_neg (fun parts => parts.2 isOld)]
        · rw [if_neg isOld, if_pos ⟨single, isOld⟩]
      · simp only [if_neg single]
        refine (embodies.shareStack tidy enough notInUse).refree (fun new => ?_)
        rw [if_neg (fun parts => single parts.1)]

end Merging

end Mprofile
end OsslScripts
