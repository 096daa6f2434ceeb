import OsslScripts.Foundation.Transition
import OsslScripts.Mprofile.Save
import OsslScripts.Mprofile.StackSets

namespace OsslScripts
namespace Mprofile

open Foundation

/-!
# When a merge goes through

`mprofile_merge_stack` gives up in two cases: a stack that is used once more than
once needs a copy and gets no memory for it, or a stack that moves finds its own
id and the next id of the destination in use.  `GoesOver` says that neither is so,
in terms of the two sets.

The sets are taken as the hooks leave them, also with stacks that have no frames
and with copies that could not be made.  A set that is merged has to back the ids
of the records that are left; what it hands to the destination is of no concern.
-/

/-- A stack of the set with this id can go over to the destination. -/
def GoesOver (heap : StackHeap) (dst src id : Nat) (block : Option (Int -> UInt64)) : Prop :=
  forall old, old ∈ (heap.stset src).stsetIdRbh -> heap.idOf old = id ->
    (Exists fun p => p ∈ heap.members dst ∧ heap.key p = heap.key old) ∨
      if heap.countOf old = 1 then
        (forall p, p ∈ (heap.stset dst).stsetIdRbh -> heap.idOf p ≠ id) ∨
          forall p, p ∈ (heap.stset dst).stsetIdRbh -> heap.idOf p ≠ (heap.stset dst).stsetId
      else block ≠ none

/-- The stack hangs in one of the trees of the set. -/
def StackHeap.Hangs (heap : StackHeap) (s p : Nat) : Prop :=
  p ∈ heap.members s ∨ p ∈ (heap.stset s).stsetIdRbh

/-- The trees are in order, and each stack hangs in one set at most. -/
structure TreesInOrder (heap : StackHeap) : Prop where
  top : 0 < heap.mpsTop
  content : forall s, OrderedTree.Sorted heap.key (heap.stset s).stsetRbh
  ids : forall s, OrderedTree.Sorted heap.idOf (heap.stset s).stsetIdRbh
  allocated : forall s p, heap.Hangs s p -> p < heap.mpsTop
  apart : forall s t p, heap.Hangs s p -> heap.Hangs t p -> s = t

/-- The set can be asked once for the stack of each of these records. -/
structure Backs (heap : StackHeap) (s : Nat) (ids : List Nat) : Prop where
  held : forall id, id ∈ ids -> id ≠ 0 -> Exists fun p => p ∈ (heap.stset s).stsetIdRbh ∧
    heap.idOf p = id ∧ ids.count id ≤ heap.countOf p
  small : forall p, p ∈ (heap.stset s).stsetIdRbh -> heap.countOf p < 2 ^ 32

/-- What the ids of a set stand for stays as it is. -/
structure SameIds (heap heap' : StackHeap) (s : Nat) : Prop where
  stset : heap'.stset s = heap.stset s
  mps : forall p, p ∈ (heap.stset s).stsetIdRbh -> heap'.mps p = heap.mps p

section Trees

variable {heap heap' : StackHeap} {s t p q next : Nat} {ids : List Nat}

theorem SameIds.backs (same : SameIds heap heap' s) (backs : Backs heap s ids) :
    Backs heap' s ids := by
  refine ⟨fun id member stacked => ?_, fun p inIds => ?_⟩
  · rcases backs.held id member stacked with ⟨p, inIds, isId, enough⟩
    refine ⟨p, by rw [same.stset]; exact inIds, ?_⟩
    rw [StackHeap.idOf, StackHeap.countOf, same.mps p inIds]
    exact ⟨isId, enough⟩
  · rw [same.stset] at inIds
    rw [StackHeap.countOf, same.mps p inIds]
    exact backs.small p inIds

theorem SameIds.trans {heap'' : StackHeap} (first : SameIds heap heap' s)
    (second : SameIds heap' heap'' s) :
    SameIds heap heap'' s := by
  refine ⟨second.stset.trans first.stset, fun p member => ?_⟩
  rw [second.mps p (by rw [first.stset]; exact member), first.mps p member]

theorem TreesInOrder.agree (inOrder : TreesInOrder heap) (sameSets : heap'.stset = heap.stset)
    (top : heap.mpsTop ≤ heap'.mpsTop)
    (agree : forall s p, heap.Hangs s p -> heap'.key p = heap.key p ∧ heap'.idOf p = heap.idOf p) :
    TreesInOrder heap' := by
  have hangs : forall s p, heap'.Hangs s p -> heap.Hangs s p := by
    intro s p
    rw [StackHeap.Hangs, StackHeap.members, sameSets]
    exact id
  refine ⟨Nat.lt_of_lt_of_le inOrder.top top, fun s => ?_, fun s => ?_, fun s p hung => ?_,
    fun s t p inS inT => inOrder.apart s t p (hangs s p inS) (hangs t p inT)⟩
  · rw [sameSets]
    refine (inOrder.content s).imp_of_mem (fun {a b} memberA memberB less => ?_)
    rw [(agree s a (Or.inl memberA)).1, (agree s b (Or.inl memberB)).1]
    exact less
  · rw [sameSets]
    refine (inOrder.ids s).imp_of_mem (fun {a b} memberA memberB less => ?_)
    rw [(agree s a (Or.inr memberA)).2, (agree s b (Or.inr memberB)).2]
    exact less
  · exact Nat.lt_of_lt_of_le (inOrder.allocated s p (hangs s p hung)) top

theorem TreesInOrder.bump (inOrder : TreesInOrder heap) (p : Nat) : TreesInOrder (heap.bump p) :=
  inOrder.agree rfl (Nat.le_refl _) (fun _ q _ => bump_agree heap p q)

theorem TreesInOrder.unbump (inOrder : TreesInOrder heap) (p : Nat) :
    TreesInOrder (heap.unbump p) :=
  inOrder.agree rfl (Nat.le_refl _) (fun _ q _ => unbump_agree heap p q)

/-- Changing an object that hangs in no set. -/
theorem TreesInOrder.setMps (inOrder : TreesInOrder heap) (outside : forall s, ¬ heap.Hangs s p)
    (mps : MprofileStack) : TreesInOrder (heap.setMps p mps) := by
  refine inOrder.agree rfl (Nat.le_refl _) (fun s q hung => ?_)
  have different : q ≠ p := fun same => outside s (same ▸ hung)
  rw [StackHeap.key, StackHeap.idOf, StackHeap.setMps_mps, Function.update_of_ne different]
  exact ⟨rfl, rfl⟩

theorem TreesInOrder.top_outside (inOrder : TreesInOrder heap) (s : Nat) :
    ¬ heap.Hangs s heap.mpsTop :=
  fun hung => Nat.lt_irrefl _ (inOrder.allocated s _ hung)

theorem TreesInOrder.alloc (inOrder : TreesInOrder heap) (mps : MprofileStack) :
    TreesInOrder (heap.alloc mps) :=
  (inOrder.setMps inOrder.top_outside mps).agree rfl (Nat.le_succ _) (fun _ _ _ => ⟨rfl, rfl⟩)

/-- What hangs in a set after one of its stacks was taken out. -/
theorem TreesInOrder.hangs_unlink (inOrder : TreesInOrder heap)
    (hung : (unlinkStack heap s p).Hangs t q) :
    heap.Hangs t q ∧ (t = s -> q ≠ p) := by
  by_cases here : t = s
  · subst here
    rw [StackHeap.Hangs, StackHeap.members, unlinkStack, StackHeap.setStset_stset,
      Function.update_self] at hung
    rcases hung with inContent | inIds
    · have parts := (inOrder.content t).nodup.mem_erase_iff.mp inContent
      exact ⟨Or.inl parts.2, fun _ => parts.1⟩
    · have parts := (inOrder.ids t).nodup.mem_erase_iff.mp inIds
      exact ⟨Or.inr parts.2, fun _ => parts.1⟩
  · rw [StackHeap.Hangs, StackHeap.members, unlinkStack, StackHeap.setStset_stset,
      Function.update_of_ne here] at hung
    exact ⟨hung, fun same => absurd same here⟩

theorem TreesInOrder.unlink (inOrder : TreesInOrder heap) (s p : Nat) :
    TreesInOrder (unlinkStack heap s p) := by
  refine ⟨inOrder.top, fun t => ?_, fun t => ?_, fun t q hung => ?_, fun t u q inT inU => ?_⟩
  · by_cases here : t = s
    · subst here
      rw [unlinkStack, StackHeap.setStset_stset, Function.update_self]
      exact (inOrder.content t).erase p
    · rw [unlinkStack, StackHeap.setStset_stset, Function.update_of_ne here]
      exact inOrder.content t
  · by_cases here : t = s
    · subst here
      rw [unlinkStack, StackHeap.setStset_stset, Function.update_self]
      exact (inOrder.ids t).erase p
    · rw [unlinkStack, StackHeap.setStset_stset, Function.update_of_ne here]
      exact inOrder.ids t
  · exact inOrder.allocated t q (inOrder.hangs_unlink hung).1
  · exact inOrder.apart t u q (inOrder.hangs_unlink inT).1 (inOrder.hangs_unlink inU).1

/-- A stack that was taken out hangs in no set. -/
theorem TreesInOrder.unlink_outside (inOrder : TreesInOrder heap) (hung : heap.Hangs s p)
    (t : Nat) :
    ¬ (unlinkStack heap s p).Hangs t p := by
  intro still
  have parts := inOrder.hangs_unlink still
  exact parts.2 (inOrder.apart t s p parts.1 hung) rfl

theorem hangs_hang (hung : (hangStack heap s p next).Hangs t q) :
    (t = s ∧ q = p) ∨ heap.Hangs t q := by
  by_cases here : t = s
  · subst here
    rw [StackHeap.Hangs, StackHeap.members, hangStack, StackHeap.setStset_stset,
      Function.update_self] at hung
    rcases hung with inContent | inIds
    · exact (OrderedTree.mem_insert inContent).imp (fun same => ⟨rfl, same⟩) Or.inl
    · exact (OrderedTree.mem_insert inIds).imp (fun same => ⟨rfl, same⟩) Or.inr
  · rw [StackHeap.Hangs, StackHeap.members, hangStack, StackHeap.setStset_stset,
      Function.update_of_ne here] at hung
    exact Or.inr hung

/-- Hanging a stack into a set, where one of the trees may refuse it. -/
theorem TreesInOrder.hang (inOrder : TreesInOrder heap) (outside : forall t, ¬ heap.Hangs t p)
    (allocated : p < heap.mpsTop) (s next : Nat) : TreesInOrder (hangStack heap s p next) := by
  refine ⟨inOrder.top, fun t => ?_, fun t => ?_, fun t q hung => ?_, fun t u q inT inU => ?_⟩
  · by_cases here : t = s
    · subst here
      rw [hangStack, StackHeap.setStset_stset, Function.update_self]
      exact (inOrder.content t).insert (fun q _ => contentOrder_keyed heap p q)
    · rw [hangStack, StackHeap.setStset_stset, Function.update_of_ne here]
      exact inOrder.content t
  · by_cases here : t = s
    · subst here
      rw [hangStack, StackHeap.setStset_stset, Function.update_self]
      exact (inOrder.ids t).insert (fun q _ => idOrder_keyed heap p q)
    · rw [hangStack, StackHeap.setStset_stset, Function.update_of_ne here]
      exact inOrder.ids t
  · rcases hangs_hang hung with ⟨-, rfl⟩ | old
    · exact allocated
    · exact inOrder.allocated t q old
  · rcases hangs_hang inT with ⟨rfl, rfl⟩ | oldT
    · rcases hangs_hang inU with ⟨rfl, -⟩ | oldU
      · rfl
      · exact absurd oldU (outside u)
    · rcases hangs_hang inU with ⟨-, rfl⟩ | oldU
      · exact absurd oldT (outside t)
      · exact inOrder.apart t u q oldT oldU

/-! ## One merge -/

variable {dst src old id : Nat} {block : Option (Int -> UInt64)}

theorem sameIds_setMps (outside : p ∉ (heap.stset s).stsetIdRbh) (mps : MprofileStack) :
    SameIds heap (heap.setMps p mps) s := by
  refine ⟨rfl, fun q member => ?_⟩
  have different : q ≠ p := fun same => outside (same ▸ member)
  rw [StackHeap.setMps_mps, Function.update_of_ne different]

theorem sameIds_hang (different : t ≠ s) : SameIds heap (hangStack heap s p next) t :=
  ⟨Function.update_of_ne different _ _, fun _ _ => rfl⟩

theorem sameIds_unlink (different : t ≠ s) : SameIds heap (unlinkStack heap s p) t :=
  ⟨Function.update_of_ne different _ _, fun _ _ => rfl⟩

theorem TreesInOrder.sameIds_alloc (inOrder : TreesInOrder heap) (mps : MprofileStack) (s : Nat) :
    SameIds heap (heap.alloc mps) s :=
  (sameIds_setMps (fun member => inOrder.top_outside s (Or.inr member)) mps).trans
    ⟨rfl, fun _ _ => rfl⟩

/-- A stack of one set is changed, and the ids of another one do not see it. -/
theorem TreesInOrder.sameIds_other (inOrder : TreesInOrder heap) (hung : heap.Hangs s p)
    (different : t ≠ s)
    (mps : MprofileStack) : SameIds heap (heap.setMps p mps) t :=
  sameIds_setMps (fun member => different (inOrder.apart t s p (Or.inr member) hung)) mps

/-- The stack that the next record asks for. -/
theorem Backs.head (backs : Backs heap s (id :: ids)) (stacked : id ≠ 0) :
    Exists fun p => p ∈ (heap.stset s).stsetIdRbh ∧ heap.idOf p = id ∧
      ids.count id + 1 ≤ heap.countOf p := by
  have held := backs.held id List.mem_cons_self stacked
  rwa [List.count_cons_self] at held

/-- The last use of a stack leaves the set. -/
theorem Backs.unlink (backs : Backs heap s (id :: ids))
    (sorted : OrderedTree.Sorted heap.idOf (heap.stset s).stsetIdRbh) (isId : heap.idOf p = id)
    (last : ids.count id = 0) : Backs (unlinkStack heap s p) s ids := by
  have member_iff : forall q, q ∈ ((unlinkStack heap s p).stset s).stsetIdRbh ↔
      q ≠ p ∧ q ∈ (heap.stset s).stsetIdRbh := by
    intro q
    rw [unlinkStack, StackHeap.setStset_stset, Function.update_self]
    exact sorted.nodup.mem_erase_iff
  refine ⟨fun other member stacked => ?_,
    fun q member => backs.small q ((member_iff q).mp member).2⟩
  have different : id ≠ other := fun same => List.count_eq_zero.mp last (same ▸ member)
  rcases backs.held other (List.mem_cons_of_mem id member) stacked with ⟨q, inIds, isOther, enough⟩
  rw [List.count_cons_of_ne different] at enough
  refine ⟨q, (member_iff q).mpr ⟨fun same => different ?_, inIds⟩, isOther, enough⟩
  rw [← isId, ← isOther, same]

/-- One of several uses is taken. -/
theorem Backs.unbump (backs : Backs heap s (id :: ids))
    (member : p ∈ (heap.stset s).stsetIdRbh) (isId : heap.idOf p = id)
    (enough : ids.count id + 1 ≤ heap.countOf p) : Backs (heap.unbump p) s ids := by
  have ids' : forall q, (heap.unbump p).idOf q = heap.idOf q := fun q => (unbump_agree heap p q).2
  have fewer : (heap.unbump p).countOf p = heap.countOf p - 1 := by
    rw [StackHeap.unbump, countOf_setMps_self]
    exact uintPred_of_pos (Nat.lt_of_lt_of_le (Nat.succ_pos _) enough) (backs.small p member)
  have others : forall q, q ≠ p -> (heap.unbump p).countOf q = heap.countOf q :=
    fun q different => countOf_setMps_of_ne _ _ different
  refine ⟨fun other inRest stacked => ?_, fun q inIds => ?_⟩
  · by_cases same : id = other
    · subst same
      refine ⟨p, member, (ids' p).trans isId, ?_⟩
      rw [fewer]
      omega
    · rcases backs.held other (List.mem_cons_of_mem id inRest) stacked with
        ⟨q, inIds, isOther, held⟩
      rw [List.count_cons_of_ne same] at held
      have different : q ≠ p := fun equal => same (by rw [← isId, ← isOther, equal])
      exact ⟨q, inIds, (ids' q).trans isOther, by rw [others q different]; exact held⟩
  · have before := backs.small q inIds
    by_cases here : q = p
    · subst here
      rw [fewer]
      omega
    · rw [others q here]
      exact before

/-- What a merge leaves of the sets. -/
structure GoneOver (heap heap' : StackHeap) (dst src : Nat) (ids : List Nat) : Prop where
  inOrder : TreesInOrder heap'
  backs : Backs heap' src ids
  elsewhere : forall t, t ≠ dst -> t ≠ src -> SameIds heap heap' t

/-- Moving a stack that is used once. -/
theorem moveStack_goesOver (inOrder : TreesInOrder heap) (different : dst ≠ src)
    (backs : Backs heap src (id :: ids)) (member : old ∈ (heap.stset src).stsetIdRbh)
    (isId : heap.idOf old = id) (last : ids.count id = 0) :
    ((Exists fun result => moveStack heap dst src old = .ok result) ↔
        ((Exists fun p => p ∈ heap.members dst ∧ heap.key p = heap.key old) ∨
          (forall p, p ∈ (heap.stset dst).stsetIdRbh -> heap.idOf p ≠ id) ∨
          forall p, p ∈ (heap.stset dst).stsetIdRbh -> heap.idOf p ≠ (heap.stset dst).stsetId)) ∧
      forall result, moveStack heap dst src old = .ok result ->
        GoneOver heap result.1 dst src ids := by
  have outside : old ∉ (heap.stset dst).stsetIdRbh :=
    fun inDst => different (inOrder.apart dst src old (Or.inr inDst) (Or.inr member))
  have outcome := moveStack_outcome (inOrder.content dst) (inOrder.ids dst) different outside
  have unlinked := inOrder.unlink src old
  have gone := inOrder.unlink_outside (Or.inr member)
  have left := backs.unlink (inOrder.ids src) isId last
  have elsewhere : forall t, t ≠ src -> SameIds heap (unlinkStack heap src old) t :=
    fun t => sameIds_unlink
  -- a stack that hangs nowhere is put into the destination
  have hung : forall final, TreesInOrder final ->
      (forall t, SameIds (unlinkStack heap src old) final t) ->
      (forall t, ¬ final.Hangs t old) -> old < final.mpsTop -> forall next,
      GoneOver heap (hangStack final dst old next) dst src ids := by
    intro final finalOrder same nowhere allocated next
    refine ⟨finalOrder.hang nowhere allocated dst next,
      ((same src).trans (sameIds_hang different.symm)).backs left, fun t notDst notSrc => ?_⟩
    exact ((elsewhere t notSrc).trans (same t)).trans (sameIds_hang notDst)
  generalize moveStack heap dst src old = moved at outcome
  cases outcome with
  | folded p inDst same =>
      refine ⟨⟨fun _ => Or.inl ⟨p, inDst, same⟩, fun _ => ⟨_, rfl⟩⟩, fun result isMoved => ?_⟩
      cases isMoved
      have stays : (unlinkStack heap src old).Hangs dst p := by
        rw [StackHeap.Hangs, StackHeap.members, unlinkStack, StackHeap.setStset_stset,
          Function.update_of_ne different]
        exact Or.inl inDst
      have bumped : forall t, t ≠ dst ->
          SameIds (unlinkStack heap src old) ((unlinkStack heap src old).bump p) t :=
        fun t notDst => unlinked.sameIds_other stays notDst _
      exact ⟨unlinked.bump p, (bumped src different.symm).backs left, fun t notDst notSrc =>
        (elsewhere t notSrc).trans (bumped t notDst)⟩
  | kept absent free =>
      rw [isId] at free
      refine ⟨⟨fun _ => Or.inr (Or.inl free), fun _ => ⟨_, rfl⟩⟩, fun result isMoved => ?_⟩
      cases isMoved
      exact hung _ unlinked (fun t => ⟨rfl, fun _ _ => rfl⟩) gone
        (inOrder.allocated src old (Or.inr member)) _
  | renamed absent taken free =>
      refine ⟨⟨fun _ => Or.inr (Or.inr free), fun _ => ⟨_, rfl⟩⟩, fun result isMoved => ?_⟩
      cases isMoved
      exact hung _ (unlinked.setMps gone _)
        (fun t => sameIds_setMps (fun inT => gone t (Or.inr inT)) _) gone
        (inOrder.allocated src old (Or.inr member)) _
  | refused absent taken clash =>
      rw [isId] at taken
      refine ⟨⟨fun impossible => ?_, ?_⟩, fun result impossible => by cases impossible⟩
      · rcases impossible with ⟨result, impossible⟩
        cases impossible
      · rcases taken with ⟨p, inIds, sameId⟩
        rcases clash with ⟨q, inNext, sameNext⟩
        rintro (⟨r, inDst, same⟩ | free | free)
        · exact absurd same (absent r inDst)
        · exact absurd sameId (free p inIds)
        · exact absurd sameNext (free q inNext)

/-- Sharing a stack that is used more than once. -/
theorem shareStack_goesOver (inOrder : TreesInOrder heap) (different : dst ≠ src) (valid : dst ≠ 0)
    (backs : Backs heap src (id :: ids)) (member : old ∈ (heap.stset src).stsetIdRbh)
    (isId : heap.idOf old = id) (enough : ids.count id + 1 ≤ heap.countOf old) :
    ((Exists fun result => shareStack heap dst old block = .ok result) ↔
        ((Exists fun p => p ∈ heap.members dst ∧ heap.key p = heap.key old) ∨ block ≠ none)) ∧
      forall result, shareStack heap dst old block = .ok result ->
        GoneOver heap result.1 dst src ids := by
  have outcome := @shareStack_case _ _ block old (inOrder.content dst) inOrder.top valid
  -- one use is taken from the source after the destination has got its share
  have taken : forall shared, TreesInOrder shared -> (forall t, t ≠ dst -> SameIds heap shared t) ->
      GoneOver heap (shared.unbump old) dst src ids := by
    intro shared sharedOrder same
    have source := same src different.symm
    have inShared : old ∈ (shared.stset src).stsetIdRbh := by
      rw [source.stset]
      exact member
    have isStill : shared.idOf old = id := by
      rw [StackHeap.idOf, source.mps old member]
      exact isId
    have stillEnough : ids.count id + 1 ≤ shared.countOf old := by
      rw [StackHeap.countOf, source.mps old member]
      exact enough
    refine ⟨sharedOrder.unbump old,
      (source.backs backs).unbump inShared isStill stillEnough,
      fun t notDst notSrc => (same t notDst).trans ?_⟩
    exact sharedOrder.sameIds_other (Or.inr inShared) notSrc _
  generalize shareStack heap dst old block = shared at outcome
  cases outcome with
  | folded p inDst same =>
      refine ⟨⟨fun _ => Or.inl ⟨p, inDst, same⟩, fun _ => ⟨_, rfl⟩⟩, fun result isShared => ?_⟩
      cases isShared
      exact taken _ (inOrder.bump p) (fun t notDst => inOrder.sameIds_other (Or.inl inDst) notDst _)
  | noMemory absent uncopied =>
      refine ⟨⟨fun impossible => ?_, ?_⟩, fun result impossible => by cases impossible⟩
      · rcases impossible with ⟨result, impossible⟩
        cases impossible
      · rintro (⟨p, inDst, same⟩ | granted)
        · exact absurd same (absent p inDst)
        · exact absurd uncopied granted
  | copied copy absent same =>
      have granted : block ≠ none := by
        rintro rfl
        cases same
      refine ⟨⟨fun _ => Or.inr granted, fun _ => ⟨_, rfl⟩⟩, fun result isShared => ?_⟩
      cases isShared
      have created := inOrder.alloc { copy with mpsId := (heap.stset dst).stsetId }
      have nowhere : forall t, ¬ (newStack heap dst copy).Hangs t heap.mpsTop := inOrder.top_outside
      refine taken _ (created.hang nowhere (Nat.lt_succ_self _) dst _) (fun t notDst => ?_)
      exact (inOrder.sameIds_alloc _ t).trans (sameIds_hang notDst)

/-- A merge between two sets goes through exactly if the stack can go over, and the source
backs the records that are left. -/
theorem mprofileMergeStack_goesOver (inOrder : TreesInOrder heap) (different : dst ≠ src)
    (valid : dst ≠ 0)
    (stacked : id ≠ 0) (backs : Backs heap src (id :: ids)) :
    ((Exists fun result => mprofileMergeStack heap dst src id block = .ok result) ↔
        GoesOver heap dst src id block) ∧
      forall result, mprofileMergeStack heap dst src id block = .ok result ->
        GoneOver heap result.1 dst src ids := by
  rcases backs.head stacked with ⟨old, member, isId, enough⟩
  have found := (findId_some_iff (inOrder.ids src)).mpr ⟨member, isId⟩
  have only : forall p, p ∈ (heap.stset src).stsetIdRbh -> heap.idOf p = id -> p = old :=
    fun p inIds sameId => (inOrder.ids src).injective inIds member (sameId.trans isId.symm)
  have goesOver_iff : GoesOver heap dst src id block ↔
      ((Exists fun p => p ∈ heap.members dst ∧ heap.key p = heap.key old) ∨
        if heap.countOf old = 1 then
          (forall p, p ∈ (heap.stset dst).stsetIdRbh -> heap.idOf p ≠ id) ∨
            forall p, p ∈ (heap.stset dst).stsetIdRbh -> heap.idOf p ≠ (heap.stset dst).stsetId
        else block ≠ none) := by
    refine ⟨fun goes => goes old member isId, fun goes p inIds sameId => ?_⟩
    rw [only p inIds sameId]
    exact goes
  unfold mprofileMergeStack
  simp only [found]
  by_cases single : heap.countOf old = 1
  · have last : ids.count id = 0 := by omega
    rw [goesOver_iff, if_pos single, if_pos (show (heap.mps old).mpsCount = 1 from single)]
    exact moveStack_goesOver inOrder different backs member isId last
  · rw [goesOver_iff, if_neg single, if_neg (show ¬ (heap.mps old).mpsCount = 1 from single)]
    exact shareStack_goesOver inOrder different valid backs member isId enough

end Trees

/-! ## The loops of `mprofile_save` -/

/-- What the loops go over: each record with the set of its profile. -/
def toMerge (profiles : List Profile) : List (Nat × MprofileRecord) :=
  profiles.flatMap (fun mp => mp.mpTqhead.map (fun mpr => (mp.mpStset, mpr)))

/-- One turn of the loops. -/
def saveNext (copyBlock : Nat -> Option (Int -> UInt64)) (dst : Nat) (st : SaveState)
    (entry : Nat × MprofileRecord) : Except SaveFault SaveState :=
  saveRecord copyBlock dst entry.1 st entry.2

/-- A record with a stack finds room for it in the set of the first profile. -/
def MergeGranted (copyBlock : Nat -> Option (Int -> UInt64)) (dst : Nat) (st : SaveState)
    (entry : Nat × MprofileRecord) : Prop :=
  entry.2.mprStackId ≠ 0 ->
    dst ≠ 0 ∧ GoesOver st.stackHeap dst entry.1 entry.2.mprStackId (copyBlock entry.2.mprId)

instance (heap : StackHeap) (dst src id : Nat) (block : Option (Int -> UInt64)) :
    Decidable (GoesOver heap dst src id block) :=
  inferInstanceAs (Decidable (forall old, old ∈ (heap.stset src).stsetIdRbh -> _ -> _))

instance (copyBlock : Nat -> Option (Int -> UInt64)) (dst : Nat) (st : SaveState)
    (entry : Nat × MprofileRecord) : Decidable (MergeGranted copyBlock dst st entry) :=
  inferInstanceAs (Decidable (_ -> _ ∧ _))

/-- The stack ids that are left to merge from a set. -/
def idsFrom (s : Nat) (entries : List (Nat × MprofileRecord)) : List Nat :=
  (entries.filter (fun entry => entry.1 = s)).map (fun entry => entry.2.mprStackId)

/-- Each set but the destination backs the ids that are left. -/
structure Mergeable (heap : StackHeap) (dst : Nat)
    (entries : List (Nat × MprofileRecord)) : Prop where
  inOrder : TreesInOrder heap
  backs : forall s, s ≠ dst -> Backs heap s (idsFrom s entries)

/-- The records that are left have new ids. -/
def Unsorted (st : SaveState) (entries : List (Nat × MprofileRecord)) : Prop :=
  Exists fun records => SortedLog records st.sorter ∧
    ((records ++ entries.map Prod.snd).map MprofileRecord.mprId).Nodup

section Loops

variable {copyBlock : Nat -> Option (Int -> UInt64)} {dst src s : Nat} {st st' : SaveState}
  {heap : StackHeap} {mpr : MprofileRecord} {entries : List (Nat × MprofileRecord)} {ids : List Nat}

theorem exec_saveNext_queue (queue : List MprofileRecord) :
    exec (saveNext copyBlock dst) st (queue.map (fun mpr => (src, mpr))) =
      saveRecords copyBlock dst src st queue := by
  induction queue generalizing st with
  | nil => rfl
  | cons mpr rest inductionHypothesis =>
      rw [List.map_cons, exec, saveRecords, saveNext]
      cases saveRecord copyBlock dst src st mpr with
      | error fault => rfl
      | ok middle => exact inductionHypothesis

theorem exec_toMerge (profiles : List Profile) :
    exec (saveNext copyBlock dst) st (toMerge profiles) =
      saveProfiles copyBlock dst st profiles := by
  induction profiles generalizing st with
  | nil => rfl
  | cons mp rest inductionHypothesis =>
      rw [toMerge, List.flatMap_cons, exec_append, exec_saveNext_queue, saveProfiles]
      cases saveRecords copyBlock dst mp.mpStset st mp.mpTqhead with
      | error fault => rfl
      | ok middle => exact inductionHypothesis

/-- A record is taken if its stack is, and gets into the tree. -/
theorem saveRecord_ok_iff (unsorted : Unsorted st ((src, mpr) :: entries)) :
    ((Exists fun st' => saveRecord copyBlock dst src st mpr = .ok st') ↔
        (mpr.mprStackId ≠ 0 -> dst ≠ 0 ∧ Exists fun result =>
          mprofileMergeStack st.stackHeap dst src mpr.mprStackId (copyBlock mpr.mprId) =
            .ok result)) ∧
      forall st', saveRecord copyBlock dst src st mpr = .ok st' -> Unsorted st' entries ∧
        ((mpr.mprStackId = 0 ∧ st'.stackHeap = st.stackHeap) ∨
          mpr.mprStackId ≠ 0 ∧ Exists fun new =>
            mprofileMergeStack st.stackHeap dst src mpr.mprStackId (copyBlock mpr.mprId) =
              .ok (st'.stackHeap, new)) := by
  rcases unsorted with ⟨records, log, fresh⟩
  rcases fresh_of_nodup fresh with ⟨isNew, onward⟩
  have filed : forall heap id, Unsorted (st.filed heap mpr id) entries := fun heap id =>
    ⟨records ++ [mpr], (log.insert isNew (unfiled_stackId mpr id)).2, onward⟩
  by_cases unstacked : mpr.mprStackId = 0
  · have saved := @saveRecord_unstacked copyBlock dst src _ _ _ log isNew unstacked
    refine ⟨⟨fun _ stacked => absurd unstacked stacked, fun _ => ⟨_, saved⟩⟩, fun st' same => ?_⟩
    rw [saved] at same
    cases same
    exact ⟨filed _ _, Or.inl ⟨unstacked, rfl⟩⟩
  · cases merged : mprofileMergeStack st.stackHeap dst src mpr.mprStackId (copyBlock mpr.mprId) with
    | error reason =>
        have accepted := OrderedTree.insert_accepted (log.insert isNew rfl).1
        have never : forall st', saveRecord copyBlock dst src st mpr ≠ .ok st' := by
          intro st' saved
          rw [saveRecord, accepted] at saved
          simp only [if_neg unstacked, merged] at saved
          split_ifs at saved
        refine ⟨⟨fun saved => ?_, fun granted => ?_⟩, fun st' saved => absurd saved (never st')⟩
        · rcases saved with ⟨st', saved⟩
          exact absurd saved (never st')
        · rcases (granted unstacked).2 with ⟨result, impossible⟩
          cases impossible
    | ok result =>
        by_cases null : dst = 0
        · have accepted := OrderedTree.insert_accepted (log.insert isNew rfl).1
          have failed : saveRecord copyBlock dst src st mpr = .error .nullDereference := by
            rw [saveRecord, accepted]
            simp only [if_neg unstacked, if_pos null]
          rw [failed]
          refine ⟨⟨fun saved => ?_, fun granted => absurd null (granted unstacked).1⟩,
            fun st' impossible => by cases impossible⟩
          rcases saved with ⟨st', impossible⟩
          cases impossible
        · have saved := saveRecord_merged log isNew unstacked null merged
          refine ⟨⟨fun _ _ => ⟨null, result, rfl⟩, fun _ => ⟨_, saved⟩⟩, fun st' same => ?_⟩
          rw [saved] at same
          cases same
          exact ⟨filed _ _, Or.inr ⟨unstacked, result.2, rfl⟩⟩

theorem idsFrom_cons_self :
    idsFrom src ((src, mpr) :: entries) = mpr.mprStackId :: idsFrom src entries := by
  rw [idsFrom, List.filter_cons_of_pos (by simp)]
  rfl

theorem idsFrom_cons_of_ne (different : s ≠ src) :
    idsFrom s ((src, mpr) :: entries) = idsFrom s entries := by
  rw [idsFrom, List.filter_cons_of_neg (by simpa using different.symm)]
  rfl

/-- Records without a stack ask for nothing. -/
theorem Backs.tail (backs : Backs heap s (0 :: ids)) : Backs heap s ids := by
  refine ⟨fun id member stacked => ?_, backs.small⟩
  have held := backs.held id (List.mem_cons_of_mem 0 member) stacked
  rwa [List.count_cons_of_ne stacked.symm] at held

variable (copyBlock) in
/-- One turn for a record of another profile. -/
theorem Mergeable.next (mergeable : Mergeable st.stackHeap dst ((src, mpr) :: entries))
    (different : mpr.mprStackId ≠ 0 -> dst ≠ 0 -> dst ≠ src)
    (unsorted : Unsorted st ((src, mpr) :: entries)) :
    ((Exists fun st' => saveNext copyBlock dst st (src, mpr) = .ok st') ↔
        MergeGranted copyBlock dst st (src, mpr)) ∧
      forall st', saveNext copyBlock dst st (src, mpr) = .ok st' ->
        Mergeable st'.stackHeap dst entries ∧ Unsorted st' entries := by
  have record := @saveRecord_ok_iff copyBlock dst _ _ _ _ unsorted
  have goes : mpr.mprStackId ≠ 0 -> dst ≠ 0 ->
      ((Exists fun result => mprofileMergeStack st.stackHeap dst src mpr.mprStackId
          (copyBlock mpr.mprId) = .ok result) ↔
        GoesOver st.stackHeap dst src mpr.mprStackId (copyBlock mpr.mprId)) ∧
      forall result, mprofileMergeStack st.stackHeap dst src mpr.mprStackId (copyBlock mpr.mprId) =
        .ok result -> GoneOver st.stackHeap result.1 dst src (idsFrom src entries) := by
    intro stacked valid
    have own := mergeable.backs src (different stacked valid).symm
    rw [idsFrom_cons_self] at own
    exact mprofileMergeStack_goesOver mergeable.inOrder (different stacked valid) valid stacked own
  refine ⟨record.1.trans ?_, fun st' saved => ?_⟩
  · exact forall_congr' (fun stacked => and_congr_right (fun valid => (goes stacked valid).1))
  · have parts := record.2 st' saved
    refine ⟨?_, parts.1⟩
    rcases parts.2 with ⟨unstacked, sameHeap⟩ | ⟨stacked, new, merged⟩
    · rw [sameHeap]
      refine ⟨mergeable.inOrder, fun s notDst => ?_⟩
      have before := mergeable.backs s notDst
      by_cases here : s = src
      · subst here
        rw [idsFrom_cons_self, unstacked] at before
        exact before.tail
      · rwa [idsFrom_cons_of_ne here] at before
    · have gone := (goes stacked (record.1.mp ⟨st', saved⟩ stacked).1).2 _ merged
      refine ⟨gone.inOrder, fun s notDst => ?_⟩
      by_cases here : s = src
      · subst here
        exact gone.backs
      · have other := mergeable.backs s notDst
        rw [idsFrom_cons_of_ne here] at other
        exact (gone.elsewhere s notDst here).backs other

variable (copyBlock) in
/-- The other profiles are merged exactly if each of their stacks finds room. -/
theorem Mergeable.exec_iff (mergeable : Mergeable st.stackHeap dst entries)
    (unsorted : Unsorted st entries)
    (others : forall entry, entry ∈ entries -> entry.2.mprStackId ≠ 0 -> dst ≠ 0 -> dst ≠ entry.1) :
    (Exists fun st' => exec (saveNext copyBlock dst) st entries = .ok st') ↔
      Meets (saveNext copyBlock dst) (MergeGranted copyBlock dst) st entries := by
  refine exec_ok_iff (fun st entries => Mergeable st.stackHeap dst entries ∧ Unsorted st entries ∧
    forall entry, entry ∈ entries -> entry.2.mprStackId ≠ 0 -> dst ≠ 0 -> dst ≠ entry.1)
    (fun st entry rest holds => ?_) ⟨mergeable, unsorted, others⟩
  rcases holds with ⟨mergeable, unsorted, others⟩
  have turn := mergeable.next copyBlock (others entry List.mem_cons_self) unsorted
  refine ⟨turn.1, fun st' saved => ?_⟩
  have after := turn.2 st' saved
  exact ⟨after.1, after.2, fun other member => others other (List.mem_cons_of_mem entry member)⟩

/-- The set of the first profile, which is merged into itself. -/
structure OwnStacks (heap : StackHeap) (dst : Nat)
    (entries : List (Nat × MprofileRecord)) : Prop where
  own : forall entry, entry ∈ entries -> entry.1 = dst
  trees : StsetTrees heap dst
  known : forall entry, entry ∈ entries -> entry.2.mprStackId ≠ 0 -> dst ≠ 0 ∧ Exists fun p =>
    p ∈ (heap.stset dst).stsetIdRbh ∧ heap.idOf p = entry.2.mprStackId ∧ heap.countOf p < 2 ^ 32

/-- The records of the first profile leave the sets as they are. -/
theorem OwnStacks.exec (own : OwnStacks st.stackHeap dst entries)
    {others : List (Nat × MprofileRecord)} (unsorted : Unsorted st (entries ++ others)) :
    Meets (saveNext copyBlock dst) (MergeGranted copyBlock dst) st entries ∧ Exists fun st' =>
      Foundation.exec (saveNext copyBlock dst) st entries = .ok st' ∧ st'.stackHeap = st.stackHeap ∧
        Unsorted st' others := by
  induction entries generalizing st with
  | nil => exact ⟨trivial, st, rfl, rfl, unsorted⟩
  | cons entry rest inductionHypothesis =>
      rcases entry with ⟨src, mpr⟩
      have isOwn : src = dst := own.own (src, mpr) List.mem_cons_self
      subst isOwn
      have record := @saveRecord_ok_iff copyBlock src _ _ _ _ unsorted
      have merges : mpr.mprStackId ≠ 0 -> Exists fun old =>
          mprofileMergeStack st.stackHeap src src mpr.mprStackId (copyBlock mpr.mprId) =
            .ok (st.stackHeap, old) := by
        intro stacked
        rcases (own.known _ List.mem_cons_self stacked).2 with ⟨p, inIds, isId, small⟩
        exact ⟨p, mprofileMergeStack_self own.trees inIds isId small⟩
      have granted : MergeGranted copyBlock src st (src, mpr) := by
        intro stacked
        refine ⟨(own.known _ List.mem_cons_self stacked).1,
          fun old inIds _ => Or.inl ⟨old, ?_, rfl⟩⟩
        exact own.trees.indexed old inIds
      rcases record.1.mpr (fun stacked => ⟨(granted stacked).1, by
        rcases merges stacked with ⟨old, merged⟩
        exact ⟨_, merged⟩⟩) with ⟨middle, saved⟩
      have parts := record.2 middle saved
      have sameHeap : middle.stackHeap = st.stackHeap := by
        rcases parts.2 with ⟨-, same⟩ | ⟨stacked, new, merged⟩
        · exact same
        · rcases merges stacked with ⟨old, self⟩
          rw [self] at merged
          exact (Prod.mk.inj (Except.ok.inj merged)).1.symm
      have after : OwnStacks middle.stackHeap src rest := by
        rw [sameHeap]
        exact ⟨fun other member => own.own other (List.mem_cons_of_mem _ member), own.trees,
          fun other member => own.known other (List.mem_cons_of_mem _ member)⟩
      rcases inductionHypothesis after parts.1 with ⟨meets, final, executed, stays, left⟩
      have stepped : saveNext copyBlock src st (src, mpr) = .ok middle := saved
      refine ⟨⟨granted, fun other same => ?_⟩, final, ?_, stays.trans sameHeap, left⟩
      · rw [stepped] at same
        cases same
        exact meets
      · rw [Foundation.exec, stepped]
        exact executed

end Loops

/-! ## Saving -/

/-- The set that all others are merged into. -/
def Profiler.masterStset (prof : Profiler) : Nat :=
  match prof.listed with
  | [] => 0
  | master :: _ => master.mpStset

/-- What `mprofile_save` needs: a profile, room for each stack that is merged, and, if
it links chains, a log without conflicts. -/
structure Savable (copyBlock : Nat -> Option (Int -> UInt64)) (linkChains : Bool)
    (prof : Profiler) :
    Prop where
  profiled : prof.profiles ≠ []
  merges : Meets (saveNext copyBlock prof.masterStset) (MergeGranted copyBlock prof.masterStset)
    ⟨prof.stackHeap, []⟩ (toMerge prof.listed)
  replays : linkChains = true -> replay prof.mergedLog ≠ none

/-- The sets as the hooks leave them. -/
structure SetsReady (prof : Profiler) : Prop where
  inOrder : TreesInOrder prof.stackHeap
  indexed : forall s p, p ∈ (prof.stackHeap.stset s).stsetIdRbh -> p ∈ prof.stackHeap.members s
  small : forall s p, p ∈ (prof.stackHeap.stset s).stsetIdRbh -> prof.stackHeap.countOf p < 2 ^ 32
  once : prof.profiles.Nodup
  apart : forall mp other, (prof.mprofile mp).mpStset ≠ 0 ->
    (prof.mprofile mp).mpStset = (prof.mprofile other).mpStset -> mp = other
  held : forall mp id, id ∈ (prof.mprofile mp).mpTqhead.map MprofileRecord.mprStackId -> id ≠ 0 ->
    (prof.mprofile mp).mpStset ≠ 0 ∧ Exists fun p =>
      p ∈ (prof.stackHeap.stset (prof.mprofile mp).mpStset).stsetIdRbh ∧
        prof.stackHeap.idOf p = id ∧
        ((prof.mprofile mp).mpTqhead.map MprofileRecord.mprStackId).count id ≤
          prof.stackHeap.countOf p

section Saving

variable {copyBlock : Nat -> Option (Int -> UInt64)} {linkChains : Bool} {prof : Profiler}

theorem idsFrom_append (s : Nat) (first second : List (Nat × MprofileRecord)) :
    idsFrom s (first ++ second) = idsFrom s first ++ idsFrom s second := by
  rw [idsFrom, List.filter_append, List.map_append]
  rfl

/-- The ids from one queue. -/
theorem idsFrom_queue (s : Nat) (mp : Profile) :
    idsFrom s (mp.mpTqhead.map (fun mpr => (mp.mpStset, mpr))) =
      if mp.mpStset = s then mp.mpTqhead.map MprofileRecord.mprStackId else [] := by
  have alike : (fun entry : Nat × MprofileRecord => decide (entry.1 = s)) ∘
      (fun mpr => (mp.mpStset, mpr)) = fun _ => decide (mp.mpStset = s) := rfl
  rw [idsFrom, List.filter_map, alike]
  by_cases here : mp.mpStset = s
  · rw [if_pos here, List.filter_eq_self.mpr (fun _ _ => decide_eq_true here), List.map_map]
    rfl
  · rw [if_neg here, List.filter_eq_nil_iff.mpr (fun _ _ same => here (of_decide_eq_true same))]
    rfl

theorem mem_idsFrom_toMerge {s id : Nat} {profiles : List Profile}
    (member : id ∈ idsFrom s (toMerge profiles)) :
    Exists fun mp =>
      mp ∈ profiles ∧ mp.mpStset = s ∧ id ∈ mp.mpTqhead.map MprofileRecord.mprStackId := by
  rcases List.mem_map.mp member with ⟨entry, kept, rfl⟩
  rcases List.mem_filter.mp kept with ⟨inList, isSet⟩
  rcases List.mem_flatMap.mp inList with ⟨mp, inProfiles, inQueue⟩
  rcases List.mem_map.mp inQueue with ⟨mpr, inRecords, rfl⟩
  exact ⟨mp, inProfiles, of_decide_eq_true isSet, List.mem_map_of_mem inRecords⟩

/-- All ids from a set are those of one queue. -/
theorem SetsReady.idsFrom_eq (ready : SetsReady prof) {mps : List Nat} (once : mps.Nodup) {mp : Nat}
    (member : mp ∈ mps) (isSet : (prof.mprofile mp).mpStset ≠ 0) :
    idsFrom (prof.mprofile mp).mpStset (toMerge (mps.map prof.mprofile)) =
      (prof.mprofile mp).mpTqhead.map MprofileRecord.mprStackId := by
  induction mps with
  | nil => cases member
  | cons first rest inductionHypothesis =>
      have parts := List.nodup_cons.mp once
      rw [List.map_cons, toMerge, List.flatMap_cons, idsFrom_append, idsFrom_queue]
      change (if _ then _ else _) ++ idsFrom _ (toMerge (rest.map prof.mprofile)) = _
      by_cases here : first = mp
      · subst here
        have none : idsFrom (prof.mprofile first).mpStset (toMerge (rest.map prof.mprofile)) =
            [] := by
          rw [List.eq_nil_iff_forall_not_mem]
          intro id inRest
          rcases mem_idsFrom_toMerge inRest with ⟨profile, isProfile, same, -⟩
          rcases List.mem_map.mp isProfile with ⟨other, inOthers, rfl⟩
          exact parts.1 (ready.apart first other isSet same.symm ▸ inOthers)
        rw [if_pos rfl, none, List.append_nil]
      · have different : (prof.mprofile first).mpStset ≠ (prof.mprofile mp).mpStset :=
          fun same => here (ready.apart mp first isSet same.symm).symm
        rw [if_neg different, List.nil_append]
        exact inductionHypothesis parts.2 ((List.mem_cons.mp member).resolve_left (Ne.symm here))

/-- Whatever is left to merge is backed by the sets. -/
theorem SetsReady.mergeable (ready : SetsReady prof) {mps : List Nat} (once : mps.Nodup)
    (dst : Nat) :
    Mergeable prof.stackHeap dst (toMerge (mps.map prof.mprofile)) := by
  refine ⟨ready.inOrder, fun s _ => ⟨fun id member stacked => ?_, ready.small s⟩⟩
  rcases mem_idsFrom_toMerge member with ⟨profile, isProfile, rfl, inQueue⟩
  rcases List.mem_map.mp isProfile with ⟨mp, inProfiles, rfl⟩
  have held := ready.held mp id inQueue stacked
  rw [ready.idsFrom_eq once inProfiles held.1]
  exact held.2

theorem SetsReady.ownStacks (ready : SetsReady prof) (mp : Nat) :
    OwnStacks prof.stackHeap (prof.mprofile mp).mpStset
      ((prof.mprofile mp).mpTqhead.map (fun mpr => ((prof.mprofile mp).mpStset, mpr))) := by
  refine ⟨fun entry member => ?_, ⟨ready.inOrder.content _, ready.inOrder.ids _, ready.indexed _⟩,
    fun entry member stacked => ?_⟩
  · rcases List.mem_map.mp member with ⟨mpr, -, rfl⟩
    rfl
  · rcases List.mem_map.mp member with ⟨mpr, inQueue, rfl⟩
    have held := ready.held mp mpr.mprStackId (List.mem_map_of_mem inQueue) stacked
    rcases held.2 with ⟨p, inIds, isId, -⟩
    exact ⟨held.1, p, inIds, isId, ready.small _ p inIds⟩

theorem map_snd_toMerge (profiles : List Profile) :
    (toMerge profiles).map Prod.snd = profiles.flatMap Profile.mpTqhead := by
  rw [toMerge, List.map_flatMap]
  refine List.flatMap_congr (fun mp _ => ?_)
  rw [List.map_map]
  exact List.map_id _

theorem masterStset_cons {master : Nat} {others : List Nat}
    (profiles : prof.profiles = master :: others) :
    prof.masterStset = (prof.mprofile master).mpStset := by
  rw [Profiler.masterStset, Profiler.listed, profiles, List.map_cons]

variable (copyBlock) in
/-- The loops go through the first profile, and then merge the others into its set. -/
theorem SetsReady.loops (ready : SetsReady prof)
    (fresh : (prof.records.map MprofileRecord.mprId).Nodup)
    {master : Nat} {others : List Nat} (profiles : prof.profiles = master :: others) :
    Exists fun own => toMerge prof.listed = own ++ toMerge (others.map prof.mprofile) ∧
      Meets (saveNext copyBlock prof.masterStset)
        (MergeGranted copyBlock prof.masterStset) ⟨prof.stackHeap, []⟩ own ∧
      Exists fun middle =>
        exec (saveNext copyBlock prof.masterStset) ⟨prof.stackHeap, []⟩ own = .ok middle ∧
        middle.stackHeap = prof.stackHeap ∧
        Mergeable middle.stackHeap prof.masterStset (toMerge (others.map prof.mprofile)) ∧
        Unsorted middle (toMerge (others.map prof.mprofile)) ∧
        forall entry, entry ∈ toMerge (others.map prof.mprofile) -> entry.2.mprStackId ≠ 0 ->
          prof.masterStset ≠ 0 -> prof.masterStset ≠ entry.1 := by
  rw [masterStset_cons profiles]
  have parts := List.nodup_cons.mp (profiles ▸ ready.once)
  have split : toMerge prof.listed =
      (prof.mprofile master).mpTqhead.map (fun mpr => ((prof.mprofile master).mpStset, mpr)) ++
        toMerge (others.map prof.mprofile) := by
    rw [Profiler.listed, profiles, List.map_cons, toMerge, List.flatMap_cons]
    rfl
  have unsorted : Unsorted ⟨prof.stackHeap, []⟩ (toMerge prof.listed) := by
    refine ⟨[], sortedLog_nil, ?_⟩
    rw [List.nil_append, map_snd_toMerge]
    exact fresh
  rw [split] at unsorted
  rcases (ready.ownStacks master).exec unsorted with ⟨met, middle, executed, sameHeap, left⟩
  refine ⟨_, split, met, middle, executed, sameHeap, ?_, left,
    fun entry member stacked valid same => ?_⟩
  · rw [sameHeap]
    exact ready.mergeable parts.2 _
  · rcases List.mem_flatMap.mp member with ⟨profile, isProfile, inQueue⟩
    rcases List.mem_map.mp isProfile with ⟨mp, inOthers, rfl⟩
    rcases List.mem_map.mp inQueue with ⟨mpr, -, rfl⟩
    exact parts.1 (ready.apart master mp valid same ▸ inOthers)

variable (copyBlock) in
/-- The loops end exactly if each stack finds room. -/
theorem SetsReady.saveProfiles_iff (ready : SetsReady prof)
    (fresh : (prof.records.map MprofileRecord.mprId).Nodup) {master : Nat} {others : List Nat}
    (profiles : prof.profiles = master :: others) :
    (Exists fun st => saveProfiles copyBlock prof.masterStset ⟨prof.stackHeap, []⟩
        prof.listed = .ok st) ↔
      Meets (saveNext copyBlock prof.masterStset)
        (MergeGranted copyBlock prof.masterStset) ⟨prof.stackHeap, []⟩
        (toMerge prof.listed) := by
  rcases ready.loops copyBlock fresh profiles with
    ⟨own, split, met, middle, executed, -, mergeable, unsorted, apart⟩
  have rest := mergeable.exec_iff copyBlock unsorted apart
  rw [← exec_toMerge, split, exec_append, executed, meets_append]
  refine rest.trans ⟨fun meets => ⟨met, fun st' same => ?_⟩, fun both => both.2 middle executed⟩
  rw [executed] at same
  cases same
  exact meets

/-- A saved queue is linked exactly if its log replays. -/
theorem buildChains_ok_iff {log : List MprofileRecord} (fresh : forall r, r ∈ log -> r.bare = r) :
    (Exists fun linked => buildChains log = .ok linked) ↔ replay log ≠ none := by
  cases replayed : replay log with
  | none =>
      rcases buildChains_conflict log fresh replayed with ⟨stop, stopped, -⟩
      refine ⟨fun linked => ?_, fun impossible => absurd rfl impossible⟩
      rcases linked with ⟨linked, built⟩
      rw [stopped] at built
      cases built
  | some live =>
      rcases buildChains_linked log fresh replayed with ⟨linked, built, -⟩
      refine ⟨fun _ impossible => ?_, fun _ => ⟨linked, built⟩⟩
      cases impossible

/-- The sorter holds the merged log, which is linked last. -/
theorem linked_iff_replays {dst : Nat} {st : SaveState}
    (fresh : (prof.records.map MprofileRecord.mprId).Nodup)
    (unlinked : forall mpr, mpr ∈ prof.records -> mpr.bare = mpr)
    (saved : saveProfiles copyBlock dst ⟨prof.stackHeap, []⟩ prof.listed = .ok st) :
    (Exists fun linked => buildChains st.sorter = .ok linked) ↔ replay prof.mergedLog ≠ none := by
  have start : SortedLog [] (SaveState.mk prof.stackHeap []).sorter := sortedLog_nil
  have sorted :=
    (saveProfiles_spec copyBlock _ prof.listed start (by rw [List.nil_append]; exact fresh)).2
      st saved
  rw [List.nil_append] at sorted
  have same := sorted.eq_of_perm ((List.perm_insertionSort _ _).map MprofileRecord.unfiled)
    (sorted_mergedLog fresh)
  have bare : forall r, r ∈ st.sorter -> r.bare = r := by
    intro r member
    have inRecords :=
      sorted.perm.mem_iff.mp (List.mem_map_of_mem (f := MprofileRecord.unfiled) member)
    rcases List.mem_map.mp inRecords with ⟨mpr, isRecord, equal⟩
    have linkless := unlinked mpr isRecord
    have prev := (congrArg MprofileRecord.mprPrevId equal).symm
    have next := (congrArg MprofileRecord.mprNextId equal).symm
    refine bare_of_unlinked ?_ ?_
    · exact prev.trans (congrArg MprofileRecord.mprPrevId linkless).symm
    · exact next.trans (congrArg MprofileRecord.mprNextId linkless).symm
  rw [buildChains_ok_iff bare, ← replay_unfiled, same, replay_unfiled]
  rfl

/-- What `mprofile_save` does with the sorter: the queue of the first profile, linked or not. -/
def linkQueue (linkChains : Bool) (sorter : List MprofileRecord) :
    Except SaveFault (List MprofileRecord) :=
  if linkChains then (buildChains sorter).mapError SaveFault.chains else .ok sorter

/-- `mprofile_save` up to `profile_save`: the sets, and the first profile with all records. -/
def saveMerged (copyBlock : Nat -> Option (Int -> UInt64)) (linkChains : Bool) (prof : Profiler) :
    Except SaveFault (StackHeap × Profile) :=
  match prof.listed with
  | [] => .error .nullDereference
  | master :: rest => do
      let st ← saveProfiles copyBlock master.mpStset ⟨prof.stackHeap, []⟩ (master :: rest)
      let queue ← linkQueue linkChains st.sorter
      return (st.stackHeap, { master with mpTqhead := queue })

theorem mprofileSave_eq (copyBlock : Nat -> Option (Int -> UInt64)) (linkChains : Bool)
    (prof : Profiler) :
    mprofileSave copyBlock linkChains prof = (saveMerged copyBlock linkChains prof).map
      (fun merged => profileSave prof.startTimeTv merged.1 merged.2) := by
  rw [mprofileSave, saveMerged]
  cases prof.listed with
  | nil => rfl
  | cons master rest =>
      simp only
      cases saveProfiles copyBlock master.mpStset ⟨prof.stackHeap, []⟩ (master :: rest) with
      | error fault => rfl
      | ok st =>
          cases linkChains with
          | false => rfl
          | true =>
              change _ = ((linkQueue true st.sorter).bind _).map _
              rw [linkQueue]
              simp only [if_true]
              cases buildChains st.sorter <;> rfl

variable (copyBlock linkChains) in
/-- Without a profile there is nothing to merge into. -/
theorem saveMerged_nil (profiles : prof.profiles = []) :
    saveMerged copyBlock linkChains prof = .error .nullDereference := by
  rw [saveMerged, Profiler.listed, profiles]
  rfl

variable (copyBlock linkChains) in
theorem saveMerged_cons {master : Nat} {others : List Nat}
    (profiles : prof.profiles = master :: others) :
    saveMerged copyBlock linkChains prof =
      (saveProfiles copyBlock prof.masterStset ⟨prof.stackHeap, []⟩ prof.listed).bind (fun st =>
        (linkQueue linkChains st.sorter).map (fun queue =>
          (st.stackHeap, { prof.mprofile master with mpTqhead := queue }))) := by
  rw [saveMerged, Profiler.masterStset, Profiler.listed, profiles, List.map_cons]
  rfl

theorem linkQueue_ok_iff (linkChains : Bool) (sorter : List MprofileRecord) :
    (Exists fun queue => linkQueue linkChains sorter = .ok queue) ↔
      (linkChains = true -> Exists fun linked => buildChains sorter = .ok linked) := by
  cases linkChains with
  | false => exact ⟨fun _ impossible => (by cases impossible), fun _ => ⟨sorter, rfl⟩⟩
  | true =>
      rw [linkQueue, if_pos rfl]
      cases buildChains sorter with
      | error stop =>
          constructor
          · rintro ⟨queue, impossible⟩
            cases impossible
          · intro linked
            rcases linked rfl with ⟨queue, impossible⟩
            cases impossible
      | ok linked => exact ⟨fun _ _ => ⟨linked, rfl⟩, fun _ => ⟨linked, rfl⟩⟩

/-- `mprofile_save` writes its document exactly if it has what it needs. -/
theorem mprofileSave_iff (ready : SetsReady prof)
    (fresh : (prof.records.map MprofileRecord.mprId).Nodup)
    (unlinked : forall mpr, mpr ∈ prof.records -> mpr.bare = mpr) :
    (Exists fun doc => mprofileSave copyBlock linkChains prof = .ok doc) ↔
      Savable copyBlock linkChains prof := by
  rw [mprofileSave_eq]
  cases profiles : prof.profiles with
  | nil =>
      rw [saveMerged_nil copyBlock linkChains profiles]
      refine ⟨fun saved => ?_, fun savable => absurd profiles savable.profiled⟩
      rcases saved with ⟨doc, saved⟩
      cases saved
  | cons master others =>
      have loops := ready.saveProfiles_iff copyBlock fresh profiles
      rw [saveMerged_cons copyBlock linkChains profiles]
      cases merged : saveProfiles copyBlock prof.masterStset ⟨prof.stackHeap, []⟩ prof.listed with
      | error fault =>
          rw [merged] at loops
          constructor
          · rintro ⟨doc, impossible⟩
            cases impossible
          · intro savable
            rcases loops.mpr savable.merges with ⟨st, impossible⟩
            cases impossible
      | ok st =>
          have links : (Exists fun queue => linkQueue linkChains st.sorter = .ok queue) ↔
              (linkChains = true -> replay prof.mergedLog ≠ none) :=
            (linkQueue_ok_iff linkChains st.sorter).trans
              (forall_congr' (fun _ => linked_iff_replays fresh unlinked merged))
          rw [Except.bind]
          constructor
          · rintro ⟨doc, saved⟩
            refine ⟨by
              rw [profiles]; exact List.cons_ne_nil _ _, loops.mp ⟨st, merged⟩, links.mp ?_⟩
            cases linked : linkQueue linkChains st.sorter with
            | error fault => rw [linked] at saved; cases saved
            | ok queue => exact ⟨queue, rfl⟩
          · intro savable
            rcases links.mpr savable.replays with ⟨queue, linked⟩
            rw [linked]
            exact ⟨_, rfl⟩

end Saving

end Mprofile
end OsslScripts
