import OsslScripts.Mprofile.CallStacks
import OsslScripts.Mprofile.MergeRoom
import OsslScripts.Mprofile.Refusals

namespace OsslScripts
namespace Mprofile

open Foundation

/-!
# The stack ids of a run

A record that is filed under a stack names an entry in the set of its profile, and
the set counts each use of the entry.  Whatever the interleaving, and whichever
requests of the profiler are refused, no entry is named by more records than it
counts, as long as there are fewer than `2 ^ 32 - 1` records.  So the sets are as
`mprofile_save` needs them (`SetsReady`), and it is known when it comes to an end.

The uses of the stacks are a ghost: for each stack that was added, the record that
it was added for, the profile, and the id that the set has handed out.
-/

/-! ## Sets -/

/-- The sets after stacks were added so many times. -/
structure SetsFiled (heap : StackHeap) (adds : Nat) : Prop where
  sorted : StsetsSorted heap
  trees : TreesInOrder heap
  same : forall s p, p ∈ (heap.stset s).stsetIdRbh ↔ p ∈ heap.members s
  next : forall s, 0 < (heap.stset s).stsetId ∧ (heap.stset s).stsetId ≤ adds + 1
  ids : forall s p, p ∈ heap.members s -> 0 < heap.idOf p ∧ heap.idOf p < (heap.stset s).stsetId
  counts : forall s p, p ∈ heap.members s -> heap.countOf p ≤ adds

/-- What adding a stack does to the sets: the stack has this id, or none if it is 0. -/
structure AddsStack (heap heap' : StackHeap) (s id : Nat) : Prop where
  stsetTop : heap'.stsetTop = heap.stsetTop
  found : id ≠ 0 -> s ≠ 0 ∧ Exists fun p => p ∈ heap'.members s ∧ heap'.idOf p = id
  kept : forall t p, p ∈ heap.members t ->
    p ∈ heap'.members t ∧ heap'.idOf p = heap.idOf p ∧ heap.countOf p ≤ heap'.countOf p
  counted : forall p, p ∈ heap.members s -> heap.idOf p = id -> heap'.countOf p = heap.countOf p + 1
  /-- A new entry has the id for itself, and one use. -/
  entered : forall t p, p ∈ heap'.members t -> p ∈ heap.members t ∨
    (t = s ∧ heap'.idOf p = id ∧ heap'.countOf p = 1 ∧ forall q, q ∈ heap.members s ->
      heap.idOf q ≠ id)

section Sets

variable {heap : StackHeap} {s p adds : Nat} {mps : MprofileStack} {block : Option (Int -> UInt64)}

theorem treesInOrder_empty : TreesInOrder StackHeap.empty := by
  have nothing : forall s p, ¬ StackHeap.empty.Hangs s p := fun s p hung => by
    rcases hung with impossible | impossible <;> cases impossible
  exact ⟨Nat.one_pos, fun _ => List.Pairwise.nil, fun _ => List.Pairwise.nil,
    fun s p hung => absurd hung (nothing s p), fun s t p hung => absurd hung (nothing s p)⟩

theorem setsFiled_empty : SetsFiled StackHeap.empty 0 where
  sorted := stsetsSorted_empty
  trees := treesInOrder_empty
  same := fun _ _ => Iff.rfl
  next := fun _ => ⟨Nat.one_pos, Nat.le_refl _⟩
  ids := fun _ _ member => by cases member
  counts := fun _ _ member => by cases member

/-- Stacks of one set with the same id are the same stack. -/
theorem SetsFiled.eq_of_id (filed : SetsFiled heap adds) {q : Nat} (inP : p ∈ heap.members s)
    (inQ : q ∈ heap.members s) (same : heap.idOf p = heap.idOf q) : p = q :=
  (filed.trees.ids s).injective ((filed.same s p).mpr inP) ((filed.same s q).mpr inQ) same

theorem SetsFiled.mono (filed : SetsFiled heap adds) {more : Nat} (le : adds ≤ more) :
    SetsFiled heap more where
  sorted := filed.sorted
  trees := filed.trees
  same := filed.same
  next := fun s => ⟨(filed.next s).1, Nat.le_trans (filed.next s).2 (Nat.succ_le_succ le)⟩
  ids := filed.ids
  counts := fun s p member => Nat.le_trans (filed.counts s p member) le

/-- A new set has no stacks. -/
theorem SetsFiled.create (filed : SetsFiled heap adds) (ok : Bool) :
    SetsFiled (mprofileCreateStset heap ok).1 adds := by
  cases ok with
  | false => exact filed
  | true =>
      have created : (mprofileCreateStset heap true).1.stset heap.stsetTop = ⟨1, [], []⟩ :=
        Function.update_self _ _ _
      have others : forall s, s ≠ heap.stsetTop -> (mprofileCreateStset heap true).1.stset s =
          heap.stset s :=
        fun s different => Function.update_of_ne different _ _
      -- a set is the new one, or as it was
      have each : forall (fact : Nat -> MprofileStset -> Prop), (forall s, fact s ⟨1, [], []⟩) ->
          (forall s, fact s (heap.stset s)) ->
              forall s, fact s ((mprofileCreateStset heap true).1.stset s) := by
        intro fact new old s
        by_cases here : s = heap.stsetTop
        · rw [here, created]
          exact new _
        · rw [others s here]
          exact old s
      have hangs : forall s p, (mprofileCreateStset heap true).1.Hangs s p -> heap.Hangs s p := by
        refine fun s p =>
          each (fun s set => p ∈ set.stsetRbh ∨ p ∈ set.stsetIdRbh -> heap.Hangs s p) ?_ ?_ s
        · rintro s (impossible | impossible) <;> cases impossible
        · exact fun s hung => hung
      refine ⟨filed.sorted.create true, ⟨filed.trees.top, ?_, ?_, ?_, ?_⟩, fun s p => ?_, ?_,
        fun s p => ?_,
        fun s p => ?_⟩
      · exact each (fun _ set => OrderedTree.Sorted heap.key set.stsetRbh)
          (fun _ => List.Pairwise.nil)
          filed.trees.content
      · exact each (fun _ set => OrderedTree.Sorted heap.idOf set.stsetIdRbh)
          (fun _ => List.Pairwise.nil)
          filed.trees.ids
      · exact fun s p hung => filed.trees.allocated s p (hangs s p hung)
      · exact fun s t p inS inT => filed.trees.apart s t p (hangs s p inS) (hangs t p inT)
      · exact each (fun _ set => p ∈ set.stsetIdRbh ↔ p ∈ set.stsetRbh) (fun _ => Iff.rfl)
          (fun s => filed.same s p) s
      · exact each (fun _ set => 0 < set.stsetId ∧ set.stsetId ≤ adds + 1)
          (fun _ => ⟨Nat.one_pos, Nat.le_add_left 1 adds⟩) filed.next
      · exact each (fun _ set => p ∈ set.stsetRbh -> 0 < heap.idOf p ∧ heap.idOf p < set.stsetId)
          (fun _ impossible => by cases impossible) (fun s => filed.ids s p) s
      · exact each (fun _ set => p ∈ set.stsetRbh -> heap.countOf p ≤ adds)
          (fun _ impossible => by cases impossible) (fun s => filed.counts s p) s

/-- Another use of a stack is counted. -/
theorem SetsFiled.bump (filed : SetsFiled heap adds) (valid : s ≠ 0) (member : p ∈ heap.members s)
    (few : adds + 1 < 2 ^ 32) :
    SetsFiled (heap.bump p) (adds + 1) ∧ AddsStack heap (heap.bump p) s (heap.idOf p) := by
  have agree := bump_agree heap p
  have more : (heap.bump p).countOf p = heap.countOf p + 1 := by
    rw [StackHeap.bump, countOf_setMps_self]
    exact uintSucc_of_lt (Nat.lt_of_le_of_lt (Nat.succ_le_succ (filed.counts s p member)) few)
  have others : forall q, q ≠ p -> (heap.bump p).countOf q = heap.countOf q :=
    fun q different => countOf_setMps_of_ne _ _ different
  have bounds : forall q, heap.countOf q ≤ (heap.bump p).countOf q ∧
      (heap.countOf q ≤ adds -> (heap.bump p).countOf q ≤ adds + 1) := by
    intro q
    by_cases here : q = p
    · rw [here, more]
      exact ⟨Nat.le_succ _, Nat.succ_le_succ⟩
    · rw [others q here]
      exact ⟨Nat.le_refl _, Nat.le_succ_of_le⟩
  refine ⟨⟨filed.sorted.bump p, filed.trees.bump p, filed.same,
      fun t => ⟨(filed.next t).1, Nat.le_succ_of_le (filed.next t).2⟩, fun t q inT => ?_,
        fun t q inT => ?_⟩,
    ⟨rfl, fun _ => ⟨valid, p, member, (agree p).2⟩, fun t q inT => ⟨inT, (agree q).2, (bounds q).1⟩,
      fun q inS same => ?_, fun t q inT => Or.inl inT⟩⟩
  · rw [(agree q).2]
    exact filed.ids t q inT
  · exact (bounds q).2 (filed.counts t q inT)
  · rw [filed.eq_of_id inS member same]
    exact more

/-- A copy enters the set under the next id. -/
theorem SetsFiled.enter {copy : MprofileStack} (filed : SetsFiled heap adds) (valid : s ≠ 0)
    (entry : NewEntry heap s mps copy) (once : copy.mpsCount = 1) (few : adds + 2 < 2 ^ 32) :
    SetsFiled (hangStack (newStack heap s copy) s heap.mpsTop (uintSucc (heap.stset s).stsetId))
      (adds + 1) ∧
      AddsStack heap (hangStack (newStack heap s copy) s heap.mpsTop
        (uintSucc (heap.stset s).stsetId)) s
        (heap.stset s).stsetId := by
  have succ : uintSucc (heap.stset s).stsetId = (heap.stset s).stsetId + 1 :=
    uintSucc_of_lt (Nat.lt_of_le_of_lt (Nat.succ_le_succ (filed.next s).2) few)
  rw [succ]
  have own : (newStack heap s copy).mps heap.mpsTop =
      { copy with mpsId := (heap.stset s).stsetId } :=
    newStack_self heap s copy
  have older : forall t q, q ∈ heap.members t -> (newStack heap s copy).mps q = heap.mps q :=
    fun t q inT => newStack_others heap s copy (Nat.ne_of_lt (filed.sorted.allocated t q inT).2)
  have freshId : forall q, q ∈ heap.members s -> heap.idOf q ≠ (heap.stset s).stsetId :=
    fun q inS => Nat.ne_of_lt (filed.ids s q inS).2
  have here := mem_hang (entry.freshKey filed.sorted) ((heap.stset s).stsetId + 1)
  have elsewhere : forall t, t ≠ s ->
      (hangStack (newStack heap s copy) s heap.mpsTop ((heap.stset s).stsetId + 1)).stset t =
          heap.stset t :=
    fun t different => Function.update_of_ne different _ _
  have nextId : ((hangStack (newStack heap s copy) s heap.mpsTop ((heap.stset s).stsetId + 1)).stset
        s).stsetId = (heap.stset s).stsetId + 1 := by
    rw [hangStack, StackHeap.setStset_stset, Function.update_self]
  have ids := OrderedTree.insert_fresh (x := heap.mpsTop)
    (fun q (_ : q ∈ ((newStack heap s copy).stset s).stsetIdRbh) =>
      idOrder_keyed (newStack heap s copy) heap.mpsTop q)
    (fun q member => by
      have inS : q ∈ heap.members s := (filed.same s q).mp member
      rw [StackHeap.idOf, StackHeap.idOf, older s q inS, own]
      exact freshId q inS)
  -- where the stacks of a set come from
  have origin : forall t q,
      q ∈ (hangStack (newStack heap s copy) s heap.mpsTop ((heap.stset s).stsetId + 1)).members t ->
        (t = s ∧ q = heap.mpsTop) ∨ q ∈ heap.members t := by
    intro t q inT
    by_cases isS : t = s
    · subst isS
      exact ((here q).mp inT).imp (fun same => ⟨rfl, same⟩) id
    · rw [StackHeap.members, elsewhere t isS] at inT
      exact Or.inr inT
  have sorted : StsetsSorted
      (hangStack (newStack heap s copy) s heap.mpsTop ((heap.stset s).stsetId + 1)) :=
    filed.sorted.hang entry _
  have trees : TreesInOrder
      (hangStack (newStack heap s copy) s heap.mpsTop ((heap.stset s).stsetId + 1)) :=
    (filed.trees.alloc { copy with mpsId := (heap.stset s).stsetId }).hang
      (fun t hung => filed.trees.top_outside t hung) (Nat.lt_succ_self _) s _
  -- the stacks themselves do not change when one is hung
  have ownId : (hangStack (newStack heap s copy) s heap.mpsTop ((heap.stset s).stsetId + 1)).idOf
      heap.mpsTop = (heap.stset s).stsetId := by
    rw [StackHeap.idOf, hangStack, StackHeap.setStset_mps, own]
  have ownCount :
      (hangStack (newStack heap s copy) s heap.mpsTop ((heap.stset s).stsetId + 1)).countOf
          heap.mpsTop = 1 := by
    rw [StackHeap.countOf, hangStack, StackHeap.setStset_mps, own]
    exact once
  have olderId : forall t q, q ∈ heap.members t ->
      (hangStack (newStack heap s copy) s heap.mpsTop ((heap.stset s).stsetId + 1)).idOf q =
          heap.idOf q := by
    intro t q inT
    rw [StackHeap.idOf, hangStack, StackHeap.setStset_mps, older t q inT]
    rfl
  have olderCount : forall t q, q ∈ heap.members t ->
      (hangStack (newStack heap s copy) s heap.mpsTop ((heap.stset s).stsetId + 1)).countOf q =
          heap.countOf q := by
    intro t q inT
    rw [StackHeap.countOf, hangStack, StackHeap.setStset_mps, older t q inT]
    rfl
  refine ⟨⟨sorted, trees, fun t q => ?_, fun t => ?_, fun t q inT => ?_, fun t q inT => ?_⟩,
    ⟨rfl, fun _ => ⟨valid, heap.mpsTop, (here _).mpr (Or.inl rfl), ownId⟩, fun t q inT => ?_,
      fun q inS same => absurd same (freshId q inS), fun t q inT => ?_⟩⟩
  · by_cases isS : t = s
    · subst isS
      rw [here, hangStack, StackHeap.setStset_stset, Function.update_self]
      simp only
      rw [ids.2.1.mem_iff, List.mem_cons]
      exact or_congr_right (filed.same t q)
    · rw [StackHeap.members, elsewhere t isS]
      exact filed.same t q
  · by_cases isS : t = s
    · subst isS
      rw [nextId]
      exact ⟨Nat.succ_pos _, Nat.succ_le_succ (filed.next t).2⟩
    · rw [elsewhere t isS]
      exact ⟨(filed.next t).1, Nat.le_succ_of_le (filed.next t).2⟩
  · rcases origin t q inT with ⟨rfl, rfl⟩ | old
    · rw [ownId, nextId]
      exact ⟨(filed.next t).1, Nat.lt_succ_self _⟩
    · rw [olderId t q old]
      have before := filed.ids t q old
      by_cases isS : t = s
      · subst isS
        rw [nextId]
        exact ⟨before.1, Nat.lt_succ_of_lt before.2⟩
      · rw [elsewhere t isS]
        exact before
  · rcases origin t q inT with ⟨-, rfl⟩ | old
    · rw [ownCount]
      exact Nat.le_add_left 1 adds
    · rw [olderCount t q old]
      exact Nat.le_succ_of_le (filed.counts t q old)
  · refine ⟨?_, olderId t q inT, Nat.le_of_eq (olderCount t q inT).symm⟩
    by_cases isS : t = s
    · subst isS
      exact (here q).mpr (Or.inr inT)
    · rw [StackHeap.members, elsewhere t isS]
      exact inT
  · rcases origin t q inT with ⟨isS, rfl⟩ | old
    · exact Or.inr ⟨isS, ownId, ownCount, freshId⟩
    · exact Or.inl old

/-- A stack is added, and the sets are kept. -/
theorem SetsFiled.add (filed : SetsFiled heap adds) (fresh : heap.freshBlock block)
    (unmanaged : mps.mpsFlags ≠ mpsFlagManaged) (few : adds + 2 < 2 ^ 32) :
    SetsFiled (mprofileAddStack heap s mps block).1 (adds + 1) ∧
      AddsStack heap (mprofileAddStack heap s mps block).1 s
        (mprofileGetStackId (mprofileAddStack heap s mps block).1
          (mprofileAddStack heap s mps block).2) := by
  -- no stack is added
  have refused : SetsFiled heap (adds + 1) ∧ AddsStack heap heap s (mprofileGetStackId heap 0) := by
    refine ⟨filed.mono (Nat.le_succ adds), rfl, fun impossible => absurd rfl impossible,
      fun t p inT => ⟨inT, rfl, Nat.le_refl _⟩, fun p inS same => ?_, fun t p inT => Or.inl inT⟩
    exact absurd same (Nat.ne_of_gt (filed.ids s p inS).1)
  by_cases valid : s = 0
  · rw [mprofileAddStack, if_pos valid]
    exact refused
  · rcases mprofileAddStack_cases mps block (filed.sorted.sorted s) valid with
      ⟨p, member, -, added⟩ | ⟨absent, ⟨-, added⟩ | ⟨copy, copied, added⟩⟩
    · have id : mprofileGetStackId (heap.bump p) p = heap.idOf p := by
        rw [mprofileGetStackId, if_neg (Nat.ne_of_gt (filed.sorted.allocated s p member).1)]
        exact (bump_agree heap p p).2
      rw [added, id]
      exact filed.bump valid member (Nat.lt_of_succ_lt few)
    · rw [added]
      exact refused
    · have id : mprofileGetStackId (hangStack (newStack heap s copy) s heap.mpsTop
          (uintSucc (heap.stset s).stsetId)) heap.mpsTop = (heap.stset s).stsetId := by
        rw [mprofileGetStackId, if_neg (Nat.ne_of_gt filed.sorted.top), hangStack,
          StackHeap.setStset_mps,
          newStack_self]
      rw [added, id]
      refine filed.enter valid (newEntry_of_copied filed.sorted fresh copied absent) ?_ few
      cases block with
      | none => cases copied
      | some words =>
          cases copied
          exact if_neg unmanaged

end Sets

/-! ## Uses -/

/-- A stack was added to the set of a profile for a record, and has this id or none. -/
structure StackUse where
  mprId : Nat
  profile : Nat
  stackId : Nat
deriving DecidableEq

/-- The uses of one stack of a profile. -/
def usesOf (uses : List StackUse) (mp id : Nat) : List StackUse :=
  uses.filter (fun use => use.profile = mp ∧ use.stackId = id)

theorem usesOf_cons_self (uses : List StackUse) (i mp id : Nat) :
    usesOf (⟨i, mp, id⟩ :: uses) mp id = ⟨i, mp, id⟩ :: usesOf uses mp id :=
  List.filter_cons_of_pos (decide_eq_true ⟨rfl, rfl⟩)

theorem usesOf_cons_of_ne {uses : List StackUse} {i mp stackId q id : Nat}
    (other : ¬ (mp = q ∧ stackId = id)) :
    usesOf (⟨i, mp, stackId⟩ :: uses) q id = usesOf uses q id :=
  List.filter_cons_of_neg (fun same => other (of_decide_eq_true same))

/-- The profiles, and the stacks that were used in them. -/
structure StacksUsed (prof : Profiler) (uses : List StackUse) : Prop where
  once : (uses.map StackUse.mprId).Nodup
  ids : forall use, use ∈ uses -> 1 ≤ use.mprId ∧ use.mprId ≤ prof.mprId
  /-- A record that names a stack is a use of it. -/
  filed : forall mp mpr, mpr ∈ (prof.mprofile mp).mpTqhead -> mpr.mprStackId ≠ 0 ->
    ⟨mpr.mprId, mp, mpr.mprStackId⟩ ∈ uses
  known : forall use, use ∈ uses -> use.stackId ≠ 0 -> (prof.mprofile use.profile).mpStset ≠ 0 ∧
    Exists fun p => p ∈ prof.stackHeap.members (prof.mprofile use.profile).mpStset ∧
      prof.stackHeap.idOf p = use.stackId
  /-- A set counts all uses. -/
  counted : forall mp p, p ∈ prof.stackHeap.members (prof.mprofile mp).mpStset ->
    (usesOf uses mp (prof.stackHeap.idOf p)).length ≤ prof.stackHeap.countOf p
  sets : SetsFiled prof.stackHeap uses.length
  below : forall mp, (prof.mprofile mp).mpStset < prof.stackHeap.stsetTop
  apart : forall mp other, (prof.mprofile mp).mpStset ≠ 0 ->
    (prof.mprofile mp).mpStset = (prof.mprofile other).mpStset -> mp = other
  blank : forall mp, prof.mprofileTop ≤ mp -> prof.mprofile mp = ⟨[], 0⟩
  unlisted : forall mp, mp ∉ prof.profiles -> (prof.mprofile mp).mpTqhead = []

/-- The records that have no stack yet, and the stacks that are on their way to a record. -/
structure StacksDue {Thread : Type} (last : Nat) (gs : Thread -> Naming)
    (uses : List StackUse) : Prop where
  drawn : forall t i, (gs t).drawn = some i -> (1 ≤ i ∧ i ≤ last) ∧ i ∉ uses.map StackUse.mprId
  drawnOnce : forall t u i, (gs t).drawn = some i -> (gs u).drawn = some i -> t = u
  owed : forall t i mp id, (gs t).owed = some (i, mp, id) -> ⟨i, mp, id⟩ ∈ uses

section Uses

variable {Thread : Type} [DecidableEq Thread] {prof prof' : Profiler} {gs : Thread -> Naming}
  {uses : List StackUse}
  {t : Thread} {g : Naming} {mp : Nat} {answer : Answer}

theorem stacksUsed_empty : StacksUsed World.init.prof [] where
  once := List.nodup_nil
  ids := fun use member => by cases member
  filed := fun mp mpr member => by cases member
  known := fun use member => by cases member
  counted := fun mp p member => by cases member
  sets := setsFiled_empty
  below := fun mp => Nat.one_pos
  apart := fun mp other valid => absurd rfl valid
  blank := fun mp beyond => rfl
  unlisted := fun mp outside => rfl

/-- There are no more different ids than have been drawn. -/
theorem length_le_drawn {ids : List Nat} {last : Nat} (once : ids.Nodup)
    (within : forall i, i ∈ ids -> 1 ≤ i ∧ i ≤ last) : ids.length ≤ last := by
  have inside : ids ⊆ List.range' 1 last := by
    intro i member
    have bounds := within i member
    rw [List.mem_range'_1]
    omega
  have bounded := once.length_le_of_subset inside
  rwa [List.length_range'] at bounded

/-- There are no more uses than records. -/
theorem StacksUsed.length_le (used : StacksUsed prof uses) : uses.length ≤ prof.mprId := by
  rw [← List.length_map (f := StackUse.mprId)]
  refine length_le_drawn used.once (fun i member => ?_)
  rcases List.mem_map.mp member with ⟨use, isUse, rfl⟩
  exact used.ids use isUse

omit [DecidableEq Thread] in
/-- There is one use less while a record has no stack yet. -/
theorem StacksUsed.length_lt (used : StacksUsed prof uses) (due : StacksDue prof.mprId gs uses)
    {i : Nat}
    (drawn : (gs t).drawn = some i) : uses.length < prof.mprId := by
  have own := due.drawn t i drawn
  rw [← List.length_map (f := StackUse.mprId)]
  refine length_le_drawn (List.nodup_cons.mpr ⟨own.2, used.once⟩) (fun id member => ?_)
  rcases List.mem_cons.mp member with rfl | inUses
  · exact own.1
  · rcases List.mem_map.mp inUses with ⟨use, isUse, rfl⟩
    exact used.ids use isUse

/-- The profiles and their sets stay as they are. -/
theorem StacksUsed.congr (used : StacksUsed prof uses) (mprId : prof'.mprId = prof.mprId)
    (mprofile : prof'.mprofile = prof.mprofile) (top : prof'.mprofileTop = prof.mprofileTop)
    (stackHeap : prof'.stackHeap = prof.stackHeap)
    (grows : forall mp, mp ∈ prof.profiles -> mp ∈ prof'.profiles) :
    StacksUsed prof' uses := by
  refine ⟨used.once, ?_, ?_, ?_, ?_, ?_, ?_, ?_, ?_, fun mp outside => ?_⟩
  · rw [mprId]; exact used.ids
  · rw [mprofile]; exact used.filed
  · rw [mprofile, stackHeap]; exact used.known
  · rw [mprofile, stackHeap]; exact used.counted
  · rw [stackHeap]; exact used.sets
  · rw [mprofile, stackHeap]; exact used.below
  · rw [mprofile]; exact used.apart
  · rw [mprofile, top]; exact used.blank
  · rw [mprofile]; exact used.unlisted mp (fun member => outside (grows mp member))

/-- A thread may forget what it has drawn and what it owes. -/
theorem StacksDue.change {last last' : Nat} (due : StacksDue last gs uses) (mprId : last ≤ last')
    (drawn : forall i, g.drawn = some i -> (gs t).drawn = some i)
    (owed : forall owed, g.owed = some owed -> (gs t).owed = some owed) :
    StacksDue last' (Function.update gs t g) uses := by
  have drawnBefore : forall u i, (Function.update gs t g u).drawn = some i ->
      (gs u).drawn = some i := by
    intro u i isDrawn
    by_cases here : u = t
    · rw [here, Function.update_self] at isDrawn
      rw [here]
      exact drawn i isDrawn
    · rwa [Function.update_of_ne here] at isDrawn
  refine ⟨fun u i isDrawn => ?_,
    fun u v i isU isV => due.drawnOnce u v i (drawnBefore u i isU) (drawnBefore v i isV),
    fun u i mp id isOwed => ?_⟩
  · have before := due.drawn u i (drawnBefore u i isDrawn)
    exact ⟨⟨before.1.1, Nat.le_trans before.1.2 mprId⟩, before.2⟩
  · by_cases here : u = t
    · rw [here, Function.update_self] at isOwed
      exact due.owed t i mp id (owed _ isOwed)
    · rw [Function.update_of_ne here] at isOwed
      exact due.owed u i mp id isOwed

/-- A record gets its id. -/
theorem StacksUsed.draw (used : StacksUsed prof uses) :
    StacksUsed { prof with mprId := prof.mprId + 1 } uses where
  once := used.once
  ids := fun use member => ⟨(used.ids use member).1, Nat.le_succ_of_le (used.ids use member).2⟩
  filed := used.filed
  known := used.known
  counted := used.counted
  sets := used.sets
  below := used.below
  apart := used.apart
  blank := used.blank
  unlisted := used.unlisted

theorem StacksDue.draw (due : StacksDue prof.mprId gs uses) (used : StacksUsed prof uses)
    (drawn : g.drawn = some (prof.mprId + 1)) (owed : g.owed = (gs t).owed) :
    StacksDue (prof.mprId + 1) (Function.update gs t g) uses := by
  have fresh : prof.mprId + 1 ∉ uses.map StackUse.mprId := by
    intro member
    rcases List.mem_map.mp member with ⟨use, isUse, same⟩
    have bounds := used.ids use isUse
    omega
  -- the id is new
  have old : forall u i, (gs u).drawn = some i -> i ≠ prof.mprId + 1 := by
    rintro u i isDrawn rfl
    exact Nat.not_succ_le_self _ (due.drawn u _ isDrawn).1.2
  refine ⟨fun u i isDrawn => ?_, fun u v i isU isV => ?_, fun u i mp id isOwed => ?_⟩
  · by_cases here : u = t
    · rw [here, Function.update_self, drawn] at isDrawn
      cases isDrawn
      exact ⟨⟨Nat.succ_pos _, Nat.le_refl _⟩, fresh⟩
    · rw [Function.update_of_ne here] at isDrawn
      have before := due.drawn u i isDrawn
      exact ⟨⟨before.1.1, Nat.le_succ_of_le before.1.2⟩, before.2⟩
  · by_cases hereU : u = t
    · by_cases hereV : v = t
      · rw [hereU, hereV]
      · rw [hereU, Function.update_self, drawn] at isU
        rw [Function.update_of_ne hereV] at isV
        cases isU
        exact absurd rfl (old v _ isV)
    · rw [Function.update_of_ne hereU] at isU
      by_cases hereV : v = t
      · rw [hereV, Function.update_self, drawn] at isV
        cases isV
        exact absurd rfl (old u _ isU)
      · rw [Function.update_of_ne hereV] at isV
        exact due.drawnOnce u v i isU isV
  · by_cases here : u = t
    · rw [here, Function.update_self, owed] at isOwed
      exact due.owed t i mp id isOwed
    · rw [Function.update_of_ne here] at isOwed
      exact due.owed u i mp id isOwed

/-- One queue changes, and its records still name uses. -/
theorem StacksUsed.setQueue (used : StacksUsed prof uses) (queue : List MprofileRecord)
    (filed : forall mpr, mpr ∈ queue -> mpr.mprStackId ≠ 0 ->
      ⟨mpr.mprId, mp, mpr.mprStackId⟩ ∈ uses)
    (blank : prof.mprofileTop ≤ mp -> queue = []) (unlisted : mp ∉ prof.profiles -> queue = []) :
    StacksUsed (prof.setMprofile mp { prof.mprofile mp with mpTqhead := queue }) uses := by
  -- the profiles other than this one, and what it keeps
  have own : (prof.setMprofile mp { prof.mprofile mp with mpTqhead := queue }).mprofile mp =
      { prof.mprofile mp with mpTqhead := queue } := Function.update_self _ _ _
  have others : forall q, q ≠ mp ->
      (prof.setMprofile mp { prof.mprofile mp with mpTqhead := queue }).mprofile q =
          prof.mprofile q :=
    fun q different => Function.update_of_ne different _ _
  have sameSet : forall q,
      ((prof.setMprofile mp { prof.mprofile mp with mpTqhead := queue }).mprofile q).mpStset =
      (prof.mprofile q).mpStset := by
    intro q
    by_cases here : q = mp
    · rw [here, own]
    · rw [others q here]
  refine ⟨used.once, used.ids, fun q mpr member stacked => ?_, fun use member stacked => ?_,
    fun q p member => ?_,
    used.sets, fun q => ?_, fun q other valid same => ?_, fun q beyond => ?_, fun q outside => ?_⟩
  · by_cases here : q = mp
    · subst here
      rw [own] at member
      exact filed mpr member stacked
    · rw [others q here] at member
      exact used.filed q mpr member stacked
  · rw [sameSet]
    exact used.known use member stacked
  · rw [sameSet] at member
    exact used.counted q p member
  · rw [sameSet]
    exact used.below q
  · rw [sameSet] at valid
    rw [sameSet, sameSet] at same
    exact used.apart q other valid same
  · by_cases here : q = mp
    · subst here
      rw [own, blank beyond, used.blank q beyond]
    · rw [others q here]
      exact used.blank q beyond
  · by_cases here : q = mp
    · subst here
      rw [own]
      exact unlisted outside
    · rw [others q here]
      exact used.unlisted q outside

/-- A record without a stack is appended to the queue of a profile. -/
theorem StacksUsed.insertTail (used : StacksUsed prof uses) {mpr : MprofileRecord}
    (listed : mp ∈ prof.profiles)
    (below : mp < prof.mprofileTop) (blank : mpr.mprStackId = 0) :
    StacksUsed (prof.insertTail mp mpr) uses := by
  refine used.setQueue _ (fun other member stacked => ?_)
    (fun beyond => absurd beyond (Nat.not_le_of_lt below))
    (fun outside => absurd listed outside)
  rcases List.mem_append.mp member with old | isNew
  · exact used.filed mp other old stacked
  · rw [List.mem_singleton.mp isNew] at stacked
    exact absurd blank stacked

/-- A record is filed under a stack that was added for it. -/
theorem StacksUsed.setStackId (used : StacksUsed prof uses) {mprId stackId : Nat}
    (owed : ⟨mprId, mp, stackId⟩ ∈ uses) : StacksUsed (prof.setStackId mp mprId stackId) uses := by
  refine used.setQueue _ (fun mpr member stacked => ?_) (fun beyond => ?_) (fun outside => ?_)
  · rcases List.mem_map.mp member with ⟨old, inQueue, rfl⟩
    by_cases isRecord : old.mprId = mprId
    · rw [if_pos isRecord]
      rw [← isRecord] at owed
      exact owed
    · rw [if_neg isRecord] at stacked ⊢
      exact used.filed mp old inQueue stacked
  · rw [used.blank mp beyond]
    rfl
  · rw [used.unlisted mp outside]
    rfl

omit [DecidableEq Thread] in
/-- A set that is created is new and empty, and the older ones are as they were. -/
theorem created_members (heap : StackHeap) (ok : Bool) (top : 0 < heap.stsetTop) :
    (mprofileCreateStset heap ok).2 < (mprofileCreateStset heap ok).1.stsetTop ∧
      heap.stsetTop ≤ (mprofileCreateStset heap ok).1.stsetTop ∧
      ((mprofileCreateStset heap ok).2 ≠ 0 -> (mprofileCreateStset heap ok).2 = heap.stsetTop ∧
        (mprofileCreateStset heap ok).1.members heap.stsetTop = []) ∧
      forall s, s < heap.stsetTop -> (mprofileCreateStset heap ok).1.members s =
        heap.members s := by
  cases ok with
  | false => exact ⟨top, Nat.le_refl _, fun impossible => absurd rfl impossible, fun _ _ => rfl⟩
  | true =>
      refine ⟨Nat.lt_succ_self _, Nat.le_succ _, fun _ => ⟨rfl, ?_⟩, fun s older => ?_⟩
      · exact congrArg MprofileStset.stsetRbh
          (Function.update_self heap.stsetTop (⟨1, [], []⟩ : MprofileStset) heap.stset)
      · exact congrArg MprofileStset.stsetRbh (Function.update_of_ne (Nat.ne_of_lt older) _ _)

/-- A new profile has an empty queue, and an empty set or none. -/
theorem StacksUsed.enroll (used : StacksUsed prof uses) (ok : Bool) (startTime : Timespec) :
    StacksUsed
      { prof.setMprofile prof.mprofileTop ⟨[], (mprofileCreateStset prof.stackHeap ok).2⟩ with
        startTimeTv := startTime
        mprofileTop := prof.mprofileTop + 1
        stackHeap := (mprofileCreateStset prof.stackHeap ok).1 } uses := by
  have sets := created_members prof.stackHeap ok used.sets.sorted.stsetTop
  have mps : (mprofileCreateStset prof.stackHeap ok).1.mps = prof.stackHeap.mps := by
    cases ok <;> rfl
  have filed := used.sets.create ok
  generalize mprofileCreateStset prof.stackHeap ok = created at sets mps filed ⊢
  rcases created with ⟨heap, stset⟩
  dsimp only at sets mps filed ⊢
  have own : Function.update prof.mprofile prof.mprofileTop ⟨[], stset⟩ prof.mprofileTop =
      ⟨[], stset⟩ :=
    Function.update_self _ _ _
  have others : forall mp, mp ≠ prof.mprofileTop ->
      Function.update prof.mprofile prof.mprofileTop ⟨[], stset⟩ mp = prof.mprofile mp :=
    fun mp different => Function.update_of_ne different _ _
  -- what names a use is no new profile
  have older : forall mp, (prof.mprofile mp).mpStset ≠ 0 -> mp ≠ prof.mprofileTop := by
    rintro mp valid rfl
    rw [used.blank _ (Nat.le_refl _)] at valid
    exact valid rfl
  have idOf : forall p, heap.idOf p = prof.stackHeap.idOf p := fun p => by
    rw [StackHeap.idOf, StackHeap.idOf, mps]
  have countOf : forall p, heap.countOf p = prof.stackHeap.countOf p := fun p => by
    rw [StackHeap.countOf, StackHeap.countOf, mps]
  refine ⟨used.once, used.ids, fun mp mpr member stacked => ?_, fun use member stacked => ?_,
    fun mp p member => ?_,
    filed, fun mp => ?_, fun mp other valid same => ?_, fun mp beyond => ?_, fun mp outside => ?_⟩
  · change mpr ∈ (Function.update prof.mprofile prof.mprofileTop _ mp).mpTqhead at member
    by_cases here : mp = prof.mprofileTop
    · rw [here, own] at member
      cases member
    · rw [others mp here] at member
      exact used.filed mp mpr member stacked
  · have known := used.known use member stacked
    change (Function.update prof.mprofile prof.mprofileTop _ use.profile).mpStset ≠ 0 ∧
        Exists fun p =>
      p ∈ heap.members (Function.update prof.mprofile prof.mprofileTop _ use.profile).mpStset ∧
        heap.idOf p = use.stackId
    rw [others use.profile (older _ known.1), sets.2.2.2 _ (used.below _)]
    refine ⟨known.1, ?_⟩
    rcases known.2 with ⟨p, inSet, isId⟩
    exact ⟨p, inSet, (idOf p).trans isId⟩
  · change p ∈ heap.members (Function.update prof.mprofile prof.mprofileTop _ mp).mpStset at member
    change (usesOf uses mp (heap.idOf p)).length ≤ heap.countOf p
    rw [idOf, countOf]
    by_cases here : mp = prof.mprofileTop
    · rw [here, own] at member
      by_cases refused : stset = 0
      · rw [refused, sets.2.2.2 0 used.sets.sorted.stsetTop] at member
        have stacked : prof.stackHeap.idOf p ≠ 0 := Nat.ne_of_gt (used.sets.ids 0 p member).1
        have unused : usesOf uses mp (prof.stackHeap.idOf p) = [] := by
          rw [usesOf, List.filter_eq_nil_iff]
          intro use isUse same
          have isNew := of_decide_eq_true same
          exact older _ (used.known use isUse (isNew.2 ▸ stacked)).1 (isNew.1.trans here)
        rw [unused]
        exact Nat.zero_le _
      · have empty := sets.2.2.1 refused
        rw [empty.1, empty.2] at member
        cases member
    · rw [others mp here, sets.2.2.2 _ (used.below _)] at member
      exact used.counted mp p member
  · change (Function.update prof.mprofile prof.mprofileTop _ mp).mpStset < heap.stsetTop
    by_cases here : mp = prof.mprofileTop
    · rw [here, own]
      exact sets.1
    · rw [others mp here]
      exact Nat.lt_of_lt_of_le (used.below mp) sets.2.1
  · change (Function.update prof.mprofile prof.mprofileTop _ mp).mpStset ≠ 0 at valid
    change (Function.update prof.mprofile prof.mprofileTop _ mp).mpStset =
      (Function.update prof.mprofile prof.mprofileTop _ other).mpStset at same
    by_cases isNew : mp = prof.mprofileTop
    · by_cases isOther : other = prof.mprofileTop
      · rw [isNew, isOther]
      · rw [isNew, own] at valid same
        rw [others other isOther, (sets.2.2.1 valid).1] at same
        exact absurd (used.below other) (same ▸ Nat.lt_irrefl _)
    · rw [others mp isNew] at valid same
      by_cases isOther : other = prof.mprofileTop
      · rw [isOther, own] at same
        rw [same] at valid
        rw [(sets.2.2.1 valid).1] at same
        exact absurd (used.below mp) (same ▸ Nat.lt_irrefl _)
      · rw [others other isOther] at same
        exact used.apart mp other valid same
  · change Function.update prof.mprofile prof.mprofileTop _ mp = _
    have later : prof.mprofileTop + 1 ≤ mp := beyond
    rw [others mp (Nat.ne_of_gt later)]
    exact used.blank mp (Nat.le_of_succ_le later)
  · change (Function.update prof.mprofile prof.mprofileTop _ mp).mpTqhead = []
    by_cases here : mp = prof.mprofileTop
    · rw [here, own]
    · rw [others mp here]
      exact used.unlisted mp outside

/-- `mprofile_create` may fail, and so may the creation of its set. -/
theorem StacksUsed.create (used : StacksUsed prof uses) (answer : Answer) :
    StacksUsed (prof.mprofileCreate answer).1 uses := by
  unfold Profiler.mprofileCreate
  by_cases unstarted : prof.startTimeTv.tvSec = 0
  · rw [if_pos unstarted]
    by_cases granted : answer.createOk = true
    · rw [if_pos granted]
      exact used.enroll answer.stsetOk answer.startTime
    · rw [if_neg granted]
      exact used.congr rfl rfl rfl rfl (fun mp member => member)
  · rw [if_neg unstarted]
    by_cases granted : answer.createOk = true
    · rw [if_pos granted]
      exact used.enroll answer.stsetOk prof.startTimeTv
    · rw [if_neg granted]
      exact used

/-- A stack is added for a record that has none. -/
theorem StacksUsed.addStack (used : StacksUsed prof uses) {i : Nat} {mps : MprofileStack}
    (fresh : prof.stackHeap.freshBlock answer.copyBlock) (unmanaged : mps.mpsFlags ≠ mpsFlagManaged)
    (drawn : (1 ≤ i ∧ i ≤ prof.mprId) ∧ i ∉ uses.map StackUse.mprId)
    (few : uses.length + 2 < 2 ^ 32) :
    StacksUsed
      { prof with
        stackHeap :=
          (mprofileAddStack prof.stackHeap (prof.mprofile mp).mpStset mps answer.copyBlock).1 }
      (⟨i, mp, mprofileGetStackId
          (mprofileAddStack prof.stackHeap (prof.mprofile mp).mpStset mps answer.copyBlock).1
          (mprofileAddStack prof.stackHeap (prof.mprofile mp).mpStset mps answer.copyBlock).2⟩ ::
            uses) := by
  have added := used.sets.add (s := (prof.mprofile mp).mpStset) fresh unmanaged few
  generalize mprofileAddStack prof.stackHeap (prof.mprofile mp).mpStset mps answer.copyBlock =
    result at added ⊢
  rcases result with ⟨heap, p⟩
  dsimp only at added ⊢
  generalize mprofileGetStackId heap p = stackId at added ⊢
  rcases added with ⟨sets, adds⟩
  refine ⟨?_, fun use member => ?_, fun q mpr member stacked => ?_, fun use member stacked => ?_,
    fun q r member => ?_,
    sets, fun q => ?_, used.apart, used.blank, used.unlisted⟩
  · exact List.nodup_cons.mpr ⟨drawn.2, used.once⟩
  · rcases List.mem_cons.mp member with rfl | old
    · exact drawn.1
    · exact used.ids use old
  · exact List.mem_cons_of_mem _ (used.filed q mpr member stacked)
  · rcases List.mem_cons.mp member with rfl | old
    · exact adds.found stacked
    · have known := used.known use old stacked
      rcases known.2 with ⟨r, inSet, isId⟩
      have kept := adds.kept _ r inSet
      exact ⟨known.1, r, kept.1, kept.2.1.trans isId⟩
  · rcases adds.entered _ r member with old | ⟨isSet, isId, isOne, alone⟩
    · have kept := adds.kept _ r old
      have before := used.counted q r old
      rw [kept.2.1]
      by_cases hit : mp = q ∧ stackId = prof.stackHeap.idOf r
      · rcases hit with ⟨rfl, rfl⟩
        rw [usesOf_cons_self, adds.counted r old rfl]
        exact Nat.succ_le_succ before
      · rw [usesOf_cons_of_ne hit]
        exact Nat.le_trans before kept.2.2
    · have stacked : stackId ≠ 0 := isId ▸ Nat.ne_of_gt (sets.ids _ r member).1
      have unused : usesOf uses q stackId = [] := by
        rw [usesOf, List.filter_eq_nil_iff]
        intro use isUse same
        have isHere := of_decide_eq_true same
        rcases (used.known use isUse (isHere.2 ▸ stacked)).2 with ⟨r', inSet, sameId⟩
        rw [isHere.1, isSet] at inSet
        exact alone r' inSet (sameId.trans isHere.2)
      rw [isId, isOne, usesOf, List.filter_cons]
      change (if _ then _ :: usesOf uses q stackId else usesOf uses q stackId).length ≤ 1
      rw [unused]
      split_ifs <;> simp
  · rw [adds.stsetTop]
    exact used.below q

theorem StacksDue.addStack {last i stackId : Nat} (due : StacksDue last gs uses)
    (drawn : (gs t).drawn = some i)
    (forgets : g.drawn = none) (owes : g.owed = some (i, mp, stackId)) :
    StacksDue last (Function.update gs t g) (⟨i, mp, stackId⟩ :: uses) := by
  have others : forall u, u ≠ t -> Function.update gs t g u = gs u := fun u different =>
    Function.update_of_ne different _ _
  have own : Function.update gs t g t = g := Function.update_self _ _ _
  have drawnElsewhere : forall u j, (Function.update gs t g u).drawn = some j ->
      u ≠ t ∧ (gs u).drawn = some j := by
    intro u j isDrawn
    by_cases here : u = t
    · rw [here, own, forgets] at isDrawn
      cases isDrawn
    · rw [others u here] at isDrawn
      exact ⟨here, isDrawn⟩
  refine ⟨fun u j isDrawn => ?_, fun u v j isU isV => ?_, fun u j q id isOwed => ?_⟩
  · have elsewhere := drawnElsewhere u j isDrawn
    have before := due.drawn u j elsewhere.2
    refine ⟨before.1, fun member => ?_⟩
    rcases List.mem_cons.mp member with rfl | old
    · exact elsewhere.1 (due.drawnOnce u t j elsewhere.2 drawn)
    · exact before.2 old
  · exact due.drawnOnce u v j (drawnElsewhere u j isU).2 (drawnElsewhere v j isV).2
  · by_cases here : u = t
    · rw [here, own, owes] at isOwed
      cases isOwed
      exact List.mem_cons_self
    · rw [others u here] at isOwed
      exact List.mem_cons_of_mem _ (due.owed u j q id isOwed)

omit [DecidableEq Thread] in
/-- The records of a queue that name a stack are different uses of it. -/
theorem StacksUsed.count_le (used : StacksUsed prof uses)
    (once : ((prof.mprofile mp).mpTqhead.map MprofileRecord.mprId).Nodup) {id : Nat}
    (stacked : id ≠ 0) :
    ((prof.mprofile mp).mpTqhead.map MprofileRecord.mprStackId).count id ≤
      (usesOf uses mp id).length := by
  have filtered : ((prof.mprofile mp).mpTqhead.map MprofileRecord.mprStackId).count id =
      ((prof.mprofile mp).mpTqhead.filter (fun mpr => mpr.mprStackId == id)).length := by
    rw [List.count, List.countP_map, List.countP_eq_length_filter]
    rfl
  rw [filtered, ← List.length_map (f := MprofileRecord.mprId),
    ← List.length_map (f := StackUse.mprId)]
  refine List.Nodup.length_le_of_subset (once.sublist (List.filter_sublist.map _))
    (fun i member => ?_)
  rcases List.mem_map.mp member with ⟨mpr, isFiled, rfl⟩
  rcases List.mem_filter.mp isFiled with ⟨inQueue, named⟩
  have isId : mpr.mprStackId = id := eq_of_beq named
  have use := used.filed mp mpr inQueue (isId ▸ stacked)
  exact List.mem_map_of_mem (List.mem_filter.mpr ⟨use, decide_eq_true ⟨rfl, isId⟩⟩)

omit [DecidableEq Thread] in
/-- The sets are as `mprofile_save` needs them. -/
theorem StacksUsed.setsReady (used : StacksUsed prof uses) (few : uses.length < 2 ^ 32)
    (profiles : prof.profiles.Nodup) (once : (prof.records.map MprofileRecord.mprId).Nodup) :
    SetsReady prof where
  inOrder := used.sets.trees
  indexed := fun s p member => (used.sets.same s p).mp member
  small :=
    fun s p member => Nat.lt_of_le_of_lt (used.sets.counts s p ((used.sets.same s p).mp member)) few
  once := profiles
  apart := used.apart
  held := by
    intro mp id member stacked
    rcases List.mem_map.mp member with ⟨mpr, inQueue, isId⟩
    have known := used.known _ (used.filed mp mpr inQueue (isId ▸ stacked)) (isId ▸ stacked)
    refine ⟨known.1, ?_⟩
    rcases known.2 with ⟨p, inSet, sameId⟩
    have ofStack : prof.stackHeap.idOf p = id := sameId.trans isId
    refine ⟨p, (used.sets.same _ p).mpr inSet, ofStack, ?_⟩
    have listed : mp ∈ prof.profiles := by
      by_contra outside
      rw [used.unlisted mp outside] at inQueue
      cases inQueue
    have own : ((prof.mprofile mp).mpTqhead.map MprofileRecord.mprId).Nodup := by
      refine once.sublist (List.Sublist.map _ ?_)
      rw [records_eq, List.flatMap_def]
      exact List.sublist_flatten_of_mem (List.mem_map_of_mem listed)
    have counted := used.counted mp p inSet
    rw [ofStack] at counted
    exact Nat.le_trans (used.count_le own stacked) counted

end Uses

/-! ## The operations -/

/-- The invariant of the tracing hooks: the queues, and the uses of the stacks as long as no
counter of 32 bits wraps. -/
structure StacksKept {Thread : Type} (w : World) (gs : Thread -> Filing × Naming) : Prop where
  list : ProfileList w.prof (fun t => (gs t).1)
  queues : Exists fun drawn => Queues w.prof (fun t => (gs t).1) drawn
  numbered : Numbered w
  uses : w.prof.mprId + 1 < 2 ^ 32 -> Exists fun uses =>
    StacksUsed w.prof uses ∧ StacksDue w.prof.mprId (fun t => (gs t).2) uses

/-- A call keeps to its queue, and to the ids of its stacks. -/
def stacking (k : Call) : Protocol hookMachine (Filing × Naming) := queueing.prod (naming False k)

def stackingEnds (k : Call) (g : Filing × Naming) (rv : UInt64) : Prop :=
  queueEnds g.1 ∧ namingEnds False k g.2 rv

section Operations

variable {Thread : Type} [DecidableEq Thread] {w w' : World} {t : Thread} {answer : Answer}
  {k : Call}
  {o : HookOp} {r : o.Res}

/-- Every operation keeps count of the uses of the stacks. -/
theorem stacksUsed_op {gs : Thread -> Naming} {uses : List StackUse}
    (may : (naming False k).may (gs t) o)
    (listed : forall mp mpr, o = .insertTail mp mpr ->
      mp ∈ w.prof.profiles ∧ mp < w.prof.mprofileTop)
    (few : w.prof.mprId + 1 < 2 ^ 32) (executed : o.exec answer w = .ok (w', r))
    (used : StacksUsed w.prof uses)
    (due : StacksDue w.prof.mprId gs uses) : Exists fun uses' => StacksUsed w'.prof uses' ∧
      StacksDue w'.prof.mprId (Function.update gs t ((naming False k).after (gs t) o r)) uses' := by
  -- what is left of an operation that concerns no stack
  have quiet : w'.prof = w.prof -> ((naming False k).after (gs t) o r).drawn = (gs t).drawn ->
      ((naming False k).after (gs t) o r).owed = (gs t).owed ->
        Exists fun uses' => StacksUsed w'.prof uses' ∧
        StacksDue w'.prof.mprId (Function.update gs t ((naming False k).after (gs t) o r))
            uses' := by
    intro same drawn owed
    rw [same]
    exact ⟨uses, used,
      due.change (Nat.le_refl _) (fun i isDrawn => drawn ▸ isDrawn) (fun x isOwed => owed ▸ isOwed)⟩
  cases o with
  | libcMalloc size => exact quiet (prof_of_blocks executed id) rfl rfl
  | libcRealloc p size => exact quiet (prof_of_blocks executed id) rfl rfl
  | libcFree p => exact quiet (prof_of_blocks executed id) rfl rfl
  | loadMemhdr p => exact quiet (prof_of_blocks executed id) rfl rfl
  | storeMemhdr p hdr => exact quiet (prof_of_blocks executed id) rfl rfl
  | abort => exact Empty.elim r
  | mprofileCreate =>
      cases executed
      refine ⟨uses, used.create answer,
        due.change ?_ (fun i isDrawn => isDrawn) (fun x isOwed => isOwed)⟩
      rw [(mprofileCreate_cases w.prof answer).1.2.2]
  | mprofileAdd mp =>
      rw [HookOp.exec] at executed
      split_ifs at executed
      cases executed
      exact ⟨uses, used.congr rfl rfl rfl rfl (fun mp member => List.mem_append_left _ member),
        due.change (Nat.le_refl _) (fun i isDrawn => isDrawn) (fun x isOwed => isOwed)⟩
  | setSpecific tid mp =>
      cases executed
      exact ⟨uses, used.congr rfl rfl rfl rfl (fun mp member => member),
        due.change (Nat.le_refl _) (fun i isDrawn => isDrawn) (fun x isOwed => isOwed)⟩
  | drawId mpr =>
      cases executed
      exact ⟨uses, used.draw, due.draw used rfl rfl⟩
  | insertTail mp mpr =>
      rw [HookOp.exec, if_neg may.1] at executed
      cases executed
      have own := listed mp mpr rfl
      exact ⟨uses, used.insertTail own.1 own.2 may.2,
        due.change (Nat.le_refl _) (fun i isDrawn => isDrawn) (fun x isOwed => isOwed)⟩
  | addStack mp mps =>
      rw [HookOp.exec] at executed
      split_ifs at executed with fresh
      cases executed
      rcases Option.ne_none_iff_exists'.mp may.1 with ⟨i, drawn⟩
      have room := used.length_lt due drawn
      refine ⟨_, used.addStack (i := i) fresh may.2.2 (due.drawn t i drawn) (by omega),
        due.addStack drawn rfl ?_⟩
      change (gs t).drawn.map _ = _
      rw [drawn]
      rfl
  | setStackId mp mprId stackId =>
      cases executed
      refine ⟨uses, used.setStackId (due.owed t mprId mp stackId may), ?_⟩
      exact due.change (Nat.le_refl _) (fun i isDrawn => isDrawn)
        (fun x impossible => by cases impossible)
  | _ => cases executed; exact quiet rfl rfl rfl

/-- Ids are only ever drawn. -/
theorem mprId_le (executed : o.exec answer w = .ok (w', r)) : w.prof.mprId ≤ w'.prof.mprId := by
  by_cases blocks : Blockless o
  · cases o with
    | mprofileCreate =>
        cases executed
        rw [(mprofileCreate_cases w.prof answer).1.2.2]
    | drawId mpr =>
        cases executed
        exact Nat.le_succ _
    | abort => exact Empty.elim r
    | mprofileAdd mp =>
        rw [HookOp.exec] at executed
        split_ifs at executed
        cases executed
        exact Nat.le_refl _
    | insertTail mp mpr =>
        rw [HookOp.exec] at executed
        split_ifs at executed
        cases executed
        exact Nat.le_refl _
    | addStack mp mps =>
        rw [HookOp.exec] at executed
        split_ifs at executed
        cases executed
        exact Nat.le_refl _
    | libcMalloc size => exact blocks.elim
    | libcRealloc p size => exact blocks.elim
    | libcFree p => exact blocks.elim
    | loadMemhdr p => exact blocks.elim
    | storeMemhdr p hdr => exact blocks.elim
    | _ => cases executed; exact Nat.le_refl _
  · rw [prof_of_blocks executed blocks]

theorem stacksKept_op {gs : Thread -> Filing × Naming} (kept : StacksKept w gs) :
    (stacking k).OpSoundAt StacksKept answer t o w gs := by
  rintro w' r ⟨mayQueue, mayName⟩ executed
  change o.exec answer w = .ok (w', r) at executed
  rcases kept.queues with ⟨drawn, queues⟩
  have queued :=
    queues_op (fun u => (gs u).1) mayQueue (Filing.SameQueue.refl _) executed kept.list queues
  have registered : queueing.fits (gs t).1 o r := by
    cases o with
    | mprofileAdd mp =>
        rw [HookOp.exec] at executed
        split_ifs at executed with null
        exact null
    | _ => trivial
  refine ⟨⟨registered, naming_fits kept.numbered False.elim executed _⟩, ?_, ?_,
    kept.numbered.exec executed,
    fun few => ?_⟩
  · rw [Protocol.update_fst]
    exact queued.1
  · rw [Protocol.update_fst]
    exact ⟨_, queued.2⟩
  · have fewBefore := Nat.lt_of_le_of_lt (Nat.succ_le_succ (mprId_le executed)) few
    rcases kept.uses fewBefore with ⟨uses, used, due⟩
    rw [Protocol.update_snd]
    refine stacksUsed_op mayName ?_ fewBefore executed used due
    rintro mp mpr rfl
    have own : mp = (gs t).1.profile := mayQueue.2
    have listed := kept.list.found t (own ▸ mayName.1)
    rw [← own] at listed
    exact ⟨listed, kept.list.below mp listed⟩

/-- A thread takes up or gives up a call. -/
theorem StacksKept.rest {gs : Thread -> Filing × Naming} (kept : StacksKept w gs)
    (due : (gs t).1.due = none) :
    StacksKept w (Function.update gs t (.idle, .idle)) := by
  rcases kept.queues with ⟨drawn, queues⟩
  refine ⟨?_, ⟨drawn, ?_⟩, kept.numbered, fun few => ?_⟩
  · rw [Protocol.update_fst]
    exact kept.list.change t .idle kept.list.nodup kept.list.below (fun mp member => member)
      (fun u _ isU => kept.list.created u isU) (fun isCreated => absurd rfl isCreated)
      (fun isProfile => absurd rfl isProfile) kept.list.specific
  · rw [Protocol.update_fst]
    exact queues.congr rfl rfl due.symm
  · rcases kept.uses few with ⟨uses, used, stacksDue⟩
    rw [Protocol.update_snd]
    exact ⟨uses, used, stacksDue.change (Nat.le_refl _) (fun i impossible => by cases impossible)
      (fun x impossible => by cases impossible)⟩

end Operations

/-! ## Runs -/

section Runs

variable {Thread : Type} [DecidableEq Thread] {C : Client Thread Call UInt64} {family : Family}
  {tid : Thread -> Nat}
  {pool pool' : Pool hookMachine C} {l : PoolLabel Thread Call Answer}

variable (C tid) in
theorem stacksKept_discipline (traced : family ≠ .stats) :
    Pool.Discipline (M := hookMachine)
    (C := C) (fun _ => True) (fun t k => hook family (tid t) k) stacking
      stackingEnds (.idle, .idle) (fun _ => StacksKept) where
  silentSound := fun _ _ _ _ _ _ _ _ _ kept => stacksKept_op kept
  bodySound := fun _ _ _ _ _ _ _ impossible => impossible.2.elim
  leaveSound := fun _ _ _ _ _ _ _ impossible => impossible.2.elim
  start := fun k _ _ _ gs t _ kept idle =>
    ⟨(.idle, .idle), kept.rest (by rw [idle]; rfl),
      (queueing_hook traced (tid t) k).prod (naming_hook traced (tid t) k)⟩
  finish := fun _ _ _ _ _ _ kept ends => kept.rest ends.1.1

/-- The queues and the stack sets are kept by all threads. -/
def StacksShared (pool : Pool hookMachine C) : Prop :=
  Exists fun gs => Pool.Holds stacking stackingEnds (.idle, .idle) (fun _ => StacksKept) pool gs

omit [DecidableEq Thread] in
theorem stacksShared_init (client : C.State) :
    StacksShared (C := C) ⟨World.init, client, fun _ => none⟩ := by
  refine ⟨fun _ => (.idle, .idle),
    ⟨profileList_init, ⟨[], queues_init⟩, Nat.one_pos, fun _ => ⟨[], ?_⟩⟩,
    fun _ => rfl⟩
  exact ⟨stacksUsed_empty, fun t i impossible => (by cases impossible),
    fun t u i impossible => (by cases impossible),
      fun t i mp id impossible => (by cases impossible)⟩

theorem StacksShared.next (traced : family ≠ .stats) (shared : StacksShared pool)
    (stepped : pool.next (fun t k => hook family (tid t) k) l = .ok pool') :
    StacksShared pool' := by
  rcases shared with ⟨gs, holds⟩
  refine Pool.next_sound (stacksKept_discipline C tid traced) holds trivial ?_ stepped
  cases l with
  | call t k answer => trivial
  | step t answer => exact fun k program o busy here => stacksKept_op holds.invariant

/-- The queues and the stack sets are kept in every run. -/
theorem stacksShared_exec (traced : family ≠ .stats) (tid : Thread -> Nat) (client : C.State)
    (labels : List (PoolLabel Thread Call Answer))
    (executed : exec (Pool.next (fun t k => hook family (tid t) k))
      ⟨World.init, client, fun _ => none⟩ labels = .ok pool) : StacksShared pool :=
  exec_invariant_all StacksShared (fun _ _ _ shared stepped => shared.next traced stepped)
    (stacksShared_init client) executed

/-- They are kept next to any history of the run. -/
theorem stacksShared_withHistory {History : Type}
    {note : History -> Pool hookMachine C -> PoolLabel Thread Call Answer -> Pool hookMachine C ->
      History}
    {history : History} {client : C.State} {labels : List (PoolLabel Thread Call Answer)}
    {both : Pool hookMachine C × History} (traced : family ≠ .stats)
    (executed : exec (withHistory (Pool.next (fun t k => hook family (tid t) k)) note)
      (⟨World.init, client, fun _ => none⟩, history) labels = .ok both) : StacksShared both.1 := by
  refine exec_invariant_all (fun both : Pool hookMachine C × History => StacksShared both.1)
    (fun both l both' shared stepped => ?_) (stacksShared_init client) executed
  exact shared.next traced (withHistory_ok stepped).1

end Runs

end Mprofile
end OsslScripts
