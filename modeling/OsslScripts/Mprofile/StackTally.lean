import OsslScripts.Foundation.Tally
import OsslScripts.Mprofile.StackSets

namespace OsslScripts
namespace Mprofile

open Foundation

/-!
# Stack sets as tallies

A set counts the uses of the frame sequences that it knows.  A merge takes one
use out of the tally of the source and puts it into the tally of the
destination, in the way of `Tally.taken`.

The id tree of the destination has no part in this.  It may miss a stack, which
happens when two stacks of the destination have one id.
-/

/-- The content trees are in order, and each copy hangs in one of them at most. -/
structure StsetsApart (heap : StackHeap) : Prop where
  content : forall s, OrderedTree.Sorted heap.key (heap.stset s).stsetRbh
  top : 0 < heap.mpsTop
  allocated : forall s p, p ∈ heap.members s -> 0 < p ∧ p < heap.mpsTop
  apart : forall s t p, p ∈ heap.members s -> p ∈ heap.members t -> s = t
  nonempty : forall s p, p ∈ heap.members s -> 0 < (heap.mps p).mpsStackDepth
  managed : forall s p, p ∈ heap.members s -> (heap.mps p).mpsFlags = mpsFlagManaged

/-- The tally of a set. -/
def Tallies (heap : StackHeap) (s : Nat) (tally : Tally (List UInt64)) : Prop :=
  forall frames count, tally frames = some count ↔
    Exists fun p => p ∈ heap.members s ∧ (heap.mps p).frames = frames ∧ heap.countOf p = count

/-- The ids of the stacks are a function of their frames. -/
def Named (heap : StackHeap) (s : Nat) (number : List UInt64 -> Nat) : Prop :=
  forall p, p ∈ heap.members s -> heap.idOf p = number (heap.mps p).frames

/-- Neither the set nor one of its stacks changes. -/
structure SameSet (heap heap' : StackHeap) (s : Nat) : Prop where
  stset : heap'.stset s = heap.stset s
  mps : forall p, p ∈ heap.members s -> heap'.mps p = heap.mps p

/-- The stacks of the set stay there, with their ids and their frames. -/
def Keeps (heap heap' : StackHeap) (s : Nat) : Prop :=
  forall p, p ∈ heap.members s -> p ∈ heap'.members s ∧ heap'.idOf p = heap.idOf p ∧
    (heap'.mps p).frames = (heap.mps p).frames

section Sets

variable {heap heap' : StackHeap} {s t p q next count : Nat} {tally : Tally (List UInt64)}
  {number : List UInt64 -> Nat} {mps : MprofileStack} {frames : List UInt64}

theorem SameSet.members (same : SameSet heap heap' s) : heap'.members s = heap.members s := by
  rw [StackHeap.members, StackHeap.members, same.stset]

theorem SameSet.trans {heap'' : StackHeap} (first : SameSet heap heap' s)
    (second : SameSet heap' heap'' s) :
    SameSet heap heap'' s :=
  ⟨second.stset.trans first.stset, fun p member =>
    (second.mps p (by rw [first.members]; exact member)).trans (first.mps p member)⟩

theorem SameSet.tallies (same : SameSet heap heap' s) (tallies : Tallies heap s tally) :
    Tallies heap' s tally := by
  intro frames count
  rw [tallies frames count, same.members]
  constructor
  · rintro ⟨p, member, parts⟩
    refine ⟨p, member, ?_⟩
    rw [StackHeap.countOf, same.mps p member]
    exact parts
  · rintro ⟨p, member, parts⟩
    refine ⟨p, member, ?_⟩
    rw [StackHeap.countOf, same.mps p member] at parts
    exact parts

theorem SameSet.named (same : SameSet heap heap' s) (named : Named heap s number) :
    Named heap' s number := by
  intro p member
  rw [same.members] at member
  rw [StackHeap.idOf, same.mps p member]
  exact named p member

theorem SameSet.wf (same : SameSet heap heap' s) (wf : StsetWf heap s) : StsetWf heap' s :=
  wf.agree same.stset (fun p member => by
    rw [StackHeap.key, StackHeap.idOf, same.mps p member]
    exact ⟨rfl, rfl⟩)

theorem SameSet.keeps (same : SameSet heap heap' s) : Keeps heap heap' s := by
  intro p member
  rw [same.members, StackHeap.idOf, same.mps p member]
  exact ⟨member, rfl, rfl⟩

theorem Keeps.trans {heap'' : StackHeap} (first : Keeps heap heap' s)
    (second : Keeps heap' heap'' s) :
    Keeps heap heap'' s := by
  intro p member
  have once := first p member
  have twice := second p once.1
  exact ⟨twice.1, twice.2.1.trans once.2.1, twice.2.2.trans once.2.2⟩

/-- Stacks of one set with the same frames are the same stack. -/
theorem StsetsApart.frames_injective (inv : StsetsApart heap) (inP : p ∈ heap.members s)
    (inQ : q ∈ heap.members s) (same : (heap.mps q).frames = (heap.mps p).frames) : q = p :=
  (inv.content s).injective inQ inP ((stackKey_eq_iff (inv.nonempty s q inQ) _).mpr same)

/-- A tally tells the count of each stack. -/
theorem Tallies.apply (tallies : Tallies heap s tally) (member : p ∈ heap.members s) :
    tally (heap.mps p).frames = some (heap.countOf p) :=
  (tallies _ _).mpr ⟨p, member, rfl, rfl⟩

theorem Tallies.none_iff (tallies : Tallies heap s tally) :
    tally frames = none ↔ forall p, p ∈ heap.members s -> (heap.mps p).frames ≠ frames := by
  constructor
  · intro unknown p member same
    have known := tallies.apply member
    rw [same, unknown] at known
    cases known
  · intro absent
    cases known : tally frames with
    | none => rfl
    | some count =>
        rcases (tallies frames count).mp known with ⟨p, member, same, -⟩
        exact absurd same (absent p member)

/-! ## One stack of a set changes -/

/-- Of the set, only `p` may change, which is its only stack with these frames. -/
structure Recounts (heap heap' : StackHeap) (s p : Nat) (frames : List UInt64)
    (count : Option Nat) :
    Prop where
  others : forall q, q ≠ p -> (q ∈ heap'.members s ↔ q ∈ heap.members s)
  same : forall q, q ∈ heap.members s -> q ≠ p -> heap'.mps q = heap.mps q
  only : forall q, q ∈ heap.members s -> ((heap.mps q).frames = frames ↔ q = p)
  own : match count with
    | none => p ∉ heap'.members s
    | some count => p ∈ heap'.members s ∧ (heap'.mps p).frames = frames ∧ heap'.countOf p = count
  sameId : p ∈ heap.members s -> p ∈ heap'.members s -> heap'.idOf p = heap.idOf p

theorem Recounts.tallies {result : Option Nat} (recounts : Recounts heap heap' s p frames result)
    (tallies : Tallies heap s tally) : Tallies heap' s (tally.set frames result) := by
  have kept : forall q, q ∈ heap.members s -> q ≠ p ->
      (heap'.mps q).frames = (heap.mps q).frames ∧ heap'.countOf q = heap.countOf q := by
    intro q member different
    rw [StackHeap.countOf, recounts.same q member different]
    exact ⟨rfl, rfl⟩
  intro other count
  by_cases same : other = frames
  · subst same
    rw [Tally.set_self]
    constructor
    · rintro rfl
      exact ⟨p, recounts.own⟩
    · rintro ⟨q, member, isFrames, isCount⟩
      have isP : q = p := by
        by_contra different
        have before := (recounts.others q different).mp member
        rw [(kept q before different).1] at isFrames
        exact different ((recounts.only q before).mp isFrames)
      subst isP
      have own := recounts.own
      cases result with
      | none => exact absurd member own
      | some after => rw [← isCount, own.2.2]
  · rw [Tally.set_of_ne _ _ same, tallies other count]
    constructor
    · rintro ⟨q, member, isFrames, isCount⟩
      have different : q ≠ p := by
        intro isP
        exact same (isFrames.symm.trans ((recounts.only q member).mpr isP))
      refine ⟨q, (recounts.others q different).mpr member, ?_, ?_⟩
      · rw [(kept q member different).1, isFrames]
      · rw [(kept q member different).2, isCount]
    · rintro ⟨q, member, isFrames, isCount⟩
      have different : q ≠ p := by
        rintro rfl
        have own := recounts.own
        cases result with
        | none => exact own member
        | some after => exact same (isFrames.symm.trans own.2.1)
      have before := (recounts.others q different).mp member
      rw [(kept q before different).1] at isFrames
      rw [(kept q before different).2] at isCount
      exact ⟨q, before, isFrames, isCount⟩

theorem Recounts.keeps {after : Nat} (recounts : Recounts heap heap' s p frames (some after)) :
    Keeps heap heap' s := by
  intro q member
  by_cases isP : q = p
  · subst isP
    exact ⟨recounts.own.1, recounts.sameId member recounts.own.1,
      recounts.own.2.1.trans ((recounts.only q member).mpr rfl).symm⟩
  · rw [StackHeap.idOf, recounts.same q member isP]
    exact ⟨(recounts.others q isP).mpr member, rfl, rfl⟩

/-- The numbers of the other frames must not change. -/
theorem Recounts.named {result : Option Nat} (recounts : Recounts heap heap' s p frames result)
    (named : Named heap s number) {number' : List UInt64 -> Nat}
    (agree : forall q, q ∈ heap.members s -> q ≠ p ->
      number' (heap.mps q).frames = number (heap.mps q).frames)
    (own : p ∈ heap'.members s -> heap'.idOf p = number' (heap'.mps p).frames) :
    Named heap' s number' := by
  intro q member
  by_cases isP : q = p
  · subst isP
    exact own member
  · have before := (recounts.others q isP).mp member
    rw [StackHeap.idOf, recounts.same q before isP, agree q before isP]
    exact named q before

theorem SameSet.recounts {middle : StackHeap} {result : Option Nat} (same : SameSet heap middle s)
    (recounts : Recounts middle heap' s p frames result) :
    Recounts heap heap' s p frames result := by
  have members := same.members
  refine ⟨fun q different => ?_, fun q member different => ?_, fun q member => ?_, recounts.own,
    fun member still => ?_⟩
  · rw [recounts.others q different, members]
  · rw [recounts.same q (by rw [members]; exact member) different, same.mps q member]
  · rw [← recounts.only q (by rw [members]; exact member), same.mps q member]
  · rw [recounts.sameId (by rw [members]; exact member) still, StackHeap.idOf, same.mps p member]
    rfl

theorem Recounts.sameSet {middle : StackHeap} {result : Option Nat}
    (recounts : Recounts heap middle s p frames result) (same : SameSet middle heap' s) :
    Recounts heap heap' s p frames result := by
  have members := same.members
  refine ⟨fun q different => ?_, fun q member different => ?_, recounts.only, ?_,
    fun member still => ?_⟩
  · rw [members, recounts.others q different]
  · rw [same.mps q ((recounts.others q different).mpr member), recounts.same q member different]
  · have own := recounts.own
    cases result with
    | none =>
        rw [members]
        exact own
    | some after =>
        rw [members, StackHeap.countOf, same.mps p own.1]
        exact own
  · rw [members] at still
    rw [StackHeap.idOf, same.mps p still]
    exact recounts.sameId member still

end Sets

/-- A step that changes one stack of one set. -/
structure Touches (heap heap' : StackHeap) (s p : Nat) (frames : List UInt64) (count : Option Nat) :
    Prop where
  recounts : Recounts heap heap' s p frames count
  elsewhere : forall t, t ≠ s -> SameSet heap heap' t
  inv : StsetsApart heap'

section Steps

variable {heap heap' : StackHeap} {s t p next count : Nat} {number : List UInt64 -> Nat}
  {mps : MprofileStack}

theorem StsetsApart.agree (inv : StsetsApart heap) (sameSets : heap'.stset = heap.stset)
    (top : heap.mpsTop ≤ heap'.mpsTop)
    (agree : forall s p, p ∈ heap.members s ->
      heap'.key p = heap.key p ∧ (heap'.mps p).mpsFlags = (heap.mps p).mpsFlags) :
      StsetsApart heap' := by
  have members : forall s, heap'.members s = heap.members s := fun s => by
    rw [StackHeap.members, StackHeap.members, sameSets]
  refine ⟨fun s => ?_, Nat.lt_of_lt_of_le inv.top top, fun s p member => ?_,
    fun s t p inS inT => ?_,
    fun s p member => ?_, fun s p member => ?_⟩
  · rw [sameSets]
    refine (inv.content s).imp_of_mem (fun {a b} memberA memberB less => ?_)
    rw [(agree s a memberA).1, (agree s b memberB).1]
    exact less
  · rw [members] at member
    have old := inv.allocated s p member
    exact ⟨old.1, Nat.lt_of_lt_of_le old.2 top⟩
  · rw [members] at inS inT
    exact inv.apart s t p inS inT
  · rw [members] at member
    rw [depth_eq_of_stackKey_eq (agree s p member).1]
    exact inv.nonempty s p member
  · rw [members] at member
    rw [(agree s p member).2]
    exact inv.managed s p member

theorem StsetsApart.top_outside (inv : StsetsApart heap) (s : Nat) : heap.mpsTop ∉ heap.members s :=
  fun member => Nat.lt_irrefl _ (inv.allocated s _ member).2

/-- Changing an object that hangs in no set. -/
theorem StsetsApart.setMps (inv : StsetsApart heap) (mps : MprofileStack)
    (outside : forall s, p ∉ heap.members s) :
    StsetsApart (heap.setMps p mps) ∧ forall s, SameSet heap (heap.setMps p mps) s := by
  have others : forall s q, q ∈ heap.members s -> (heap.setMps p mps).mps q = heap.mps q := by
    intro s q member
    have different : q ≠ p := fun same => outside s (same ▸ member)
    rw [StackHeap.setMps_mps, Function.update_of_ne different]
  refine ⟨inv.agree rfl (Nat.le_refl _) (fun s q member => ?_), fun s => ⟨rfl, others s⟩⟩
  rw [StackHeap.key, others s q member]
  exact ⟨rfl, rfl⟩

theorem StsetsApart.alloc (inv : StsetsApart heap) (mps : MprofileStack) :
    StsetsApart (heap.alloc mps) ∧ forall s, SameSet heap (heap.alloc mps) s := by
  have changed := inv.setMps mps inv.top_outside
  refine ⟨changed.1.agree rfl (Nat.le_succ _) (fun _ _ _ => ⟨rfl, rfl⟩), fun s => ?_⟩
  exact (changed.2 s).trans ⟨rfl, fun _ _ => rfl⟩

/-- Counting a stack anew. -/
theorem StsetsApart.recount (inv : StsetsApart heap) (member : p ∈ heap.members s) (count : Nat) :
    Touches heap (heap.setMps p { heap.mps p with mpsCount := count }) s p (heap.mps p).frames
      (some count) := by
  have agree := fun q => recount_agree heap p q count
  have others : forall q, q ≠ p ->
      (heap.setMps p { heap.mps p with mpsCount := count }).mps q = heap.mps q :=
    fun q different => Function.update_of_ne different _ _
  refine ⟨⟨fun q _ => Iff.rfl, fun q _ different => others q different, fun q inS => ?_,
    ⟨member, frames_eq_of_stackKey_eq (agree p).1, countOf_setMps_self heap p count⟩,
    fun _ _ => (agree p).2⟩, fun t different => ⟨rfl, fun q inT => others q ?_⟩, ?_⟩
  · exact ⟨fun same => inv.frames_injective member inS same, fun same => by rw [same]⟩
  · rintro rfl
    exact different (inv.apart t s q inT member)
  · refine inv.agree rfl (Nat.le_refl _) (fun t q _ => ⟨(agree q).1, ?_⟩)
    by_cases same : q = p
    · subst same
      rw [StackHeap.setMps_mps, Function.update_self]
    · rw [others q same]

theorem mem_unlink (inv : StsetsApart heap) (s p q : Nat) :
    q ∈ (unlinkStack heap s p).members s ↔ q ≠ p ∧ q ∈ heap.members s := by
  rw [StackHeap.members, unlinkStack, StackHeap.setStset_stset, Function.update_self]
  exact (inv.content s).nodup.mem_erase_iff

/-- Taking a stack out of its set. -/
theorem StsetsApart.unlink (inv : StsetsApart heap) (member : p ∈ heap.members s) :
    Touches heap (unlinkStack heap s p) s p (heap.mps p).frames none := by
  have here := mem_unlink inv s p
  have elsewhere : forall t, t ≠ s -> SameSet heap (unlinkStack heap s p) t :=
    fun t different => ⟨Function.update_of_ne different _ _, fun _ _ => rfl⟩
  have shrinks : forall t q, q ∈ (unlinkStack heap s p).members t -> q ∈ heap.members t := by
    intro t q inT
    by_cases same : t = s
    · subst same
      exact ((here q).mp inT).2
    · rwa [(elsewhere t same).members] at inT
  refine ⟨⟨fun q different => ?_, fun q _ _ => rfl, fun q inS => ?_,
    fun still => ((here p).mp still).1 rfl,
    fun _ _ => rfl⟩, elsewhere,
      ⟨fun t => ?_, inv.top, fun t q inT => inv.allocated t q (shrinks t q inT),
      fun t u q inT inU => inv.apart t u q (shrinks t q inT) (shrinks u q inU),
      fun t q inT => inv.nonempty t q (shrinks t q inT),
        fun t q inT => inv.managed t q (shrinks t q inT)⟩⟩
  · rw [here]
    exact ⟨fun parts => parts.2, fun inS => ⟨different, inS⟩⟩
  · exact ⟨fun same => inv.frames_injective member inS same, fun same => by rw [same]⟩
  · by_cases same : t = s
    · subst same
      rw [unlinkStack, StackHeap.setStset_stset, Function.update_self]
      exact (inv.content t).erase p
    · rw [(elsewhere t same).stset]
      exact inv.content t

/-- Hanging a copy into a set that does not know its content. -/
theorem StsetsApart.hang (inv : StsetsApart heap) (outside : forall t, p ∉ heap.members t)
    (allocated : 0 < p ∧ p < heap.mpsTop) (nonempty : 0 < (heap.mps p).mpsStackDepth)
    (managed : (heap.mps p).mpsFlags = mpsFlagManaged)
    (absent : forall q, q ∈ heap.members s -> heap.key q ≠ heap.key p) (next : Nat) :
    Touches heap (hangStack heap s p next) s p (heap.mps p).frames (some (heap.countOf p)) := by
  have inserted := OrderedTree.insert_fresh (fun q _ => contentOrder_keyed heap p q) absent
  have here := mem_hang absent next
  have elsewhere : forall t, t ≠ s -> SameSet heap (hangStack heap s p next) t :=
    fun t different => ⟨Function.update_of_ne different _ _, fun _ _ => rfl⟩
  have origin : forall t q, q ∈ (hangStack heap s p next).members t -> (q = p ∧ t = s) ∨
      q ∈ heap.members t := by
    intro t q inT
    by_cases same : t = s
    · subst same
      exact ((here q).mp inT).imp (fun isP => ⟨isP, rfl⟩) id
    · rw [(elsewhere t same).members] at inT
      exact Or.inr inT
  refine ⟨⟨fun q different => ?_, fun q _ _ => rfl, fun q inS => ?_,
    ⟨(here p).mpr (Or.inl rfl), rfl, rfl⟩,
    fun _ _ => rfl⟩, elsewhere,
      ⟨fun t => ?_, inv.top, fun t q inT => ?_, fun t u q inT inU => ?_, fun t q inT => ?_,
      fun t q inT => ?_⟩⟩
  · rw [here]
    exact ⟨fun either => either.resolve_left different, Or.inr⟩
  · constructor
    · intro same
      exact absurd ((stackKey_eq_iff (inv.nonempty s q inS) _).mpr same) (absent q inS)
    · rintro rfl
      exact absurd inS (outside s)
  · by_cases same : t = s
    · subst same
      rw [hangStack, StackHeap.setStset_stset, Function.update_self]
      exact inserted.2.2 (inv.content t)
    · rw [(elsewhere t same).stset]
      exact inv.content t
  · rcases origin t q inT with ⟨rfl, -⟩ | old
    · exact allocated
    · exact inv.allocated t q old
  · rcases origin t q inT with ⟨isP, atT⟩ | oldT
    · rcases origin u q inU with ⟨-, atU⟩ | oldU
      · rw [atT, atU]
      · exact absurd (isP ▸ oldU) (outside u)
    · rcases origin u q inU with ⟨isP, -⟩ | oldU
      · exact absurd (isP ▸ oldT) (outside t)
      · exact inv.apart t u q oldT oldU
  · rcases origin t q inT with ⟨rfl, -⟩ | old
    · exact nonempty
    · exact inv.nonempty t q old
  · rcases origin t q inT with ⟨rfl, -⟩ | old
    · exact managed
    · exact inv.managed t q old

/-- A copy under the next id, where its content is new. -/
theorem StsetsApart.hangCopy (inv : StsetsApart heap) {mps copy : MprofileStack}
    {block : Option (Int -> UInt64)} (copied : mprofileCopyStack mps block = some copy)
    (nonempty : 0 < mps.mpsStackDepth)
    (absent : forall q, q ∈ heap.members s -> heap.key q ≠ stackKey mps)
    (next : Nat) :
    Touches heap (hangStack (newStack heap s copy) s heap.mpsTop next) s heap.mpsTop mps.frames
      (some copy.mpsCount) := by
  have created := inv.alloc { copy with mpsId := (heap.stset s).stsetId }
  have own := newStack_self heap s copy
  have sameFrames := frames_mprofileCopyStack copied
  have key : (newStack heap s copy).key heap.mpsTop = stackKey mps := by
    rw [StackHeap.key, own, stackKey_eq_iff (sameFrames.1.symm ▸ nonempty)]
    exact sameFrames.2
  have frames : ((newStack heap s copy).mps heap.mpsTop).frames = mps.frames := by
    rw [own]
    exact sameFrames.2
  have count : (newStack heap s copy).countOf heap.mpsTop = copy.mpsCount := by
    rw [StackHeap.countOf, own]
  have managed : copy.mpsFlags = mpsFlagManaged := by
    cases block with
    | none => cases copied
    | some words => cases copied; rfl
  have hung := created.1.hang (s := s) (p := heap.mpsTop) inv.top_outside
    ⟨inv.top, Nat.lt_succ_self _⟩ (by
      change 0 < ((newStack heap s copy).mps heap.mpsTop).mpsStackDepth
      rw [own]
      exact sameFrames.1.symm ▸ nonempty) (by
      change ((newStack heap s copy).mps heap.mpsTop).mpsFlags = mpsFlagManaged
      rw [own]
      exact managed) (fun q member => by
      have older := (created.2 s).mps q member
      change (newStack heap s copy).key q ≠ (newStack heap s copy).key heap.mpsTop
      rw [key]
      change stackKey ((heap.alloc { copy with mpsId := (heap.stset s).stsetId }).mps q) ≠ _
      rw [older]
      exact absent q member) next
  have recounts := (created.2 s).recounts hung.recounts
  have framesIs : ((heap.alloc { copy with mpsId := (heap.stset s).stsetId }).mps
        heap.mpsTop).frames = mps.frames := frames
  have countIs : (heap.alloc { copy with mpsId := (heap.stset s).stsetId }).countOf heap.mpsTop =
      copy.mpsCount := count
  rw [framesIs, countIs] at recounts
  exact ⟨recounts, fun t different => (created.2 t).trans (hung.elsewhere t different), hung.inv⟩

end Steps

/-! ## Merging -/

/-- One use goes from the stack `old` of the source to the stack `new` of the destination. -/
structure HandsOver (heap heap' : StackHeap) (dst src old new : Nat) (count : Nat)
    (left : Option Nat) :
    Prop where
  taken : Recounts heap heap' dst new (heap.mps old).frames (some count)
  given : Recounts heap heap' src old (heap.mps old).frames left
  elsewhere : forall t, t ≠ dst -> t ≠ src -> SameSet heap heap' t
  inv : StsetsApart heap'
  source : StsetWf heap' src

section Merge

variable {heap heap' : StackHeap} {dst src old new k : Nat} {block : Option (Int -> UInt64)}
  {tally : Tally (List UInt64)}

/-- What a stack with one use left comes to, where it does not hit the assertion. -/
theorem moveStack_ok (content : OrderedTree.Sorted heap.key (heap.stset dst).stsetRbh)
    (different : dst ≠ src)
    (moved : moveStack heap dst src old = .ok (heap', new)) :
    (new ∈ heap.members dst ∧ heap.key new = heap.key old ∧
      heap' = (unlinkStack heap src old).bump new) ∨
      ((forall p, p ∈ heap.members dst -> heap.key p ≠ heap.key old) ∧ new = old ∧
        Exists fun id => Exists fun next =>
          heap' = hangStack
            ((unlinkStack heap src old).setMps old { heap.mps old with mpsId := id }) dst old
            next) := by
  have sameSet : (unlinkStack heap src old).stset dst = heap.stset dst :=
    Function.update_of_ne different _ _
  have contentOrder : (unlinkStack heap src old).contentOrder = heap.contentOrder := rfl
  unfold moveStack at moved
  simp only [sameSet, contentOrder] at moved
  rcases OrderedTree.insert_cases (fun q _ => contentOrder_keyed heap old q) content with
    ⟨absent, accepted⟩ | ⟨p, inDst, same, found⟩
  · rw [OrderedTree.insert_accepted accepted] at moved
    refine Or.inr ⟨absent, ?_⟩
    simp only at moved
    cases ids : OrderedTree.insert (unlinkStack heap src old).idOrder old
        (heap.stset dst).stsetIdRbh with
    | mk idRbh clash =>
        rw [ids] at moved
        cases clash with
        | none =>
            cases moved
            refine ⟨rfl, (heap.mps old).mpsId, (heap.stset dst).stsetId, ?_⟩
            have unchanged : (unlinkStack heap src old).setMps old
                { heap.mps old with mpsId := (heap.mps old).mpsId } = unlinkStack heap src old := by
              unfold StackHeap.setMps
              have self : Function.update (unlinkStack heap src old).mps old (heap.mps old) =
                  (unlinkStack heap src old).mps := Function.update_eq_self old heap.mps
              rw [self]
            rw [unchanged, hangStack, sameSet, contentOrder, ids]
        | some taken =>
            simp only at moved
            generalize isRenamed : (unlinkStack heap src old).setMps old
              { (unlinkStack heap src old).mps old with mpsId := (heap.stset dst).stsetId } =
                renamed at moved
            have renamedSet : renamed.stset dst = heap.stset dst := by
              rw [← isRenamed]
              exact sameSet
            have renamedOrder : renamed.contentOrder = heap.contentOrder := by
              rw [← isRenamed]
              exact contentOrder_rename (unlinkStack heap src old) old (heap.stset dst).stsetId
            cases again : OrderedTree.insert renamed.idOrder old (heap.stset dst).stsetIdRbh with
            | mk idRbh clash =>
                rw [again] at moved
                cases clash with
                | some other => cases moved
                | none =>
                    cases moved
                    refine ⟨rfl, (heap.stset dst).stsetId, uintSucc (heap.stset dst).stsetId, ?_⟩
                    change _ = hangStack ((unlinkStack heap src old).setMps old
                      { (unlinkStack heap src old).mps old with mpsId := (heap.stset dst).stsetId })
                        dst old _
                    rw [isRenamed, hangStack, renamedSet, renamedOrder, again]
  · rw [found] at moved
    cases moved
    exact Or.inl ⟨inDst, same, rfl⟩

theorem handsOver_of_given {middle : StackHeap} {count : Nat} {left : Option Nat}
    (different : dst ≠ src)
    (given : Touches heap middle src old (heap.mps old).frames left) (source : StsetWf middle src)
    (taken : Touches middle heap' dst new (heap.mps old).frames (some count)) :
    HandsOver heap heap' dst src old new count left := by
  have kept := taken.elsewhere src different.symm
  refine ⟨(given.elsewhere dst different).recounts taken.recounts, given.recounts.sameSet kept,
    fun t notDst notSrc => ?_, taken.inv, kept.wf source⟩
  exact (given.elsewhere t notSrc).trans (taken.elsewhere t notDst)

theorem handsOver_of_taken {middle : StackHeap} {count : Nat} {left : Option Nat}
    (different : dst ≠ src)
    (taken : Touches heap middle dst new (heap.mps old).frames (some count))
    (given : Touches middle heap' src old (heap.mps old).frames left) (source : StsetWf heap' src) :
    HandsOver heap heap' dst src old new count left := by
  refine ⟨taken.recounts.sameSet (given.elsewhere dst different),
    (taken.elsewhere src different.symm).recounts given.recounts, fun t notDst notSrc => ?_,
      given.inv, source⟩
  exact (taken.elsewhere t notDst).trans (given.elsewhere t notSrc)

theorem taken_known (tallies : Tallies heap dst tally) (inDst : new ∈ heap.members dst)
    (same : heap.key new = heap.key old) (left : Nat) :
    (heap.mps new).frames = (heap.mps old).frames ∧
      tally.taken (2 ^ 32) (heap.mps old).frames left = uintSucc (heap.countOf new) := by
  have frames : (heap.mps new).frames = (heap.mps old).frames := frames_eq_of_stackKey_eq same
  have known := tallies.apply inDst
  rw [frames] at known
  rw [Tally.taken, known]
  exact ⟨frames, rfl⟩

theorem taken_unknown (inv : StsetsApart heap) (tallies : Tallies heap dst tally)
    (absent : forall p, p ∈ heap.members dst -> heap.key p ≠ heap.key old) (left : Nat) :
    tally.taken (2 ^ 32) (heap.mps old).frames left = left := by
  have unknown : tally (heap.mps old).frames = none := by
    rw [tallies.none_iff]
    intro p inDst same
    exact absent p inDst ((stackKey_eq_iff (inv.nonempty dst p inDst) _).mpr same)
  rw [Tally.taken, unknown]

/-- A stack with one use left leaves its set. -/
theorem moveStack_handsOver (inv : StsetsApart heap) (source : StsetWf heap src)
    (different : dst ≠ src)
    (member : old ∈ heap.members src) (single : heap.countOf old = 1)
    (tallies : Tallies heap dst tally)
    (moved : moveStack heap dst src old = .ok (heap', new)) :
    HandsOver heap heap' dst src old new (tally.taken (2 ^ 32) (heap.mps old).frames 1) none := by
  have given := inv.unlink member
  have sameDst := given.elsewhere dst different
  rcases moveStack_ok (inv.content dst) different moved with
    ⟨inDst, same, rfl⟩ | ⟨absent, rfl, id, next, rfl⟩
  · have known := taken_known tallies inDst same 1
    have bumped := given.inv.recount (s := dst) (p := new) (by rw [sameDst.members]; exact inDst)
      (uintSucc (heap.countOf new))
    have frames : ((unlinkStack heap src old).mps new).frames = (heap.mps old).frames := known.1
    rw [frames] at bumped
    rw [known.2]
    exact handsOver_of_given different given (source.unlink old) bumped
  · rw [taken_unknown inv tallies absent 1]
    have outside : forall t, new ∉ (unlinkStack heap src new).members t := by
      intro t inT
      by_cases here : t = src
      · subst here
        exact given.recounts.own inT
      · rw [(given.elsewhere t here).members] at inT
        exact here (inv.apart t src new inT member)
    have renamed := given.inv.setMps { heap.mps new with mpsId := id } outside
    have own : ((unlinkStack heap src new).setMps new { heap.mps new with mpsId := id }).mps new =
        { heap.mps new with mpsId := id } := Function.update_self _ _ _
    have frames : (((unlinkStack heap src new).setMps new { heap.mps new with mpsId := id }).mps
          new).frames = (heap.mps new).frames := by
      rw [own]
      rfl
    have count : ((unlinkStack heap src new).setMps new { heap.mps new with mpsId := id }).countOf
        new = 1 := by
      rw [StackHeap.countOf, own]
      exact single
    have hung := renamed.1.hang (s := dst) (p := new) outside (inv.allocated src new member)
      (by rw [own]; exact inv.nonempty src new member)
      (by rw [own]; exact inv.managed src new member)
      (fun q inDst => by
        have before : q ∈ heap.members dst := by
          rw [← sameDst.members]
          exact inDst
        rw [StackHeap.key, StackHeap.key, (renamed.2 dst).mps q inDst, own]
        exact absent q before) next
    rw [frames, count] at hung
    have moved : Touches heap
      ((unlinkStack heap src new).setMps new { heap.mps new with mpsId := id }) src new
        (heap.mps new).frames none :=
      ⟨given.recounts.sameSet (renamed.2 src),
        fun t notSrc => (given.elsewhere t notSrc).trans (renamed.2 t), renamed.1⟩
    exact handsOver_of_given different moved ((renamed.2 src).wf (source.unlink new)) hung

/-- A stack with several uses left stays in its set. -/
theorem shareStack_handsOver (inv : StsetsApart heap) (source : StsetWf heap src)
    (different : dst ≠ src)
    (valid : dst ≠ 0) (member : old ∈ heap.members src) (tallies : Tallies heap dst tally)
    (shared : shareStack heap dst old block = .ok (heap', new)) :
    HandsOver heap heap' dst src old new
      (tally.taken (2 ^ 32) (heap.mps old).frames (heap.countOf old))
      (some (uintPred (heap.countOf old))) := by
  have result : ShareCase heap dst old block (shareStack heap dst old block) :=
    shareStack_case (inv.content dst) inv.top valid
  have decreased : forall {middle : StackHeap} {frames : List UInt64} {count : Nat},
      Touches heap middle dst new frames (some count) -> frames = (heap.mps old).frames ->
        HandsOver heap (middle.unbump old) dst src old new count
            (some (uintPred (heap.countOf old))) := by
    intro middle frames count taken isFrames
    subst isFrames
    have sameSrc := taken.elsewhere src different.symm
    have same := sameSrc.mps old member
    have inSrc : old ∈ middle.members src := by
      rw [sameSrc.members]
      exact member
    have given := taken.inv.recount inSrc (uintPred (middle.mps old).mpsCount)
    rw [same] at given
    have unbumped : middle.unbump old =
        middle.setMps old { heap.mps old with mpsCount := uintPred (heap.mps old).mpsCount } := by
      rw [StackHeap.unbump, same]
    rw [unbumped]
    refine handsOver_of_taken different taken given ?_
    rw [← unbumped]
    exact (sameSrc.wf source).agree rfl (fun q _ => unbump_agree middle old q)
  rw [shared] at result
  cases result with
  | folded p inDst same =>
      have known := taken_known tallies inDst same (heap.countOf old)
      rw [known.2]
      exact decreased (inv.recount inDst (uintSucc (heap.countOf new))) known.1
  | copied copy absent copied =>
      rw [taken_unknown inv tallies absent]
      have count : copy.mpsCount = heap.countOf old := by
        cases block with
        | none => cases copied
        | some words =>
            cases copied
            exact if_pos (inv.managed src old member)
      have hung := inv.hangCopy copied (inv.nonempty src old member) absent
        (uintSucc (heap.stset dst).stsetId)
      rw [count] at hung
      exact decreased hung rfl

/-- Merging one recorded id between two sets. -/
theorem mprofileMergeStack_handsOver (inv : StsetsApart heap) (source : StsetWf heap src)
    (different : dst ≠ src) (valid : dst ≠ 0) (tallies : Tallies heap dst tally)
    (merged : mprofileMergeStack heap dst src k block = .ok (heap', new)) :
    Exists fun old => old ∈ heap.members src ∧ heap.idOf old = k ∧
      HandsOver heap heap' dst src old new
        (tally.taken (2 ^ 32) (heap.mps old).frames (heap.countOf old))
        (if heap.countOf old = 1 then none else some (uintPred (heap.countOf old))) := by
  unfold mprofileMergeStack at merged
  cases found : heap.findId k (heap.stset src).stsetIdRbh with
  | none => rw [found] at merged; cases merged
  | some old =>
      rw [found] at merged
      have parts := source.findId_some_iff.mp found
      refine ⟨old, parts.1, parts.2, ?_⟩
      simp only at merged
      by_cases single : heap.countOf old = 1
      · have single' : (heap.mps old).mpsCount = 1 := single
        rw [if_pos single'] at merged
        rw [if_pos single, single]
        exact moveStack_handsOver inv source different parts.1 single tallies merged
      · have several : ¬ (heap.mps old).mpsCount = 1 := single
        rw [if_neg several] at merged
        rw [if_neg single]
        exact shareStack_handsOver inv source different valid parts.1 tallies merged

end Merge

end Mprofile
end OsslScripts
