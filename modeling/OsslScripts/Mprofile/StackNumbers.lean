import OsslScripts.Mprofile.Reader
import OsslScripts.Mprofile.UseCounts

namespace OsslScripts
namespace Mprofile

open Foundation

/-!
# The stack ids after the merge

The set of the first profile takes the stacks of the others.  It knows the ids
from 1 on without a gap.  A stack with one use left whose own id is free there
keeps this id, which is then the number of the stacks plus one, and `stset_id`
stays where it was.  The next stack that asks for a fresh id gets one that is in
use: a copy has the id of another stack, and a move runs into the assertion.

`Numbering` follows the numbers for frame sequences only.  What it says of the
uses of the profiles in the order of the merge decides what happens.
-/

/-- The frame sequences with a number, and whether one of them kept its own. -/
structure Numbering where
  seen : List (List UInt64)
  kept : Bool
deriving DecidableEq, Repr

namespace Numbering

/-- The next use of a source, after those in `done`.  There is no result when a
fresh number is in use already. -/
def take (uses done : List (List UInt64)) (st : Numbering) (frames : List UInt64) :
    Option Numbering :=
  if frames ∈ st.seen then some st
  else if uses.count frames = 1 ∧ (distinct done).length = st.seen.length then
    some ⟨st.seen ++ [frames], true⟩
  else if st.kept then none
  else some ⟨st.seen ++ [frames], false⟩

/-- The uses of a source that are left. -/
def takeFrom (uses : List (List UInt64)) : List (List UInt64) -> Numbering -> List (List UInt64) ->
    Option Numbering
  | _, st, [] => some st
  | done, st, frames :: left =>
      match st.take uses done frames with
      | none => none
      | some st => takeFrom uses (done ++ [frames]) st left

/-- The uses of all sources. -/
def takeAll : Numbering -> List (List (List UInt64)) -> Option Numbering
  | st, [] => some st
  | st, uses :: rest =>
      match takeFrom uses [] st uses with
      | none => none
      | some st => takeAll st rest

/-- What a use leaves as it is, and what it adds. -/
theorem take_some {uses done : List (List UInt64)} {st st' : Numbering} {frames : List UInt64}
    (taken : st.take uses done frames = some st') :
    (frames ∈ st.seen ∧ st' = st) ∨ (frames ∉ st.seen ∧ st'.seen = st.seen ++ [frames]) := by
  rw [take] at taken
  split_ifs at taken with known keeps
  · cases taken
    exact Or.inl ⟨known, rfl⟩
  · cases taken
    exact Or.inr ⟨known, rfl⟩
  · cases taken
    exact Or.inr ⟨known, rfl⟩

end Numbering

/-- After a stack kept its id no stack needs a fresh one. -/
def NoFreshAfterKept (own : List (List UInt64)) (sources : List (List (List UInt64))) : Prop :=
  (Numbering.takeAll ⟨distinct own, false⟩ sources).isSome = true

instance (own : List (List UInt64)) (sources : List (List (List UInt64))) :
    Decidable (NoFreshAfterKept own sources) := inferInstanceAs (Decidable (_ = true))

/-- The ids of the saved stacks are the numbers from 1 on, and the reader finds
the frames of each record that was stored with some. -/
structure StacksResolve (doc : Document) (history : List Stored) : Prop where
  ids : (doc.stackList.map SavedStack.id).Perm (List.range' 1 doc.stackList.length)
  records :
    (doc.allocations.map (fun mpr => (mpr.mprId, (MProfile.ofDocument doc).getStack mpr))).Perm
    (history.map (fun stored => (stored.mprId, stored.frames.map (List.map TraceEntry.symbol))))

/-- The profile is saved, and its stacks resolve. -/
structure StacksSurvive (copyBlock : Nat -> Option (Int -> UInt64)) (prof : Profiler)
    (history : List Stored) :
    Prop where
  saved : Exists fun doc => mprofileSave copyBlock false prof = .ok doc
  resolve : forall linkChains doc, mprofileSave copyBlock linkChains prof = .ok doc ->
    StacksResolve doc history

/-! ## The ids of the destination -/

/-- The ids of a set follow the numbering. -/
structure Numbers (heap : StackHeap) (s : Nat) (st : Numbering) : Prop where
  seen : forall frames, frames ∈ st.seen ↔ Exists fun p =>
    p ∈ heap.members s ∧ (heap.mps p).frames = frames
  within : forall p, p ∈ heap.members s -> 1 ≤ heap.idOf p ∧ heap.idOf p ≤ st.seen.length
  onto : forall k, 1 ≤ k -> k ≤ st.seen.length ->
    Exists fun p => p ∈ heap.members s ∧ heap.idOf p = k
  next : if st.kept then 1 ≤ (heap.stset s).stsetId ∧ (heap.stset s).stsetId ≤ st.seen.length
    else (heap.stset s).stsetId = st.seen.length + 1

/-- Two stacks of a set have the same id. -/
def SharedId (heap : StackHeap) (s : Nat) : Prop :=
  Exists fun p => Exists fun q => p ∈ heap.members s ∧ q ∈ heap.members s ∧ p ≠ q ∧
    heap.idOf p = heap.idOf q

section Numbers

variable {heap heap' : StackHeap} {s p new : Nat} {st : Numbering} {frames : List UInt64}

theorem SharedId.keeps (shared : SharedId heap s) (keeps : Keeps heap heap' s) :
    SharedId heap' s := by
  rcases shared with ⟨p, q, inP, inQ, different, same⟩
  have first := keeps p inP
  have second := keeps q inQ
  exact ⟨p, q, first.1, second.1, different, by rw [first.2.1, second.2.1, same]⟩

/-- The next id is one of the set exactly if a stack kept its id. -/
theorem Numbers.next_taken_iff (numbers : Numbers heap s st) :
    (Exists fun p => p ∈ heap.members s ∧ heap.idOf p = (heap.stset s).stsetId) ↔
      st.kept = true := by
  have next := numbers.next
  constructor
  · rintro ⟨p, member, isNext⟩
    have within := (numbers.within p member).2
    by_contra notKept
    rw [if_neg notKept] at next
    omega
  · intro kept
    rw [if_pos kept] at next
    exact numbers.onto _ next.1 next.2

/-- Another use of a stack that is known. -/
theorem Numbers.again (numbers : Numbers heap s st) {count : Nat}
    (taken : Recounts heap heap' s new frames (some count)) (member : new ∈ heap.members s)
    (sameNext : (heap'.stset s).stsetId = (heap.stset s).stsetId) : Numbers heap' s st := by
  have keeps := taken.keeps
  have members : forall q, q ∈ heap'.members s ↔ q ∈ heap.members s := by
    intro q
    by_cases isNew : q = new
    · subst isNew
      exact ⟨fun _ => member, fun _ => taken.own.1⟩
    · exact taken.others q isNew
  refine ⟨fun other => ?_, fun p inSet => ?_, fun k positive upTo => ?_, ?_⟩
  · rw [numbers.seen other]
    constructor
    · rintro ⟨p, inSet, same⟩
      exact ⟨p, (keeps p inSet).1, (keeps p inSet).2.2.trans same⟩
    · rintro ⟨p, inSet, same⟩
      have before := (members p).mp inSet
      exact ⟨p, before, (keeps p before).2.2.symm.trans same⟩
  · have before := (members p).mp inSet
    rw [(keeps p before).2.1]
    exact numbers.within p before
  · rcases numbers.onto k positive upTo with ⟨p, inSet, isK⟩
    exact ⟨p, (keeps p inSet).1, (keeps p inSet).2.1.trans isK⟩
  · rw [sameNext]
    exact numbers.next

/-- A new stack under the next number. -/
theorem Numbers.added (numbers : Numbers heap s st) {count : Nat} {kept : Bool}
    (taken : Recounts heap heap' s new frames (some count)) (outside : new ∉ heap.members s)
    (isNumber : heap'.idOf new = st.seen.length + 1)
    (next : if kept then 1 ≤ (heap'.stset s).stsetId ∧ (heap'.stset s).stsetId ≤ st.seen.length + 1
      else (heap'.stset s).stsetId = st.seen.length + 2) :
      Numbers heap' s ⟨st.seen ++ [frames], kept⟩ := by
  have keeps := taken.keeps
  have length : (st.seen ++ [frames]).length = st.seen.length + 1 := List.length_append
  have origin : forall q, q ∈ heap'.members s -> q = new ∨ q ∈ heap.members s := by
    intro q inSet
    by_cases isNew : q = new
    · exact Or.inl isNew
    · exact Or.inr ((taken.others q isNew).mp inSet)
  refine ⟨fun other => ?_, fun p inSet => ?_, fun k positive upTo => ?_, ?_⟩
  · rw [List.mem_append, List.mem_singleton, numbers.seen other]
    constructor
    · rintro (⟨p, inSet, same⟩ | rfl)
      · exact ⟨p, (keeps p inSet).1, (keeps p inSet).2.2.trans same⟩
      · exact ⟨new, taken.own.1, taken.own.2.1⟩
    · rintro ⟨p, inSet, same⟩
      rcases origin p inSet with rfl | before
      · exact Or.inr (same.symm.trans taken.own.2.1)
      · exact Or.inl ⟨p, before, (keeps p before).2.2.symm.trans same⟩
  · simp only [length]
    rcases origin p inSet with rfl | before
    · rw [isNumber]
      exact ⟨Nat.succ_pos _, Nat.le_refl _⟩
    · rw [(keeps p before).2.1]
      have within := numbers.within p before
      exact ⟨within.1, Nat.le_succ_of_le within.2⟩
  · simp only [length] at upTo
    by_cases last : k = st.seen.length + 1
    · exact ⟨new, taken.own.1, by rw [isNumber, last]⟩
    · rcases numbers.onto k positive (by omega) with ⟨p, inSet, isK⟩
      exact ⟨p, (keeps p inSet).1, (keeps p inSet).2.1.trans isK⟩
  · simp only [length]
    exact next

end Numbers

/-! ## One use -/

/-- A merge does what the numbering says: it succeeds and keeps the numbers, or it
leaves two stacks with one id, if it returns at all. -/
def TakenAs (dst : Nat) (outcome : Option Numbering)
    (result : Except MergeFault (StackHeap × Nat)) : Prop :=
  match outcome with
  | some st => Exists fun heap => Exists fun new => result = .ok (heap, new) ∧ StacksWf heap ∧
      Numbers heap dst st
  | none => forall heap new, result = .ok (heap, new) -> SharedId heap dst

/-- What is known of a stack of the source whose frames are new to the destination. -/
structure Arrival (heap : StackHeap) (uses done : List (List UInt64)) (st : Numbering) (old : Nat)
    (frames : List UInt64) : Prop where
  isNumber : heap.idOf old = (distinct done).length + 1
  isCount : uses.count frames = heap.countOf old
  earlier : (distinct done).length ≤ st.seen.length
  room : st.seen.length + 2 < 2 ^ 32

section Uses

variable {heap : StackHeap} {dst src old : Nat} {uses done : List (List UInt64)} {st : Numbering}
  {frames : List UInt64} {result : Except MergeFault (StackHeap × Nat)}
  {block : Option (Int -> UInt64)}

theorem Numbers.absent_iff (wf : StacksWf heap) (numbers : Numbers heap dst st)
    (isFrames : (heap.mps old).frames = frames) :
    (forall p, p ∈ heap.members dst -> heap.key p ≠ heap.key old) ↔ frames ∉ st.seen := by
  rw [numbers.seen frames]
  constructor
  · rintro absent ⟨p, member, same⟩
    exact absent p member
      ((stackKey_eq_iff ((wf.sets dst).nonempty p member) _).mpr (same.trans isFrames.symm))
  · intro unknown p member same
    exact unknown ⟨p, member, (frames_eq_of_stackKey_eq same).trans isFrames⟩

theorem Numbers.known_of_same (numbers : Numbers heap dst st) {p : Nat}
    (member : p ∈ heap.members dst)
    (same : heap.key p = heap.key old) (isFrames : (heap.mps old).frames = frames) :
    frames ∈ st.seen :=
  (numbers.seen frames).mpr ⟨p, member, (frames_eq_of_stackKey_eq same).trans isFrames⟩

/-- A stack with one use left. -/
theorem move_takenAs (wf : StacksWf heap) (numbers : Numbers heap dst st) (different : dst ≠ src)
    (member : old ∈ heap.members src) (isFrames : (heap.mps old).frames = frames)
    (single : heap.countOf old = 1)
    (arrival : frames ∉ st.seen -> Arrival heap uses done st old frames)
    (recounts : forall heap' new, result = .ok (heap', new) ->
      Exists fun count => Recounts heap heap' dst new frames (some count))
    (moved : MoveCase heap dst src old result) : TakenAs dst (st.take uses done frames) result := by
  have sameSet : (unlinkStack heap src old).stset dst = heap.stset dst :=
    Function.update_of_ne different _ _
  have sameMembers : (unlinkStack heap src old).members dst = heap.members dst :=
    members_unlink_of_ne different
  have outsideAll := wf.unlink_outside member
  have outside : old ∉ heap.members dst :=
    fun inDst => different (wf.apart dst src old inDst member)
  have absentIff : (forall p, p ∈ heap.members dst -> heap.key p ≠ heap.key old) ↔
      frames ∉ st.seen :=
    numbers.absent_iff wf isFrames
  rw [Numbering.take]
  cases moved with
  | folded p inDst same =>
      rcases recounts _ _ rfl with ⟨count, taken⟩
      rw [if_pos (numbers.known_of_same inDst same isFrames)]
      refine ⟨_, _, rfl, (wf.unlink src old).bump p, numbers.again taken inDst ?_⟩
      rw [StackHeap.bump, StackHeap.setMps_stset, sameSet]
  | kept absent free =>
      rcases recounts _ _ rfl with ⟨count, taken⟩
      have unknown := absentIff.mp absent
      have arrived := arrival unknown
      have last : (distinct done).length = st.seen.length := by
        by_contra unequal
        have below : (distinct done).length < st.seen.length :=
          Nat.lt_of_le_of_ne arrived.earlier unequal
        rcases numbers.onto ((distinct done).length + 1) (Nat.succ_pos _) below with
          ⟨p, inDst, isId⟩
        exact free p inDst (isId.trans arrived.isNumber.symm)
      rw [if_neg unknown, if_pos ⟨arrived.isCount.trans single, last⟩]
      refine ⟨_, _, rfl, (wf.unlink src old).hang outsideAll (wf.allocated src old member)
        ((wf.sets src).nonempty old member) (by rw [sameMembers]; exact absent)
        (by rw [sameMembers]; exact free) _, numbers.added taken outside ?_ ?_⟩
      · change heap.idOf old = _
        rw [arrived.isNumber, last]
      · have next := numbers.next
        rw [hangStack, StackHeap.setStset_stset, Function.update_self]
        simp only [if_true]
        split_ifs at next
        · exact ⟨next.1, Nat.le_succ_of_le next.2⟩
        · rw [next]
          exact ⟨Nat.succ_pos _, Nat.le_refl _⟩
  | renamed absent taken free =>
      rcases recounts _ _ rfl with ⟨count, recounted⟩
      have unknown := absentIff.mp absent
      have arrived := arrival unknown
      have notLast : (distinct done).length ≠ st.seen.length := by
        rcases taken with ⟨p, inDst, isId⟩
        have within := (numbers.within p inDst).2
        rw [isId, arrived.isNumber] at within
        omega
      have notKept : ¬ st.kept = true := by
        intro kept
        rcases numbers.next_taken_iff.mpr kept with ⟨p, inDst, isNext⟩
        exact free p inDst isNext
      have next := numbers.next
      rw [if_neg notKept] at next
      rw [if_neg unknown, if_neg (fun both => notLast both.2), if_neg notKept]
      have others : forall q, q ∈ heap.members dst -> q ≠ old := by
        rintro q inDst rfl
        exact outside inDst
      have own : ((unlinkStack heap src old).setMps old
          { heap.mps old with mpsId := (heap.stset dst).stsetId }).mps old =
            { heap.mps old with mpsId := (heap.stset dst).stsetId } := Function.update_self _ _ _
      have older : forall q, q ∈ heap.members dst -> ((unlinkStack heap src old).setMps old
          { heap.mps old with mpsId := (heap.stset dst).stsetId }).mps q = heap.mps q :=
        fun q inDst => Function.update_of_ne (others q inDst) _ _
      have keyOld : stackKey { heap.mps old with mpsId := (heap.stset dst).stsetId } =
          heap.key old :=
        stackKey_congr rfl rfl
      refine ⟨_, _, rfl,
        ((wf.unlink src old).setMps { heap.mps old with mpsId := (heap.stset dst).stsetId }
        outsideAll).hang outsideAll (wf.allocated src old member) ?_ ?_ ?_ _,
        numbers.added recounted outside ?_ ?_⟩
      · rw [own]
        exact (wf.sets src).nonempty old member
      · intro q inDst
        have inOld : q ∈ heap.members dst := by rw [← sameMembers]; exact inDst
        rw [StackHeap.key, StackHeap.key, own, older q inOld, keyOld]
        exact absent q inOld
      · intro q inDst
        have inOld : q ∈ heap.members dst := by rw [← sameMembers]; exact inDst
        rw [StackHeap.idOf, StackHeap.idOf, own, older q inOld]
        exact free q inOld
      · rw [StackHeap.idOf, hangStack, StackHeap.setStset_mps, own]
        exact next
      · rw [hangStack, StackHeap.setStset_stset, Function.update_self, next]
        exact uintSucc_of_lt arrived.room
  | refused absent taken clash =>
      have unknown := absentIff.mp absent
      have arrived := arrival unknown
      have notLast : (distinct done).length ≠ st.seen.length := by
        rcases taken with ⟨p, inDst, isId⟩
        have within := (numbers.within p inDst).2
        rw [isId, arrived.isNumber] at within
        omega
      rw [if_neg unknown, if_neg (fun both => notLast both.2),
        if_pos (numbers.next_taken_iff.mp clash)]
      exact fun heap' new impossible => by cases impossible

/-- A stack with several uses left. -/
theorem share_takenAs (wf : StacksWf heap) (numbers : Numbers heap dst st)
    (member : old ∈ heap.members src) (isFrames : (heap.mps old).frames = frames)
    (several : heap.countOf old ≠ 1)
    (arrival : frames ∉ st.seen -> Arrival heap uses done st old frames)
    (copies : block ≠ none)
    (recounts : forall heap' new, result = .ok (heap', new) ->
      Exists fun count => Recounts heap heap' dst new frames (some count))
    (shared : ShareCase heap dst old block result) :
    TakenAs dst (st.take uses done frames) result := by
  have absentIff : (forall p, p ∈ heap.members dst -> heap.key p ≠ heap.key old) ↔
      frames ∉ st.seen :=
    numbers.absent_iff wf isFrames
  rw [Numbering.take]
  cases shared with
  | folded p inDst same =>
      rcases recounts _ _ rfl with ⟨count, taken⟩
      rw [if_pos (numbers.known_of_same inDst same isFrames)]
      exact ⟨_, _, rfl, (wf.bump p).unbump old, numbers.again taken inDst rfl⟩
  | noMemory absent uncopied => exact absurd uncopied copies
  | copied copy absent copied =>
      rcases recounts _ _ rfl with ⟨count, taken⟩
      have unknown := absentIff.mp absent
      have arrived := arrival unknown
      have notOnce : ¬ (uses.count frames = 1 ∧ (distinct done).length = st.seen.length) :=
        fun both => several (arrived.isCount.symm.trans both.1)
      have id : ((hangStack (newStack heap dst copy) dst heap.mpsTop
          (uintSucc (heap.stset dst).stsetId)).unbump old).idOf heap.mpsTop =
              (heap.stset dst).stsetId := by
        rw [(unbump_agree _ old heap.mpsTop).2, StackHeap.idOf, hangStack, StackHeap.setStset_mps,
          newStack_self]
      rw [if_neg unknown, if_neg notOnce]
      by_cases kept : st.kept = true
      · rw [if_pos kept]
        intro heap' new same
        cases same
        rcases numbers.next_taken_iff.mpr kept with ⟨p, inDst, isNext⟩
        have still := taken.keeps p inDst
        refine ⟨p, heap.mpsTop, still.1, taken.own.1, ?_, ?_⟩
        · rintro rfl
          exact wf.top_outside dst inDst
        · rw [still.2.1, id, isNext]
      · have next := numbers.next
        rw [if_neg kept] at next
        rw [if_neg kept]
        have free : forall q, q ∈ heap.members dst -> heap.idOf q ≠ (heap.stset dst).stsetId :=
          fun q inDst isNext => kept (numbers.next_taken_iff.mp ⟨q, inDst, isNext⟩)
        refine ⟨_, _, rfl,
          (wf.hangCopy copied ((wf.sets src).nonempty old member) absent free _).unbump old,
          numbers.added taken (wf.top_outside dst) (id.trans next) ?_⟩
        have nextIs : (((hangStack (newStack heap dst copy) dst heap.mpsTop
            (uintSucc (heap.stset dst).stsetId)).unbump old).stset dst).stsetId =
              uintSucc (heap.stset dst).stsetId := by
          rw [StackHeap.unbump, StackHeap.setMps_stset, hangStack, StackHeap.setStset_stset,
            Function.update_self]
        rw [nextIs, next]
        exact uintSucc_of_lt arrived.room

theorem stackNumber_new (new : frames ∉ done) (left : List (List UInt64)) :
    stackNumber (done ++ frames :: left) frames = (distinct done).length + 1 := by
  have split : done ++ frames :: left = (done ++ [frames]) ++ left := by simp
  rw [stackNumber, split,
    idxOf_distinct_append_all (List.mem_append_right _ (List.mem_singleton.mpr rfl)),
    distinct_append_new new, List.idxOf_append_of_notMem (mt (mem_distinct _ _).mp new),
    List.idxOf_cons_self, Nat.add_zero]

/-- The numbered frame sequences are different, and are among these. -/
structure Numbering.Among (st : Numbering) (all : List (List UInt64)) : Prop where
  once : st.seen.Nodup
  used : forall frames, frames ∈ st.seen -> frames ∈ all

theorem Numbering.Among.take {all : List (List UInt64)} {st' : Numbering} (among : st.Among all)
    (used : frames ∈ all) (taken : st.take uses done frames = some st') :
    st'.Among all ∧ (forall other, other ∈ st.seen -> other ∈ st'.seen) ∧ frames ∈ st'.seen := by
  rcases Numbering.take_some taken with ⟨known, rfl⟩ | ⟨new, seen⟩
  · exact ⟨among, fun _ member => member, known⟩
  · refine ⟨⟨?_, fun other member => ?_⟩, fun other member => ?_, ?_⟩
    · rw [seen]
      refine List.nodup_append.mpr ⟨among.once, List.nodup_singleton _, ?_⟩
      intro other member last isLast same
      exact new (List.mem_singleton.mp isLast ▸ same ▸ member)
    · rw [seen, List.mem_append, List.mem_singleton] at member
      rcases member with old | rfl
      · exact among.used other old
      · exact used
    · rw [seen]
      exact List.mem_append_left _ member
    · rw [seen]
      exact List.mem_append_right _ (List.mem_singleton.mpr rfl)

/-- Merging the stack of one record. -/
theorem merge_takenAs {tally : Tally (List UInt64)} {left all : List (List UInt64)}
    (draining : Draining heap dst src tally uses (frames :: left)) (wf : StacksWf heap)
    (numbers : Numbers heap dst st) (among : st.Among all) (few : all.length + 1 < 2 ^ 32)
    (used : frames ∈ all) (split : uses = done ++ frames :: left)
    (doneSeen : forall other, other ∈ done -> other ∈ st.seen) (different : dst ≠ src)
    (valid : dst ≠ 0)
    (copies : block ≠ none) :
    TakenAs dst (st.take uses done frames)
      (mprofileMergeStack heap dst src (stackNumber uses frames) block) := by
  have isUse : frames ∈ uses := draining.among frames List.mem_cons_self
  have recounts : forall heap' new,
      mprofileMergeStack heap dst src (stackNumber uses frames) block = .ok (heap', new) ->
        Exists fun count => Recounts heap heap' dst new frames (some count) := by
    intro heap' new merged
    rcases mprofileMergeStack_handsOver draining.inv draining.source different valid draining.taken
        merged with
      ⟨old, member, isNumber, hands⟩
    have taken := hands.taken
    rw [draining.eq_of_number member isUse isNumber] at taken
    exact ⟨_, taken⟩
  rcases mprofileMergeStack_case (stackNumber uses frames) block wf different valid with
    ⟨unknown, -⟩ | ⟨old, member, isNumber, result⟩
  · rcases (draining.given frames _).mp (Tally.ofUses_of_mem List.mem_cons_self) with
      ⟨old, member, same, -⟩
    have number := draining.named old member
    rw [same] at number
    exact absurd number (unknown old member)
  · have isFrames := draining.eq_of_number member isUse isNumber
    have arrival : frames ∉ st.seen -> Arrival heap uses done st old frames := by
      intro unknown
      have notDone : frames ∉ done := fun isDone => unknown (doneSeen frames isDone)
      have counted : (frames :: left).count frames = heap.countOf old :=
        (Tally.ofUses_some_iff.mp (isFrames ▸ draining.given.apply member)).1
      have grown : (st.seen ++ [frames]).Nodup := by
        refine List.nodup_append.mpr ⟨among.once, List.nodup_singleton _, ?_⟩
        intro other member last isLast same
        exact unknown (List.mem_singleton.mp isLast ▸ same ▸ member)
      have bound : (st.seen ++ [frames]).length ≤ all.length := by
        refine grown.length_le_of_subset (fun other member => ?_)
        rcases List.mem_append.mp member with old | last
        · exact among.used other old
        · exact List.mem_singleton.mp last ▸ used
      rw [List.length_append, List.length_singleton] at bound
      refine ⟨?_, ?_, ?_, by omega⟩
      · rw [isNumber, split, stackNumber_new notDone]
      · rw [← counted, split, List.count_append, List.count_eq_zero_of_not_mem notDone,
          Nat.zero_add]
      · exact (nodup_distinct done).length_le_of_subset
          (fun other member => doneSeen other ((mem_distinct _ _).mp member))
    rcases result with ⟨single, moved⟩ | ⟨several, shared⟩
    · exact move_takenAs wf numbers different member isFrames single arrival recounts moved
    · exact share_takenAs wf numbers member isFrames several arrival copies recounts shared

end Uses

/-! ## The records -/

/-- The id is that of a stack with these frames; 0 stands for no stack. -/
def NamesFrames (heap : StackHeap) (s id : Nat) : Option (List UInt64) -> Prop
  | none => id = 0
  | some frames =>
    Exists fun p => p ∈ heap.members s ∧ heap.idOf p = id ∧ (heap.mps p).frames = frames

/-- The state of `mprofile_save` after these records, as long as the ids are sound. -/
structure Merging (all : List (List UInt64)) (dst : Nat) (st : SaveState) (numbering : Numbering)
    (records : List MprofileRecord) (done : List Stored) : Prop where
  wf : StacksWf st.stackHeap
  numbers : Numbers st.stackHeap dst numbering
  among : numbering.Among all
  log : SortedLog records st.sorter
  resolved : forall stored, stored ∈ done -> Exists fun mpr => mpr ∈ st.sorter ∧
    mpr.mprId = stored.mprId ∧ NamesFrames st.stackHeap dst mpr.mprStackId stored.frames

section Records

variable {all uses : List (List UInt64)} {dst src : Nat} {st st' : SaveState}
  {numbering : Numbering}
  {records : List MprofileRecord} {done : List Stored} {mpr : MprofileRecord} {stored : Stored}
  {copyBlock : Nat -> Option (Int -> UInt64)} {heap : StackHeap}

theorem NamesFrames.keeps {heap' : StackHeap} {id : Nat} {frames : Option (List UInt64)}
    (names : NamesFrames heap dst id frames) (keeps : Keeps heap heap' dst) :
    NamesFrames heap' dst id frames := by
  cases frames with
  | none => exact names
  | some frames =>
      rcases names with ⟨p, member, isId, same⟩
      have kept := keeps p member
      exact ⟨p, kept.1, kept.2.1.trans isId, kept.2.2.trans same⟩

/-- A record that is taken. -/
theorem Merging.filed (merging : Merging all dst st numbering records done)
    (fresh : mpr.mprId ∉ records.map MprofileRecord.mprId) {numbering' : Numbering} {id : Nat}
    (wf : StacksWf heap) (numbers : Numbers heap dst numbering') (among : numbering'.Among all)
    (keeps : Keeps st.stackHeap heap dst) (sameId : mpr.mprId = stored.mprId)
    (names : NamesFrames heap dst id stored.frames) :
    Merging all dst (st.filed heap mpr id) numbering' (records ++ [mpr]) (done ++ [stored]) := by
  have inserted := merging.log.insert fresh (unfiled_stackId mpr id)
  refine ⟨wf, numbers, among, inserted.2, fun other member => ?_⟩
  rcases List.mem_append.mp member with old | last
  · rcases merging.resolved other old with ⟨earlier, inSorter, isId, named⟩
    exact ⟨earlier, OrderedTree.subset_insert _ _ _ inSorter, isId, named.keeps keeps⟩
  · rw [List.mem_singleton.mp last]
    exact ⟨_, OrderedTree.mem_insert_of_accepted inserted.1, sameId, names⟩

/-- The ids and the stack ids of a queue. -/
def recordPairs (queue : List MprofileRecord) : List (Nat × Nat) :=
  queue.map (fun mpr => (mpr.mprId, mpr.mprStackId))

/-- The ids and the stack ids of what was stored. -/
def storedPairs (uses : List (List UInt64)) (left : List Stored) : List (Nat × Nat) :=
  left.map (fun stored => (stored.mprId, stored.number uses))

/-- The records of the first profile keep their stack ids. -/
theorem Merging.saveOwn (copyBlock : Nat -> Option (Int -> UInt64)) {left : List Stored}
    {queue : List MprofileRecord} (valid : dst ≠ 0)
    (filed : FiledSet st.stackHeap dst uses) (few : uses.length < 2 ^ 32)
    (among : forall frames, frames ∈ left.filterMap Stored.frames -> frames ∈ uses)
    (numbered : recordPairs queue = storedPairs uses left)
    (fresh : ((records ++ queue).map MprofileRecord.mprId).Nodup)
    (merging : Merging all dst st numbering records done) :
    Exists fun st' => saveRecords copyBlock dst dst st queue = .ok st' ∧
      st'.stackHeap = st.stackHeap ∧
      Merging all dst st' numbering (records ++ queue) (done ++ left) := by
  induction queue generalizing left st records done with
  | nil =>
      cases left with
      | nil =>
          rw [List.append_nil, List.append_nil]
          exact ⟨st, rfl, rfl, merging⟩
      | cons _ _ => cases numbered
  | cons mpr queue inductionHypothesis =>
      cases left with
      | nil => cases numbered
      | cons stored left =>
          have pairs := List.cons.inj numbered
          have sameId := (Prod.mk.inj pairs.1).1
          have isNumber := (Prod.mk.inj pairs.1).2
          have new := fresh_of_nodup fresh
          have rest : forall frames, frames ∈ left.filterMap Stored.frames -> frames ∈ uses := by
            intro frames member
            rcases List.mem_filterMap.mp member with ⟨other, isStored, isFrames⟩
            exact among frames
              (List.mem_filterMap.mpr ⟨other, List.mem_cons_of_mem _ isStored, isFrames⟩)
          -- the heap stays, and the record keeps its id
          have taken : saveRecord copyBlock dst dst st mpr =
                .ok (st.filed st.stackHeap mpr mpr.mprStackId) ∧
              NamesFrames st.stackHeap dst mpr.mprStackId stored.frames := by
            cases isFrames : stored.frames with
            | none =>
                have unstacked : mpr.mprStackId = 0 := by
                  rw [isNumber, Stored.number, isFrames]
                rw [saveRecord_unstacked merging.log new.1 unstacked, unstacked]
                exact ⟨rfl, rfl⟩
            | some frames =>
                have used : frames ∈ uses :=
                  among frames (List.mem_filterMap.mpr ⟨stored, List.mem_cons_self, isFrames⟩)
                rcases (filed.tallies frames _).mp (Tally.ofUses_of_mem used) with
                  ⟨old, member, framesOld, count⟩
                have number : st.stackHeap.idOf old = mpr.mprStackId := by
                  rw [filed.named old member, framesOld, isNumber, Stored.number, isFrames]
                have stacked : mpr.mprStackId ≠ 0 := by
                  rw [isNumber, Stored.number, isFrames]
                  exact Nat.succ_ne_zero _
                have small : st.stackHeap.countOf old < 2 ^ 32 := by
                  rw [count]
                  exact Nat.lt_of_le_of_lt List.count_le_length few
                have wf := merging.wf.sets dst
                have merged : mprofileMergeStack st.stackHeap dst dst mpr.mprStackId
                    (copyBlock mpr.mprId) = .ok (st.stackHeap, old) :=
                  mprofileMergeStack_self wf.trees ((wf.same old).mpr member) number small
                have id : mprofileGetStackId st.stackHeap old = mpr.mprStackId := by
                  rw [mprofileGetStackId,
                    if_neg (Nat.ne_of_gt (merging.wf.allocated dst old member).1)]
                  exact number
                rw [saveRecord_merged merging.log new.1 stacked valid merged, id]
                exact ⟨rfl, old, member, number, framesOld⟩
          have once : Merging all dst (st.filed st.stackHeap mpr mpr.mprStackId) numbering
              (records ++ [mpr])
              (done ++ [stored]) :=
            merging.filed new.1 merging.wf merging.numbers merging.among
              (fun p member => ⟨member, rfl, rfl⟩) sameId taken.2
          have sameRest : (st.filed st.stackHeap mpr mpr.mprStackId).stackHeap = st.stackHeap := rfl
          have still : FiledSet (st.filed st.stackHeap mpr mpr.mprStackId).stackHeap dst uses :=
            filed
          rcases inductionHypothesis still rest pairs.2 new.2 once with
            ⟨st', saved, sameHeap, result⟩
          refine ⟨st', ?_, sameHeap.trans sameRest, ?_⟩
          · rw [saveRecords, taken.1]
            exact saved
          · rwa [List.append_assoc, List.append_assoc] at result

/-- The id that a record gets names its frames. -/
theorem Draining.names {left : List (List UInt64)} {frames : List UInt64}
    {tally : Tally (List UInt64)}
    {block : Option (Int -> UInt64)} {new : Nat}
    (draining : Draining st.stackHeap dst src tally uses (frames :: left)) (different : dst ≠ src)
    (valid : dst ≠ 0)
    (merged : mprofileMergeStack st.stackHeap dst src (stackNumber uses frames) block =
      .ok (heap, new)) :
    NamesFrames heap dst (mprofileGetStackId heap new) (some frames) := by
  rcases mprofileMergeStack_handsOver draining.inv draining.source different valid draining.taken
      merged with
    ⟨old, member, isNumber, hands⟩
  have taken := hands.taken
  rw [draining.eq_of_number member (draining.among frames List.mem_cons_self) isNumber] at taken
  refine ⟨new, taken.own.1, ?_, taken.own.2.1⟩
  rw [mprofileGetStackId, if_neg (Nat.ne_of_gt (hands.inv.allocated dst new taken.own.1).1)]
  rfl

/-- Merging the records of another profile does what the numbering says. -/
theorem Merging.saveFrom {left : List Stored} {queue : List MprofileRecord}
    {doneUses : List (List UInt64)}
    {tally : Tally (List UInt64)} (few : all.length + 1 < 2 ^ 32) (different : dst ≠ src)
    (valid : dst ≠ 0)
    (copies : forall id, copyBlock id ≠ none) (numbered : recordPairs queue = storedPairs uses left)
    (fresh : ((records ++ queue).map MprofileRecord.mprId).Nodup)
    (split : uses = doneUses ++ left.filterMap Stored.frames)
    (doneSeen : forall frames, frames ∈ doneUses -> frames ∈ numbering.seen)
    (inAll : forall frames, frames ∈ left.filterMap Stored.frames -> frames ∈ all)
    (draining : Draining st.stackHeap dst src tally uses (left.filterMap Stored.frames))
    (merging : Merging all dst st numbering records done) :
    match Numbering.takeFrom uses doneUses numbering (left.filterMap Stored.frames) with
    | some numbering' => Exists fun st' => saveRecords copyBlock dst src st queue = .ok st' ∧
        Merging all dst st' numbering' (records ++ queue) (done ++ left)
    | none =>
      forall st', saveRecords copyBlock dst src st queue = .ok st' ->
        SharedId st'.stackHeap dst := by
  induction queue generalizing left st records done numbering doneUses tally with
  | nil =>
      cases left with
      | nil =>
          rw [List.append_nil, List.append_nil]
          exact ⟨st, rfl, merging⟩
      | cons _ _ => cases numbered
  | cons mpr queue inductionHypothesis =>
      cases left with
      | nil => cases numbered
      | cons stored left =>
          have pairs := List.cons.inj numbered
          have sameId := (Prod.mk.inj pairs.1).1
          have isNumber := (Prod.mk.inj pairs.1).2
          have new := fresh_of_nodup fresh
          cases isFrames : stored.frames with
          | none =>
              rw [List.filterMap_cons_none isFrames] at split inAll draining ⊢
              have unstacked : mpr.mprStackId = 0 := by
                rw [isNumber, Stored.number, isFrames]
              have step : saveRecord copyBlock dst src st mpr = .ok (st.filed st.stackHeap mpr 0) :=
                saveRecord_unstacked merging.log new.1 unstacked
              have once : Merging all dst (st.filed st.stackHeap mpr 0) numbering (records ++ [mpr])
                  (done ++ [stored]) :=
                merging.filed new.1 merging.wf merging.numbers merging.among
                  (fun p member => ⟨member, rfl, rfl⟩) sameId (by rw [isFrames]; rfl)
              have still : Draining (st.filed st.stackHeap mpr 0).stackHeap dst src tally uses
                  (left.filterMap Stored.frames) := draining
              have rest := inductionHypothesis pairs.2 new.2 split doneSeen inAll still once
              rw [List.append_assoc, List.append_assoc] at rest
              rw [saveRecords, step]
              exact rest
          | some frames =>
              rw [List.filterMap_cons_some isFrames] at split inAll draining ⊢
              have number : mpr.mprStackId = stackNumber uses frames := by
                rw [isNumber, Stored.number, isFrames]
              have stacked : mpr.mprStackId ≠ 0 := by
                rw [number]
                exact Nat.succ_ne_zero _
              have used := inAll frames List.mem_cons_self
              have outcome :=
                merge_takenAs draining merging.wf merging.numbers merging.among few used split
                doneSeen different valid (copies mpr.mprId)
              rw [Numbering.takeFrom]
              cases taken : numbering.take uses doneUses frames with
              | none =>
                  rw [taken] at outcome
                  intro st' saved
                  rw [saveRecords] at saved
                  cases step : saveRecord copyBlock dst src st mpr with
                  | error fault => rw [step] at saved; cases saved
                  | ok middle =>
                      rw [step] at saved
                      rcases saveRecord_stackId step with ⟨unstacked, -⟩ | ⟨-, -, old, merged⟩
                      · exact absurd unstacked stacked
                      · rw [number] at merged
                        have drained := draining.merge different valid merged
                        have stackIds := congrArg (List.map Prod.snd) pairs.2
                        rw [List.map_map, List.map_map] at stackIds
                        have rest := drained.1.save different stackIds saved
                        exact (outcome _ _ merged).keeps rest.2.1
              | some numbering' =>
                  rw [taken] at outcome
                  rcases outcome with ⟨heap, newMps, merged, wf, numbers⟩
                  have among := merging.among.take used taken
                  have drained := draining.merge different valid merged
                  have named := draining.names different valid merged
                  rw [← number] at merged
                  have step := saveRecord_merged merging.log new.1 stacked valid merged
                  have once : Merging all dst (st.filed heap mpr (mprofileGetStackId heap newMps))
                    numbering'
                      (records ++ [mpr]) (done ++ [stored]) :=
                    merging.filed new.1 wf numbers among.1 drained.2.1 sameId
                      (by rw [isFrames]; exact named)
                  have seen : forall other, other ∈ doneUses ++ [frames] ->
                      other ∈ numbering'.seen := by
                    intro other member
                    rcases List.mem_append.mp member with old | last
                    · exact among.2.1 other (doneSeen other old)
                    · exact List.mem_singleton.mp last ▸ among.2.2
                  have splitNext : uses = (doneUses ++ [frames]) ++ left.filterMap
                      Stored.frames := by
                    rw [split, List.append_assoc]
                    rfl
                  have rest := inductionHypothesis pairs.2 new.2 splitNext seen
                    (fun other member => inAll other (List.mem_cons_of_mem frames member))
                      drained.1 once
                  rw [List.append_assoc, List.append_assoc] at rest
                  rw [saveRecords, step]
                  exact rest

end Records

/-! ## The profiles -/

section Profiles

variable {prof : Profiler} {history : List Stored} {all : List (List UInt64)} {dst master : Nat}
  {st : SaveState} {numbering : Numbering} {records : List MprofileRecord} {done : List Stored}
  {copyBlock : Nat -> Option (Int -> UInt64)} {rest : List Nat}

/-- The queues of these profiles, one after the other. -/
def Profiler.queues (prof : Profiler) (profiles : List Nat) : List MprofileRecord :=
  profiles.flatMap (fun mp => (prof.mprofile mp).mpTqhead)

/-- Merging the profiles one after the other does what the numbering says. -/
theorem Merging.saveAll {profiles : List Nat} {tally : Tally (List UInt64)}
    (few : all.length + 1 < 2 ^ 32)
    (valid : dst ≠ 0) (copies : forall id, copyBlock id ≠ none)
    (once : profiles.Pairwise
      (fun mp other => (prof.mprofile mp).mpStset ≠ (prof.mprofile other).mpStset))
    (numbered : forall mp, mp ∈ profiles ->
      recordPairs (prof.mprofile mp).mpTqhead = storedPairs (usesIn history mp)
        (storedIn history mp))
    (inAll : forall mp, mp ∈ profiles -> forall frames, frames ∈ usesIn history mp -> frames ∈ all)
    (waiting : forall mp, mp ∈ profiles -> Waiting prof history st.stackHeap dst mp)
    (fresh : ((records ++ prof.queues profiles).map MprofileRecord.mprId).Nodup)
    (inv : StsetsApart st.stackHeap) (tallies : Tallies st.stackHeap dst tally)
    (merging : Merging all dst st numbering records done) :
    match Numbering.takeAll numbering (profiles.map (usesIn history)) with
    | some numbering' =>
      Exists fun st' => saveProfiles copyBlock dst st (profiles.map prof.mprofile) = .ok st' ∧
        Merging all dst st' numbering' (records ++ prof.queues profiles)
          (done ++ profiles.flatMap (storedIn history))
    | none => forall st', saveProfiles copyBlock dst st (profiles.map prof.mprofile) = .ok st' ->
        SharedId st'.stackHeap dst := by
  induction profiles generalizing st records done numbering tally with
  | nil =>
      refine ⟨st, rfl, ?_⟩
      rw [Profiler.queues, List.flatMap_nil, List.flatMap_nil, List.append_nil, List.append_nil]
      exact merging
  | cons mp profiles inductionHypothesis =>
      have parts := List.pairwise_cons.mp once
      have first := waiting mp List.mem_cons_self
      have draining : Draining st.stackHeap dst (prof.mprofile mp).mpStset tally (usesIn history mp)
          ((storedIn history mp).filterMap Stored.frames) :=
        ⟨inv, first.source, tallies, first.filed.tallies, first.filed.named, fun _ used => used,
          first.few⟩
      have flat : prof.queues (mp :: profiles) = (prof.mprofile mp).mpTqhead ++ prof.queues
          profiles :=
        List.flatMap_cons
      rw [flat, ← List.append_assoc] at fresh
      have here : ((records ++ (prof.mprofile mp).mpTqhead).map MprofileRecord.mprId).Nodup := by
        rw [List.map_append] at fresh
        exact (List.nodup_append.mp fresh).1
      have outcome :=
        merging.saveFrom few first.different valid copies (numbered mp List.mem_cons_self) here
        (List.nil_append _).symm (fun frames member => absurd member List.not_mem_nil)
        (inAll mp List.mem_cons_self) draining
      have later : forall middle, saveRecords copyBlock dst (prof.mprofile mp).mpStset st
          (prof.mprofile mp).mpTqhead = .ok middle ->
            StsetsApart middle.stackHeap ∧
              (Exists fun tally => Tallies middle.stackHeap dst tally) ∧
              forall other, other ∈ profiles ->
                  Waiting prof history middle.stackHeap dst other := by
        intro middle step
        rcases draining.save first.different first.numbered step with ⟨drained, -, elsewhere⟩
        refine ⟨drained.inv, ⟨_, drained.taken⟩, fun other member => ?_⟩
        have next := waiting other (List.mem_cons_of_mem mp member)
        exact next.sameSet (elsewhere _ next.different.symm (parts.1 other member).symm)
      have uses : (storedIn history mp).filterMap Stored.frames = usesIn history mp := rfl
      rw [uses] at outcome
      rw [List.map_cons, Numbering.takeAll]
      cases taken : Numbering.takeFrom (usesIn history mp) [] numbering (usesIn history mp) with
      | none =>
          rw [taken] at outcome
          intro st' saved
          rw [List.map_cons, saveProfiles] at saved
          cases step : saveRecords copyBlock dst (prof.mprofile mp).mpStset st
              (prof.mprofile mp).mpTqhead with
          | error fault => rw [step] at saved; cases saved
          | ok middle =>
              rw [step] at saved
              rcases later middle step with ⟨invMiddle, ⟨tallyMiddle, talliesMiddle⟩, waitingMiddle⟩
              have collects :=
                saveProfiles_collects parts.2 invMiddle talliesMiddle waitingMiddle saved
              exact (outcome middle step).keeps collects.2.1
      | some numbering' =>
          rw [taken] at outcome
          rcases outcome with ⟨middle, step, mergingMiddle⟩
          rcases later middle step with ⟨invMiddle, ⟨tallyMiddle, talliesMiddle⟩, waitingMiddle⟩
          have result := inductionHypothesis parts.2
            (fun other member => numbered other (List.mem_cons_of_mem mp member))
            (fun other member => inAll other (List.mem_cons_of_mem mp member)) waitingMiddle fresh
              invMiddle
            talliesMiddle mergingMiddle
          rw [flat, List.flatMap_cons, List.map_cons, saveProfiles, step, ← List.append_assoc,
            ← List.append_assoc]
          exact result

/-- The set of the first profile before the merge. -/
theorem FiledSet.numbers {heap : StackHeap} {s : Nat} {uses : List (List UInt64)}
    (filed : FiledSet heap s uses) : Numbers heap s ⟨distinct uses, false⟩ := by
  have known : forall frames, frames ∈ distinct uses ↔
      Exists fun p => p ∈ heap.members s ∧ (heap.mps p).frames = frames := by
    intro frames
    rw [mem_distinct]
    constructor
    · intro used
      rcases (filed.tallies frames _).mp (Tally.ofUses_of_mem used) with ⟨p, member, same, -⟩
      exact ⟨p, member, same⟩
    · rintro ⟨p, member, rfl⟩
      exact filed.used member
  refine ⟨known, fun p member => ?_, fun k positive upTo => ?_, filed.next⟩
  · rw [filed.named p member, stackNumber]
    exact ⟨Nat.succ_pos _, List.idxOf_lt_length_iff.mpr ((known _).mpr ⟨p, member, rfl⟩)⟩
  · simp only at upTo
    have inside : k - 1 < (distinct uses).length := by omega
    rcases (known _).mp (List.getElem_mem inside) with ⟨p, member, same⟩
    refine ⟨p, member, ?_⟩
    rw [filed.named p member, same, stackNumber, (nodup_distinct uses).idxOf_getElem]
    omega

theorem Filed.queueIds (filed : Filed prof history) :
    (prof.queues prof.profiles).map MprofileRecord.mprId =
      (prof.profiles.flatMap (storedIn history)).map Stored.mprId := by
  rw [Profiler.queues, List.map_flatMap, List.map_flatMap]
  apply List.flatMap_congr
  intro mp member
  have pairs := congrArg (List.map Prod.fst) (filed.queues mp member)
  rw [List.map_map, List.map_map] at pairs
  exact pairs

/-- The whole merge does what the numbering says. -/
theorem Filed.merged (filed : Filed prof history) (few : FewStacked history)
    (profiles : prof.profiles = master :: rest) (copies : forall id, copyBlock id ≠ none) :
    match Numbering.takeAll ⟨distinct (usesIn history master), false⟩
      (rest.map (usesIn history)) with
    | some numbering => Exists fun st =>
        saveProfiles copyBlock (prof.mprofile master).mpStset ⟨prof.stackHeap, []⟩ prof.listed =
          .ok st ∧
          Merging (history.filterMap Stored.frames) (prof.mprofile master).mpStset st numbering
            (prof.queues prof.profiles) (prof.profiles.flatMap (storedIn history))
    | none => forall st,
        saveProfiles copyBlock (prof.mprofile master).mpStset ⟨prof.stackHeap, []⟩ prof.listed =
          .ok st ->
          SharedId st.stackHeap (prof.mprofile master).mpStset := by
  have isProfile : forall mp, mp ∈ master :: rest -> mp ∈ prof.profiles :=
    fun mp member => profiles ▸ member
  have isMaster := isProfile master List.mem_cons_self
  have own := filed.sets master isMaster
  have valid := Nat.ne_of_gt (filed.stsets master isMaster).1
  have waiting := filed.waiting few profiles
  have inAll : forall mp frames, frames ∈ usesIn history mp ->
      frames ∈ history.filterMap Stored.frames :=
    fun mp frames used => (List.filter_sublist.filterMap Stored.frames).subset used
  have queued : prof.queues prof.profiles = (prof.mprofile master).mpTqhead ++ prof.queues
      rest := by
    rw [profiles]
    exact List.flatMap_cons
  have ids : ((prof.queues prof.profiles).map MprofileRecord.mprId).Nodup := by
    rw [filed.queueIds]
    have perm := perm_flatMap_filter Stored.profile prof.profiles filed.profiles history
      (fun stored member => (filed.known stored member).1)
    exact ((perm.map Stored.mprId).nodup_iff).mpr filed.ids
  rw [queued] at ids ⊢
  have start : Merging (history.filterMap Stored.frames) (prof.mprofile master).mpStset
      ⟨prof.stackHeap, []⟩ ⟨distinct (usesIn history master), false⟩ [] [] :=
    ⟨filed.heap.wf, own.numbers, ⟨nodup_distinct _, fun frames seen =>
      inAll master frames ((mem_distinct _ _).mp seen)⟩, sortedLog_nil,
      fun stored member => absurd member List.not_mem_nil⟩
  rcases start.saveOwn copyBlock valid own (few.usesIn master) (fun _ used => used)
    (filed.queues master isMaster)
        (by rw [List.map_append] at ids; exact (List.nodup_append.mp ids).1) with
    ⟨middle, step, sameHeap, merging⟩
  rw [List.nil_append, List.nil_append] at merging
  simp only at sameHeap
  have result := merging.saveAll few valid copies waiting.1
    (fun mp member => filed.queues mp (isProfile mp (List.mem_cons_of_mem master member)))
    (fun mp _ => inAll mp) (sameHeap ▸ waiting.2) ids (sameHeap ▸ filed.heap.apart)
    (sameHeap ▸ own.tallies)
  have stored : prof.profiles.flatMap (storedIn history) =
      storedIn history master ++ rest.flatMap (storedIn history) := by
    rw [profiles]
    exact List.flatMap_cons
  rw [stored, Profiler.listed, profiles, List.map_cons, saveProfiles, step]
  exact result

end Profiles

/-! ## The document -/

section Documents

variable {all : List (List UInt64)} {dst : Nat} {st : SaveState} {numbering : Numbering}
  {records : List MprofileRecord} {done history : List Stored} {doc : Document}

/-- The ids of the stacks of a set are the numbers from 1 on. -/
theorem Numbers.perm {heap : StackHeap} {s : Nat} (wf : StsetWf heap s)
    (numbers : Numbers heap s numbering) :
    ((heap.members s).map heap.idOf).Perm (List.range' 1 (heap.members s).length) := by
  have nodup : ((heap.members s).map heap.idOf).Nodup :=
    wf.content.nodup.map_on (fun p inP q inQ same => wf.id_injective inP inQ same)
  have perm : ((heap.members s).map heap.idOf).Perm (List.range' 1 numbering.seen.length) := by
    rw [List.perm_ext_iff_of_nodup nodup List.nodup_range']
    intro k
    rw [List.mem_map, List.mem_range'_1]
    constructor
    · rintro ⟨p, member, rfl⟩
      have within := numbers.within p member
      omega
    · rintro ⟨positive, below⟩
      exact numbers.onto k positive (by omega)
  have length := perm.length_eq
  rw [List.length_map, List.length_range'] at length
  rwa [length]

/-- The reader finds the stack with an id at the position before it. -/
theorem getElem_sorted_of_perm {saved : List SavedStack}
    (perm : (saved.map SavedStack.id).Perm (List.range' 1 saved.length)) {k : Nat}
    (positive : 1 ≤ k)
    (upTo : k ≤ saved.length) :
    Exists fun stack => stack ∈ saved ∧ stack.id = k ∧
      (saved.insertionSort (fun x y => x.id ≤ y.id))[k - 1]? = some stack := by
  have sortedPerm : (saved.insertionSort (fun x y => x.id ≤ y.id)).Perm saved :=
    List.perm_insertionSort _ _
  have ordered : ((saved.insertionSort (fun x y => x.id ≤ y.id)).map SavedStack.id).Pairwise
      (· ≤ ·) :=
    List.pairwise_map.mpr (List.pairwise_insertionSort _ _)
  have increasing : (List.range' 1 saved.length).Pairwise (· ≤ ·) :=
    List.pairwise_le_range' 1
  have ids : (saved.insertionSort (fun x y => x.id ≤ y.id)).map SavedStack.id =
      List.range' 1 saved.length :=
    ((sortedPerm.map SavedStack.id).trans perm).eq_of_pairwise
      (fun a b _ _ first second => Nat.le_antisymm first second) ordered increasing
  have inside : k - 1 < (saved.insertionSort (fun x y => x.id ≤ y.id)).length := by
    rw [sortedPerm.length_eq]
    omega
  refine ⟨_, sortedPerm.subset (List.getElem_mem inside), ?_, List.getElem?_eq_getElem inside⟩
  have lookup := congrArg (fun l => l[k - 1]?) ids
  simp only [List.getElem?_map, List.getElem?_eq_getElem inside, Option.map_some] at lookup
  rw [List.getElem?_range' (by omega)] at lookup
  have isK := Option.some.inj lookup
  omega

theorem getTrace_printStack (mps : MprofileStack) :
    getTrace (printStack mps) = mps.frames.map TraceEntry.symbol := by
  rw [getTrace, printStack, List.dropLast_concat]

/-- What is saved after a sound merge resolves. -/
theorem Merging.resolve (merging : Merging all dst st numbering records done)
    (allocations : recordPairs doc.allocations = recordPairs st.sorter)
    (stackList : doc.stackList = (st.stackHeap.members dst).map
      (fun p => printStack (st.stackHeap.mps p)))
    (complete : done.Perm history)
    (sameIds : (records.map MprofileRecord.mprId).Perm (history.map Stored.mprId))
    (once : (history.map Stored.mprId).Nodup) : StacksResolve doc history := by
  have wf := merging.wf.sets dst
  have ids : (doc.stackList.map SavedStack.id).Perm (List.range' 1 doc.stackList.length) := by
    rw [stackList, List.map_map, List.length_map]
    exact merging.numbers.perm wf
  refine ⟨ids, ?_⟩
  -- what the reader finds depends on the stack id of the record only
  let lookup : Nat × Nat -> Nat × Option (List TraceEntry) := fun pair =>
    (pair.1, (MProfile.ofDocument doc).getStack
      { (default : MprofileRecord) with mprStackId := pair.2 })
  have read : doc.allocations.map (fun mpr => (mpr.mprId, (MProfile.ofDocument doc).getStack mpr)) =
      (recordPairs st.sorter).map lookup := by
    rw [← allocations, recordPairs, List.map_map]
    rfl
  have drawn : (st.sorter.map MprofileRecord.mprId).Perm (history.map Stored.mprId) :=
    merging.log.ids.trans sameIds
  have pairIds : ((recordPairs st.sorter).map lookup).map Prod.fst =
      st.sorter.map MprofileRecord.mprId := by
    rw [recordPairs, List.map_map, List.map_map]
    rfl
  have storedIds : (history.map (fun stored =>
      (stored.mprId, stored.frames.map (List.map TraceEntry.symbol)))).map Prod.fst =
        history.map Stored.mprId := by
    rw [List.map_map]
    rfl
  rw [read]
  refine (List.Subperm.perm_of_length_le (List.Nodup.subperm ?_ ?_) ?_).symm
  · rw [← storedIds] at once
    exact once.of_map _
  · intro pair member
    rcases List.mem_map.mp member with ⟨stored, isStored, rfl⟩
    rcases merging.resolved stored (complete.mem_iff.mpr isStored) with
      ⟨mpr, inSorter, sameId, names⟩
    refine List.mem_map.mpr ⟨(mpr.mprId, mpr.mprStackId), List.mem_map_of_mem inSorter, ?_⟩
    refine Prod.ext sameId ?_
    change (MProfile.ofDocument doc).getStack _ = stored.frames.map _
    cases isFrames : stored.frames with
    | none =>
        rw [isFrames] at names
        exact if_pos names
    | some frames =>
        rw [isFrames] at names
        rcases names with ⟨p, inSet, isId, same⟩
        have inRange := (merging.numbers.perm wf).subset (List.mem_map_of_mem inSet)
        rw [List.mem_range'_1] at inRange
        have length : doc.stackList.length = (st.stackHeap.members dst).length := by
          rw [stackList, List.length_map]
        rcases getElem_sorted_of_perm ids inRange.1 (by omega) with
          ⟨saved, inSaved, savedId, found⟩
        rw [stackList] at inSaved
        rcases List.mem_map.mp inSaved with ⟨q, inQ, rfl⟩
        have isP : q = p := wf.id_injective inQ inSet savedId
        rw [isP] at found
        have nonzero : mpr.mprStackId ≠ 0 := by
          rw [← isId]
          omega
        rw [MProfile.getStack, if_neg nonzero]
        simp only [MProfile.ofDocument]
        rw [← isId, found, Option.map_some, Option.map_some, getTrace_printStack, same]
  · rw [List.length_map, List.length_map, recordPairs, List.length_map]
    have lengths := drawn.length_eq
    rw [List.length_map, List.length_map] at lengths
    exact Nat.le_of_eq lengths

/-- What a document takes from the merge. -/
theorem mprofileSave_merged {prof : Profiler} {copyBlock : Nat -> Option (Int -> UInt64)}
    {linkChains : Bool}
    {master : Profile} {rest : List Profile} (listed : prof.listed = master :: rest)
    (isSet : master.mpStset ≠ 0)
    (saved : mprofileSave copyBlock linkChains prof = .ok doc) :
    Exists fun st =>
      saveProfiles copyBlock master.mpStset ⟨prof.stackHeap, []⟩ prof.listed = .ok st ∧
      recordPairs doc.allocations = recordPairs st.sorter ∧
      doc.stackList = (st.stackHeap.members master.mpStset).map
        (fun p => printStack (st.stackHeap.mps p)) := by
  rw [mprofileSave, listed] at saved
  rw [listed]
  simp only at saved
  cases merged : saveProfiles copyBlock master.mpStset ⟨prof.stackHeap, []⟩ (master :: rest) with
  | error fault => rw [merged] at saved; cases saved
  | ok st =>
      rw [merged] at saved
      cases linkChains with
      | false =>
          cases saved
          exact ⟨st, rfl, rfl, if_neg isSet⟩
      | true =>
          simp only [if_true] at saved
          cases built : buildChains st.sorter with
          | error stop => rw [built] at saved; cases saved
          | ok linked =>
              rw [built] at saved
              cases saved
              have pairs :=
                congrArg (List.map (fun mpr : MprofileRecord => (mpr.mprId, mpr.mprStackId)))
                (buildChains_bare built)
              rw [List.map_map, List.map_map] at pairs
              exact ⟨st, rfl, pairs, if_neg isSet⟩

theorem mprofileSave_unlinked {prof : Profiler} {copyBlock : Nat -> Option (Int -> UInt64)}
    {master : Profile} {rest : List Profile} (listed : prof.listed = master :: rest)
    (merged : saveProfiles copyBlock master.mpStset ⟨prof.stackHeap, []⟩ prof.listed = .ok st) :
    Exists fun doc => mprofileSave copyBlock false prof = .ok doc := by
  rw [listed] at merged
  rw [mprofileSave, listed]
  simp only [merged]
  exact ⟨_, rfl⟩

end Documents

/-- After any record calls the profile is saved with stacks that resolve if and only
if no stack needs a fresh id after another one kept its own. -/
theorem stacksSurvive_iff (calls : List RecordCall) (prof : Profiler) (history : List Stored)
    (executed : recordCalls calls = .ok (prof, history)) (few : FewStacked history) (master : Nat)
    (rest : List Nat) (profiles : prof.profiles = master :: rest)
    (copyBlock : Nat -> Option (Int -> UInt64)) (copies : forall id, copyBlock id ≠ none) :
    StacksSurvive copyBlock prof history ↔
      NoFreshAfterKept (usesIn history master) (rest.map (usesIn history)) := by
  have filed := filed_recordCalls executed few
  have isMaster : master ∈ prof.profiles := profiles ▸ List.mem_cons_self
  have isSet := Nat.ne_of_gt (filed.stsets master isMaster).1
  have listed : prof.listed = prof.mprofile master :: rest.map prof.mprofile := by
    rw [Profiler.listed, profiles, List.map_cons]
  have outcome := filed.merged few profiles copies
  rw [NoFreshAfterKept]
  cases taken : Numbering.takeAll ⟨distinct (usesIn history master), false⟩
      (rest.map (usesIn history)) with
  | none =>
      rw [taken] at outcome
      refine ⟨fun survive => ?_, fun impossible => by cases impossible⟩
      rcases survive.saved with ⟨doc, saved⟩
      rcases mprofileSave_merged listed isSet saved with ⟨st, merged, -, stackList⟩
      rcases outcome st merged with ⟨p, q, inP, inQ, different, same⟩
      have ids := (survive.resolve false doc saved).ids
      have nodup := ids.nodup_iff.mpr List.nodup_range'
      rw [stackList, List.map_map] at nodup
      exact absurd (List.inj_on_of_nodup_map nodup inP inQ same) different
  | some numbering =>
      rw [taken] at outcome
      rcases outcome with ⟨st, merged, merging⟩
      refine ⟨fun _ => rfl, fun _ =>
        ⟨mprofileSave_unlinked listed merged, fun linkChains doc saved => ?_⟩⟩
      rcases mprofileSave_merged listed isSet saved with ⟨st', merged', allocations, stackList⟩
      rw [merged] at merged'
      cases merged'
      have complete := perm_flatMap_filter Stored.profile prof.profiles filed.profiles history
        (fun stored member => (filed.known stored member).1)
      refine merging.resolve allocations stackList complete ?_ filed.ids
      rw [filed.queueIds]
      exact complete.map Stored.mprId

/-- There is always memory for a copy. -/
def someBlock (_ : Nat) : Option (Int -> UInt64) := some (fun _ => 9000)

theorem stacksSurvive_iff_sharedCalls : recordCalls sharedCalls = .ok (afterCalls sharedCalls) ∧
    StacksSurvive someBlock (afterCalls sharedCalls).1 (afterCalls sharedCalls).2 := by
  refine ⟨rfl, ?_⟩
  refine (stacksSurvive_iff sharedCalls (afterCalls sharedCalls).1 (afterCalls sharedCalls).2 rfl
    (by decide) 1 [2] rfl someBlock (fun _ impossible => by cases impossible)).mpr ?_
  decide

/-- The second thread shares the stack of the first, has one which it uses once, and
another one which it uses twice. -/
def keptCalls : List RecordCall :=
  [recordFrame 1 10 1000, recordFrame 2 10 2000, recordFrame 2 20 3000, recordFrame 2 30 4000,
    recordFrame 2 30 5000]

/-- Two of the three saved stacks have the id 2. -/
theorem keptCalls_not_survive :
    ¬ forall calls prof history copyBlock, recordCalls calls = .ok (prof, history) ->
      prof.profiles ≠ [] ->
      (forall id, copyBlock id ≠ none) -> StacksSurvive copyBlock prof history := by
  intro always
  have survive := always keptCalls (afterCalls keptCalls).1 (afterCalls keptCalls).2 someBlock rfl
    (fun impossible => by cases impossible) (fun _ impossible => by cases impossible)
  have resolve := survive.resolve false _ rfl
  exact absurd resolve.ids (by decide)

end Mprofile
end OsslScripts
