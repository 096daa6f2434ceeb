import OsslScripts.Foundation.Interning
import OsslScripts.Foundation.Transition
import OsslScripts.Mprofile.Save
import OsslScripts.Mprofile.Sequential
import OsslScripts.Mprofile.StackSystem
import OsslScripts.Mprofile.StackTally

namespace OsslScripts
namespace Mprofile

open Foundation

/-!
# Profiles that are built by record calls

Any number of threads call the recording functions, in any order.  A thread
gets its profile with its first call.  No request of the profiler fails, and
the stacks that are passed have frames.

The history says for each record where it was stored and with which frames.  It
determines what a profile holds: the set numbers the frame sequences of the
profile in the order of their first use and counts their uses, and each record
has the number of its frames.
-/

/-- The recording functions and their arguments. -/
inductive RecordOp where
  | alloc (buf bufSz : UInt64)
  | free (buf sz : UInt64)
  | realloc (buf bufSz origSz oldBuf : UInt64)
deriving DecidableEq, Repr

/-- What is filled in before the record is appended. -/
def RecordOp.record : RecordOp -> MprofileRecord
  | .alloc buf bufSz => allocRecord buf bufSz
  | .free buf sz => freeRecord buf sz
  | .realloc buf bufSz origSz oldBuf => reallocRecord buf bufSz origSz oldBuf

/-- The requests of the profiler succeed. -/
structure RecordGranted (answer : Answer) : Prop where
  createOk : answer.createOk = true
  stsetOk : answer.stsetOk = true
  recordOk : answer.recordOk = true
  copied : answer.copyBlock ≠ none

/-- A thread finds its profile and records an operation, or none. -/
structure RecordCall where
  tid : Nat
  op : Option RecordOp
  mps : Option MprofileStack
  answer : Answer
  captured : forall stack, mps = some stack -> StackSystem.captured stack
  granted : RecordGranted answer

def RecordCall.next (prof : Profiler) (call : RecordCall) : Except HookFault Profiler := do
  let found ← prof.getMprofile call.tid call.answer
  found.1.log found.2 (call.op.map RecordOp.record) call.mps call.answer

/-- A record that was stored: in which profile, under which id, with which frames. -/
structure Stored where
  profile : Nat
  mprId : Nat
  frames : Option (List UInt64)
deriving DecidableEq, Repr

/-- The history after a call. -/
def noteStored (history : List Stored) (_ : Profiler) (call : RecordCall) (after : Profiler) :
    List Stored :=
  match call.op with
  | none => history
  | some _ =>
      history ++ [⟨after.specific call.tid, after.mprId, call.mps.map MprofileStack.frames⟩]

/-- Run record calls from the start of the process. -/
def recordCalls (calls : List RecordCall) : Except HookFault (Profiler × List Stored) :=
  exec (withHistory RecordCall.next noteStored) (World.init.prof, []) calls

/-- What was stored in a profile, in order. -/
def storedIn (history : List Stored) (mp : Nat) : List Stored :=
  history.filter (fun stored => stored.profile = mp)

/-- The frames of the records of a profile, in order. -/
def usesIn (history : List Stored) (mp : Nat) : List (List UInt64) :=
  (storedIn history mp).filterMap Stored.frames

/-- The number of a frame sequence among these: they are numbered from 1 on. -/
def stackNumber (uses : List (List UInt64)) (frames : List UInt64) : Nat :=
  (distinct uses).idxOf frames + 1

/-- The stack id of a record of a profile with these uses. -/
def Stored.number (uses : List (List UInt64)) (stored : Stored) : Nat :=
  match stored.frames with
  | none => 0
  | some frames => stackNumber uses frames

/-- The counters of 32 bits do not wrap. -/
def FewStacked (history : List Stored) : Prop :=
  (history.filterMap Stored.frames).length + 1 < 2 ^ 32

instance (history : List Stored) : Decidable (FewStacked history) := Nat.decLt _ _

/-! ## Sets -/

/-- The set of a profile with these uses. -/
structure FiledSet (heap : StackHeap) (s : Nat) (uses : List (List UInt64)) : Prop where
  tallies : Tallies heap s (Tally.ofUses uses)
  named : Named heap s (stackNumber uses)
  next : (heap.stset s).stsetId = (distinct uses).length + 1

/-- All sets are well formed, and hold copies. -/
structure FiledHeap (heap : StackHeap) : Prop where
  wf : StacksWf heap
  managed : forall s p, p ∈ heap.members s -> (heap.mps p).mpsFlags = mpsFlagManaged

section Sets

variable {heap heap' : StackHeap} {s t p : Nat} {uses : List (List UInt64)} {mps : MprofileStack}
  {block : Option (Int -> UInt64)}

theorem FiledHeap.apart (filed : FiledHeap heap) : StsetsApart heap :=
  ⟨fun s => (filed.wf.sets s).content, filed.wf.top, filed.wf.allocated, filed.wf.apart,
    fun s => (filed.wf.sets s).nonempty, filed.managed⟩

theorem SameSet.filedSet (same : SameSet heap heap' s) (filed : FiledSet heap s uses) :
    FiledSet heap' s uses :=
  ⟨same.tallies filed.tallies, same.named filed.named, by rw [same.stset]; exact filed.next⟩

theorem distinct_length_le {K : Type} [BEq K] [LawfulBEq K] (keys : List K) :
    (distinct keys).length ≤ keys.length :=
  (nodup_distinct keys).length_le_of_subset (fun _ member => (mem_distinct keys _).mp member)

theorem stackNumber_append {frames : List UInt64} (used : frames ∈ uses) (last : List UInt64) :
    stackNumber (uses ++ [last]) frames = stackNumber uses frames := by
  rw [stackNumber, stackNumber, idxOf_distinct_append used]

/-- The frames of a stack of the set were used. -/
theorem FiledSet.used (filed : FiledSet heap s uses) (member : p ∈ heap.members s) :
    (heap.mps p).frames ∈ uses :=
  (Tally.ofUses_some_iff.mp (filed.tallies.apply member)).2

theorem FiledSet.idOf_lt (filed : FiledSet heap s uses) (member : p ∈ heap.members s) :
    heap.idOf p < (heap.stset s).stsetId := by
  rw [filed.named p member, filed.next, stackNumber]
  exact Nat.succ_lt_succ (List.idxOf_lt_length_iff.mpr ((mem_distinct _ _).mpr (filed.used member)))

/-- Hanging a copy under an id that is free. -/
theorem StacksWf.hangCopy (wf : StacksWf heap) {copy : MprofileStack}
    (copied : mprofileCopyStack mps block = some copy) (nonempty : 0 < mps.mpsStackDepth)
    (absent : forall q, q ∈ heap.members s -> heap.key q ≠ stackKey mps)
    (free : forall q, q ∈ heap.members s -> heap.idOf q ≠ (heap.stset s).stsetId) (next : Nat) :
    StacksWf (hangStack (newStack heap s copy) s heap.mpsTop next) := by
  have own := newStack_self heap s copy
  have sameFrames := frames_mprofileCopyStack copied
  have older : forall q, q ∈ heap.members s -> (newStack heap s copy).mps q = heap.mps q :=
    fun q member => newStack_others heap s copy (Nat.ne_of_lt (wf.allocated s q member).2)
  have key : (newStack heap s copy).key heap.mpsTop = stackKey mps := by
    rw [StackHeap.key, own, stackKey_eq_iff (sameFrames.1.symm ▸ nonempty)]
    exact sameFrames.2
  have created : StacksWf (newStack heap s copy) := wf.alloc _
  refine created.hang wf.top_outside ⟨wf.top, Nat.lt_succ_self _⟩ ?_ ?_ ?_ next
  · rw [own]
    exact sameFrames.1.symm ▸ nonempty
  · intro q member
    rw [key, StackHeap.key, older q member]
    exact absent q member
  · intro q member
    rw [StackHeap.idOf, StackHeap.idOf, older q member, own]
    exact free q member

/-- What adding a stack with these frames to a set does. -/
structure Files (heap : StackHeap) (s : Nat) (uses : List (List UInt64)) (frames : List UInt64)
    (added : StackHeap × Nat) : Prop where
  inv : FiledHeap added.1
  filed : FiledSet added.1 s (uses ++ [frames])
  id : mprofileGetStackId added.1 added.2 = stackNumber (uses ++ [frames]) frames
  elsewhere : forall t, t ≠ s -> SameSet heap added.1 t
  stsetTop : added.1.stsetTop = heap.stsetTop

theorem FiledSet.added (filed : FiledSet heap s uses) (inv : FiledHeap heap) (valid : s ≠ 0)
    (captured : StackSystem.captured mps) (copied : block ≠ none) (few : uses.length + 2 < 2 ^ 32) :
    Files heap s uses mps.frames (mprofileAddStack heap s mps block) := by
  have apart := inv.apart
  have length := distinct_length_le uses
  rcases mprofileAddStack_cases mps block (inv.wf.sets s).content valid with
    ⟨p, member, same, added⟩ | ⟨absent, ⟨failed, -⟩ | ⟨copy, copied, added⟩⟩
  · rw [added]
    have frames : (heap.mps p).frames = mps.frames := frames_eq_of_stackKey_eq same
    have used : mps.frames ∈ uses := frames ▸ filed.used member
    have counted : uses.count mps.frames = heap.countOf p :=
      (Tally.ofUses_some_iff.mp (frames ▸ filed.tallies.apply member)).1
    have touched : Touches heap (heap.bump p) s p (heap.mps p).frames
        (some (uintSucc (heap.countOf p))) :=
      apart.recount member _
    have room : heap.countOf p + 1 < 2 ^ 32 := by
      have bound : uses.count mps.frames ≤ uses.length := List.count_le_length
      omega
    rw [frames, uintSucc_of_lt room, ← counted] at touched
    have id : (heap.bump p).idOf p = stackNumber (uses ++ [mps.frames]) mps.frames := by
      rw [(bump_agree heap p p).2, filed.named p member, frames, stackNumber_append used]
    refine ⟨⟨inv.wf.bump p, touched.inv.managed⟩, ⟨?_, ?_, ?_⟩, ?_, touched.elsewhere, rfl⟩
    · have tallies := touched.recounts.tallies filed.tallies
      rwa [Tally.ofUses_append] at tallies
    · refine touched.recounts.named filed.named
        (fun q inS _ => stackNumber_append (filed.used inS) _)
        (fun _ => ?_)
      rw [touched.recounts.own.2.1]
      exact id
    · rw [distinct_append_seen used]
      exact filed.next
    · rw [mprofileGetStackId, if_neg (Nat.ne_of_gt (inv.wf.allocated s p member).1)]
      exact id
  · cases block with
    | none => exact absurd rfl copied
    | some words => cases failed
  · rw [added]
    have touched := apart.hangCopy copied captured.1 absent (uintSucc (heap.stset s).stsetId)
    have count : copy.mpsCount = 1 := by
      cases block with
      | none => cases copied
      | some words =>
          cases copied
          simp only [captured.2, mpsFlagManaged]
          rfl
    have new : mps.frames ∉ uses := by
      intro used
      rcases (filed.tallies mps.frames _).mp (Tally.ofUses_of_mem used) with ⟨q, member, frames, -⟩
      exact absent q member ((stackKey_eq_iff ((inv.wf.sets s).nonempty q member) _).mpr frames)
    have distinctNew := distinct_append_new new
    have number : stackNumber (uses ++ [mps.frames]) mps.frames = (heap.stset s).stsetId := by
      rw [stackNumber, distinctNew, List.idxOf_append_of_notMem (mt (mem_distinct _ _).mp new),
        List.idxOf_cons_self, filed.next, Nat.add_zero]
    have id : (hangStack (newStack heap s copy) s heap.mpsTop
      (uintSucc (heap.stset s).stsetId)).idOf
        heap.mpsTop = (heap.stset s).stsetId := by
      rw [StackHeap.idOf, hangStack, StackHeap.setStset_mps, newStack_self]
    rw [count] at touched
    refine ⟨⟨inv.wf.hangCopy copied captured.1 absent
      (fun q member => Nat.ne_of_lt (filed.idOf_lt member)) _, touched.inv.managed⟩,
      ⟨?_, ?_, ?_⟩, ?_,
      touched.elsewhere, rfl⟩
    · have tallies := touched.recounts.tallies filed.tallies
      have once : (1 : Nat) = uses.count mps.frames + 1 := by
        rw [List.count_eq_zero_of_not_mem new]
      rwa [once, Tally.ofUses_append] at tallies
    · refine touched.recounts.named filed.named
        (fun q inS _ => stackNumber_append (filed.used inS) _)
        (fun _ => ?_)
      rw [touched.recounts.own.2.1, number]
      exact id
    · rw [hangStack, StackHeap.setStset_stset, Function.update_self, distinctNew,
        List.length_append,
        List.length_singleton, filed.next]
      exact uintSucc_of_lt (by omega)
    · rw [mprofileGetStackId, if_neg (Nat.ne_of_gt inv.wf.top), number]
      exact id

/-- Creating a set leaves the others as they are. -/
theorem FiledHeap.createStset (inv : FiledHeap heap) :
    FiledHeap (mprofileCreateStset heap true).1 ∧
      FiledSet (mprofileCreateStset heap true).1 heap.stsetTop [] ∧
      forall t, t ≠ heap.stsetTop -> SameSet heap (mprofileCreateStset heap true).1 t := by
  have elsewhere : forall t, t ≠ heap.stsetTop ->
      SameSet heap (mprofileCreateStset heap true).1 t :=
    fun t different => ⟨Function.update_of_ne different _ _, fun _ _ => rfl⟩
  have created : (mprofileCreateStset heap true).1.stset heap.stsetTop = ⟨1, [], []⟩ :=
    Function.update_self _ _ _
  have empty : forall p, p ∉ (mprofileCreateStset heap true).1.members heap.stsetTop := by
    intro p member
    rw [StackHeap.members, created] at member
    cases member
  refine ⟨⟨inv.wf.createStset true, fun s p member => ?_⟩, ⟨fun frames count => ?_, ?_, ?_⟩,
    elsewhere⟩
  · by_cases new : s = heap.stsetTop
    · subst new
      exact absurd member (empty p)
    · rw [(elsewhere s new).members] at member
      exact inv.managed s p member
  · constructor
    · intro impossible
      cases impossible
    · rintro ⟨p, member, -⟩
      exact absurd member (empty p)
  · exact fun p member => absurd member (empty p)
  · rw [created]
    rfl

end Sets

/-! ## Profiles -/

/-- What the profiles hold after these records were stored. -/
structure Filed (prof : Profiler) (history : List Stored) : Prop where
  heap : FiledHeap prof.stackHeap
  stsetTop : 0 < prof.stackHeap.stsetTop
  mprofileTop : 0 < prof.mprofileTop
  profiles : prof.profiles.Nodup
  handles : forall mp, mp ∈ prof.profiles -> 0 < mp ∧ mp < prof.mprofileTop
  specific : forall tid, prof.specific tid ≠ 0 -> prof.specific tid ∈ prof.profiles
  stsets : forall mp, mp ∈ prof.profiles ->
    0 < (prof.mprofile mp).mpStset ∧ (prof.mprofile mp).mpStset < prof.stackHeap.stsetTop
  stsetOnce : forall mp other, mp ∈ prof.profiles -> other ∈ prof.profiles ->
    (prof.mprofile mp).mpStset = (prof.mprofile other).mpStset -> mp = other
  known : forall stored, stored ∈ history -> stored.profile ∈ prof.profiles ∧
    stored.mprId ≤ prof.mprId
  ids : (history.map Stored.mprId).Nodup
  queues : forall mp, mp ∈ prof.profiles ->
    (prof.mprofile mp).mpTqhead.map (fun mpr => (mpr.mprId, mpr.mprStackId)) =
      (storedIn history mp).map (fun stored => (stored.mprId, stored.number (usesIn history mp)))
  sets : forall mp, mp ∈ prof.profiles ->
    FiledSet prof.stackHeap (prof.mprofile mp).mpStset (usesIn history mp)

section Histories

variable {history : List Stored} {stored : Stored} {mp : Nat}

theorem storedIn_append_self (history : List Stored) (stored : Stored) :
    storedIn (history ++ [stored]) stored.profile = storedIn history stored.profile ++
    [stored] := by
  rw [storedIn, List.filter_append, List.filter_singleton, decide_eq_true rfl]
  rfl

theorem storedIn_append_of_ne (different : mp ≠ stored.profile) :
    storedIn (history ++ [stored]) mp = storedIn history mp := by
  rw [storedIn, List.filter_append, List.filter_singleton, decide_eq_false (Ne.symm different)]
  exact List.append_nil _

theorem usesIn_append_self (history : List Stored) (stored : Stored) :
    usesIn (history ++ [stored]) stored.profile =
      usesIn history stored.profile ++ stored.frames.toList := by
  rw [usesIn, storedIn_append_self, List.filterMap_append]
  cases isFrames : stored.frames with
  | none => rw [List.filterMap_cons_none isFrames]; rfl
  | some frames => rw [List.filterMap_cons_some isFrames]; rfl

theorem usesIn_append_of_ne (different : mp ≠ stored.profile) :
    usesIn (history ++ [stored]) mp = usesIn history mp := by
  rw [usesIn, storedIn_append_of_ne different]
  rfl

/-- The number of a record does not change when more records are stored. -/
theorem number_append (member : stored ∈ storedIn history mp) (more : List (List UInt64))
    (atMostOne : more.length ≤ 1) :
    stored.number (usesIn history mp ++ more) = stored.number (usesIn history mp) := by
  unfold Stored.number
  cases isFrames : stored.frames with
  | none => rfl
  | some frames =>
      have used : frames ∈ usesIn history mp := List.mem_filterMap.mpr ⟨stored, member, isFrames⟩
      cases more with
      | nil => rw [List.append_nil]
      | cons last none =>
          cases none with
          | nil => exact stackNumber_append used last
          | cons _ _ => exact absurd atMostOne (by simp)

/-- The uses of one profile are among all uses. -/
theorem length_usesIn_le (history : List Stored) (mp : Nat) :
    (usesIn history mp).length ≤ (history.filterMap Stored.frames).length :=
  (List.filter_sublist.filterMap Stored.frames).length_le

end Histories

section Calls

variable {prof prof' : Profiler} {history : List Stored} {mp tid : Nat} {mpr : MprofileRecord}
  {mps : Option MprofileStack} {answer : Answer}

/-- The profile of the thread, which is created with the first call. -/
theorem getMprofile_recordGranted (granted : RecordGranted answer) {found : Profiler × Nat}
    (isFound : prof.getMprofile tid answer = .ok found) :
    (prof.specific tid ≠ 0 ∧ found = (prof, prof.specific tid)) ∨
      prof.specific tid = 0 ∧ Exists fun startTime => found =
        ({ prof with
            startTimeTv := startTime
            mprofile := Function.update prof.mprofile prof.mprofileTop ⟨[], prof.stackHeap.stsetTop⟩
            mprofileTop := prof.mprofileTop + 1
            stackHeap := (mprofileCreateStset prof.stackHeap true).1
            profiles := prof.profiles ++ [prof.mprofileTop]
            specific := Function.update prof.specific tid prof.mprofileTop },
              prof.mprofileTop) := by
  rw [Profiler.getMprofile] at isFound
  by_cases unknown : prof.specific tid = 0
  · rw [if_pos unknown, Profiler.mprofileCreate] at isFound
    simp only [if_pos granted.createOk, granted.stsetOk] at isFound
    refine Or.inr ⟨unknown, ?_⟩
    split at isFound
    · split at isFound
      · cases isFound
      · cases isFound
        exact ⟨_, rfl⟩
    · split at isFound
      · cases isFound
      · cases isFound
        exact ⟨_, rfl⟩
  · rw [if_neg unknown] at isFound
    cases isFound
    exact Or.inl ⟨unknown, rfl⟩

theorem Filed.getMprofile (filed : Filed prof history) (granted : RecordGranted answer)
    {found : Profiler × Nat} (isFound : prof.getMprofile tid answer = .ok found) :
    Filed found.1 history ∧ found.2 ∈ found.1.profiles ∧ found.1.specific tid = found.2 := by
  rcases getMprofile_recordGranted granted isFound with ⟨known, rfl⟩ | ⟨unknown, startTime, rfl⟩
  · exact ⟨filed, filed.specific tid known, rfl⟩
  · have created := filed.heap.createStset
    have older : forall mp, mp ∈ prof.profiles -> mp ≠ prof.mprofileTop :=
      fun mp member => Nat.ne_of_lt (filed.handles mp member).2
    have sameProfile : forall mp, mp ∈ prof.profiles ->
        Function.update prof.mprofile prof.mprofileTop ⟨[], prof.stackHeap.stsetTop⟩ mp =
          prof.mprofile mp :=
      fun mp member => Function.update_of_ne (older mp member) _ _
    have unused : storedIn history prof.mprofileTop = [] := by
      rw [storedIn, List.filter_eq_nil_iff]
      intro stored member isNew
      exact older _ (filed.known stored member).1 (of_decide_eq_true isNew)
    have member_iff : forall mp, mp ∈ prof.profiles ++ [prof.mprofileTop] ↔
        mp ∈ prof.profiles ∨ mp = prof.mprofileTop := by
      intro mp
      rw [List.mem_append, List.mem_singleton]
    refine ⟨⟨created.1, Nat.succ_pos _, Nat.succ_pos _, ?_, ?_, ?_, ?_, ?_, ?_, filed.ids, ?_, ?_⟩,
      List.mem_append_right _ (List.mem_singleton.mpr rfl), Function.update_self _ _ _⟩
    · refine List.nodup_append.mpr ⟨filed.profiles, List.nodup_singleton _, ?_⟩
      intro mp member other isNew same
      exact older mp member (same.trans (List.mem_singleton.mp isNew))
    · intro mp member
      rcases (member_iff mp).mp member with old | rfl
      · exact ⟨(filed.handles mp old).1, Nat.lt_succ_of_lt (filed.handles mp old).2⟩
      · exact ⟨filed.mprofileTop, Nat.lt_succ_self _⟩
    · intro other
      simp only
      by_cases here : other = tid
      · subst here
        rw [Function.update_self]
        exact fun _ => (member_iff _).mpr (Or.inr rfl)
      · rw [Function.update_of_ne here]
        exact fun known => (member_iff _).mpr (Or.inl (filed.specific other known))
    · intro mp member
      simp only
      rcases (member_iff mp).mp member with old | rfl
      · rw [sameProfile mp old]
        exact ⟨(filed.stsets mp old).1, Nat.lt_succ_of_lt (filed.stsets mp old).2⟩
      · rw [Function.update_self]
        exact ⟨filed.stsetTop, Nat.lt_succ_self _⟩
    · intro mp other isMp isOther
      simp only
      rcases (member_iff mp).mp isMp with oldMp | rfl
      · rw [sameProfile mp oldMp]
        rcases (member_iff other).mp isOther with oldOther | rfl
        · rw [sameProfile other oldOther]
          exact filed.stsetOnce mp other oldMp oldOther
        · rw [Function.update_self]
          intro same
          have below := (filed.stsets mp oldMp).2
          exact absurd same (Nat.ne_of_lt below)
      · rcases (member_iff other).mp isOther with oldOther | rfl
        · rw [sameProfile other oldOther, Function.update_self]
          intro same
          have below := (filed.stsets other oldOther).2
          exact absurd same.symm (Nat.ne_of_lt below)
        · exact fun _ => rfl
    · intro stored member
      exact ⟨(member_iff _).mpr (Or.inl (filed.known stored member).1),
        (filed.known stored member).2⟩
    · intro mp member
      simp only
      rcases (member_iff mp).mp member with old | rfl
      · rw [sameProfile mp old]
        exact filed.queues mp old
      · rw [Function.update_self, unused]
        rfl
    · intro mp member
      simp only
      rcases (member_iff mp).mp member with old | rfl
      · rw [sameProfile mp old]
        exact (created.2.2 _ (Nat.ne_of_lt (filed.stsets mp old).2)).filedSet (filed.sets mp old)
      · rw [Function.update_self, usesIn, unused]
        exact created.2.1

/-- A record is appended to a profile, and nothing else of the profiles changes. -/
structure Appended (prof prof' : Profiler) (mp : Nat) (mpr : MprofileRecord) : Prop where
  queue : (prof'.mprofile mp).mpTqhead = (prof.mprofile mp).mpTqhead ++ [mpr]
  stset : forall other, (prof'.mprofile other).mpStset = (prof.mprofile other).mpStset
  others : forall other, other ≠ mp -> prof'.mprofile other = prof.mprofile other
  handles : prof'.mprofileTop = prof.mprofileTop ∧ prof'.profiles = prof.profiles ∧
    prof'.specific = prof.specific
  drawn : mpr.mprId = prof.mprId + 1 ∧ prof'.mprId = prof.mprId + 1

/-- A record that is appended with its number. -/
theorem Filed.appended (filed : Filed prof history) (isProfile : mp ∈ prof.profiles)
    (appended : Appended prof prof' mp mpr) (frames : Option (List UInt64))
    (heap : FiledHeap prof'.stackHeap)
    (stsetTop : prof'.stackHeap.stsetTop = prof.stackHeap.stsetTop)
    (own : FiledSet prof'.stackHeap (prof.mprofile mp).mpStset (usesIn history mp ++ frames.toList))
    (elsewhere : forall t, t ≠ (prof.mprofile mp).mpStset ->
      SameSet prof.stackHeap prof'.stackHeap t)
    (number : mpr.mprStackId = (Stored.mk mp mpr.mprId frames).number
      (usesIn history mp ++ frames.toList)) :
    Filed prof' (history ++ [⟨mp, mpr.mprId, frames⟩]) := by
  have sameProfiles := appended.handles.2.1
  have ownUses : usesIn (history ++ [⟨mp, mpr.mprId, frames⟩]) mp =
      usesIn history mp ++ frames.toList :=
    usesIn_append_self history ⟨mp, mpr.mprId, frames⟩
  have ownStored : storedIn (history ++ [⟨mp, mpr.mprId, frames⟩]) mp =
      storedIn history mp ++ [⟨mp, mpr.mprId, frames⟩] :=
        storedIn_append_self history ⟨mp, mpr.mprId, frames⟩
  have atMostOne : frames.toList.length ≤ 1 := by
    cases frames with
    | none => exact Nat.zero_le 1
    | some _ => exact Nat.le_refl 1
  refine ⟨heap, ?_, ?_, ?_, ?_, ?_, ?_, ?_, ?_, ?_, ?_, ?_⟩
  · rw [stsetTop]
    exact filed.stsetTop
  · rw [appended.handles.1]
    exact filed.mprofileTop
  · rw [sameProfiles]
    exact filed.profiles
  · rw [sameProfiles, appended.handles.1]
    exact filed.handles
  · rw [appended.handles.2.2, sameProfiles]
    exact filed.specific
  · intro other member
    rw [sameProfiles] at member
    rw [appended.stset, stsetTop]
    exact filed.stsets other member
  · intro first second
    rw [sameProfiles, appended.stset, appended.stset]
    exact filed.stsetOnce first second
  · intro stored member
    rw [sameProfiles, appended.drawn.2]
    rcases List.mem_append.mp member with old | last
    · exact ⟨(filed.known stored old).1, Nat.le_succ_of_le (filed.known stored old).2⟩
    · rw [List.mem_singleton.mp last]
      exact ⟨isProfile, Nat.le_of_eq appended.drawn.1⟩
  · rw [List.map_append, List.map_singleton]
    refine List.nodup_append.mpr ⟨filed.ids, List.nodup_singleton _, ?_⟩
    intro id member other isLast same
    rcases List.mem_map.mp member with ⟨stored, old, rfl⟩
    have bound := (filed.known stored old).2
    rw [List.mem_singleton.mp isLast, appended.drawn.1] at same
    simp only at same
    omega
  · intro other member
    rw [sameProfiles] at member
    by_cases here : other = mp
    · subst here
      rw [appended.queue, ownStored, ownUses, List.map_append, List.map_append, List.map_singleton,
        List.map_singleton, ← number, filed.queues other member]
      congr 1
      apply List.map_congr_left
      intro stored isStored
      rw [number_append isStored _ atMostOne]
    · rw [appended.others other here, storedIn_append_of_ne here, usesIn_append_of_ne here]
      exact filed.queues other member
  · intro other member
    rw [sameProfiles] at member
    rw [appended.stset]
    by_cases here : other = mp
    · subst here
      rw [ownUses]
      exact own
    · rw [usesIn_append_of_ne here]
      refine (elsewhere _ ?_).filedSet (filed.sets other member)
      exact fun same => here (filed.stsetOnce other mp member isProfile same)

theorem appended_enqueue (prof : Profiler) (mp : Nat) (mpr : MprofileRecord) :
    Appended prof (prof.enqueue mp mpr) mp { mpr with mprId := prof.mprId + 1 } := by
  have own : (prof.enqueue mp mpr).mprofile mp =
      { prof.mprofile mp with
        mpTqhead := (prof.mprofile mp).mpTqhead ++ [{ mpr with mprId := prof.mprId + 1 }] } :=
    Function.update_self _ _ _
  have others : forall other, other ≠ mp ->
      (prof.enqueue mp mpr).mprofile other = prof.mprofile other :=
    fun other different => Function.update_of_ne different _ _
  refine ⟨by rw [own], fun other => ?_, others, ⟨rfl, rfl, rfl⟩, ⟨rfl, rfl⟩⟩
  by_cases here : other = mp
  · subst here
    rw [own]
  · rw [others other here]

/-- Giving the last record its stack id. -/
theorem Appended.setStackId (appended : Appended prof prof' mp mpr)
    (older : forall earlier, earlier ∈ (prof.mprofile mp).mpTqhead -> earlier.mprId ≤ prof.mprId)
    (heap : StackHeap) (stackId : Nat) :
    Appended prof ({ prof' with stackHeap := heap }.setStackId mp mpr.mprId stackId) mp
      { mpr with mprStackId := stackId } := by
  have own : ({ prof' with stackHeap := heap }.setStackId mp mpr.mprId stackId).mprofile mp =
      { prof'.mprofile mp with
        mpTqhead := (prof'.mprofile mp).mpTqhead.map
          (fun record => if record.mprId = mpr.mprId then { record with mprStackId := stackId }
              else record) } :=
    Function.update_self _ _ _
  have others : forall other, other ≠ mp ->
      ({ prof' with stackHeap := heap }.setStackId mp mpr.mprId stackId).mprofile other =
        prof'.mprofile other :=
    fun other different => Function.update_of_ne different _ _
  refine ⟨?_, fun other => ?_, fun other different => ?_, appended.handles, appended.drawn⟩
  · rw [own, appended.queue]
    simp only [List.map_append, List.map_singleton, if_true]
    congr 1
    refine (List.map_congr_left (fun earlier member => ?_)).trans (List.map_id _)
    have bound := older earlier member
    have drawn := appended.drawn.1
    rw [if_neg (by omega)]
    rfl
  · by_cases here : other = mp
    · subst here
      rw [own]
      exact appended.stset other
    · rw [others other here]
      exact appended.stset other
  · rw [others other different]
    exact appended.others other different

/-- The records of a profile have ids that were drawn. -/
theorem Filed.drawn (filed : Filed prof history) (isProfile : mp ∈ prof.profiles)
    (earlier : MprofileRecord) (member : earlier ∈ (prof.mprofile mp).mpTqhead) :
    earlier.mprId ≤ prof.mprId := by
  have pair : (earlier.mprId, earlier.mprStackId) ∈
      (storedIn history mp).map
          (fun stored => (stored.mprId, stored.number (usesIn history mp))) := by
    rw [← filed.queues mp isProfile]
    exact List.mem_map_of_mem member
  rcases List.mem_map.mp pair with ⟨stored, isStored, same⟩
  rw [← (Prod.mk.inj same).1]
  exact (filed.known stored (List.mem_filter.mp isStored).1).2

theorem append_drawn (appended : prof.append mp mpr mps answer = .ok prof') :
    prof'.mprId = prof.mprId + 1 ∧ prof'.specific = prof.specific := by
  cases mps with
  | none =>
      cases appended
      exact ⟨rfl, rfl⟩
  | some stack =>
      rw [Profiler.append, Profiler.addStack] at appended
      split at appended
      · cases appended
        exact ⟨rfl, rfl⟩
      · cases appended

/-- A record call that appends. -/
theorem Filed.append (filed : Filed prof history) (isProfile : mp ∈ prof.profiles)
    (blank : mpr.mprStackId = 0)
    (captured : forall stack, mps = some stack -> StackSystem.captured stack)
    (granted : RecordGranted answer)
    (few : FewStacked (history ++ [⟨mp, prof.mprId + 1, mps.map MprofileStack.frames⟩]))
    (appended : prof.append mp mpr mps answer = .ok prof') :
    Filed prof' (history ++ [⟨mp, prof.mprId + 1, mps.map MprofileStack.frames⟩]) := by
  have enqueued := appended_enqueue prof mp mpr
  cases mps with
  | none =>
      cases appended
      refine filed.appended isProfile enqueued none filed.heap rfl ?_
        (fun t _ => ⟨rfl, fun _ _ => rfl⟩)
        blank
      rw [Option.toList_none, List.append_nil]
      exact filed.sets mp isProfile
  | some stack =>
      rw [Profiler.append, Profiler.addStack] at appended
      have sameHeap : (prof.enqueue mp mpr).stackHeap = prof.stackHeap := rfl
      rw [sameHeap, enqueued.stset] at appended
      have room : (usesIn history mp).length + 2 < 2 ^ 32 := by
        have bound := length_usesIn_le history mp
        rw [FewStacked, List.filterMap_append, List.length_append] at few
        have one : (List.filterMap Stored.frames
            [⟨mp, prof.mprId + 1, Option.map MprofileStack.frames (some stack)⟩]).length = 1 := rfl
        rw [one] at few
        omega
      have files := (filed.sets mp isProfile).added filed.heap
        (Nat.ne_of_gt (filed.stsets mp isProfile).1) (captured stack rfl) granted.copied room
      split at appended
      · cases appended
        have named := enqueued.setStackId (filed.drawn isProfile)
          (mprofileAddStack prof.stackHeap (prof.mprofile mp).mpStset stack answer.copyBlock).1
          (mprofileGetStackId
            (mprofileAddStack prof.stackHeap (prof.mprofile mp).mpStset stack answer.copyBlock).1
            (mprofileAddStack prof.stackHeap (prof.mprofile mp).mpStset stack answer.copyBlock).2)
        exact filed.appended isProfile named (some stack.frames) files.inv files.stsetTop
          files.filed
          files.elsewhere files.id
      · cases appended

/-- One record call. -/
theorem Filed.next (filed : Filed prof history) {call : RecordCall}
    (few : FewStacked (noteStored history prof call prof')) (stepped : call.next prof = .ok prof') :
    Filed prof' (noteStored history prof call prof') := by
  rw [RecordCall.next] at stepped
  cases isFound : prof.getMprofile call.tid call.answer with
  | error fault => rw [isFound] at stepped; cases stepped
  | ok found =>
      rw [isFound] at stepped
      simp only [ok_bind] at stepped
      have own := filed.getMprofile call.granted isFound
      rw [noteStored] at few ⊢
      cases isOp : call.op with
      | none =>
          rw [isOp] at stepped
          cases stepped
          exact own.1
      | some op =>
          rw [isOp] at stepped few
          rw [Option.map_some, Profiler.log, if_pos call.granted.recordOk] at stepped
          have drawn := append_drawn stepped
          simp only at few ⊢
          rw [drawn.1, drawn.2, own.2.2] at few ⊢
          refine own.1.append own.2.1 ?_ call.captured call.granted few stepped
          cases op <;> rfl

end Calls

/-! ## Runs -/

theorem filed_init : Filed World.init.prof [] := by
  refine ⟨⟨stacksWf_empty, fun s p member => absurd member List.not_mem_nil⟩, Nat.one_pos,
    Nat.one_pos,
    List.nodup_nil, ?_, ?_, ?_, ?_, ?_, List.nodup_nil, ?_, ?_⟩
  · exact fun mp member => absurd member List.not_mem_nil
  · exact fun tid known => absurd rfl known
  · exact fun mp member => absurd member List.not_mem_nil
  · exact fun mp other member => absurd member List.not_mem_nil
  · exact fun stored member => absurd member List.not_mem_nil
  · exact fun mp member => absurd member List.not_mem_nil
  · exact fun mp member => absurd member List.not_mem_nil

theorem fewStacked_of_noteStored {history : List Stored} {prof after : Profiler} {call : RecordCall}
    (few : FewStacked (noteStored history prof call after)) : FewStacked history := by
  rw [noteStored] at few
  cases isOp : call.op with
  | none =>
      rw [isOp] at few
      exact few
  | some op =>
      rw [isOp] at few
      simp only [FewStacked, List.filterMap_append, List.length_append] at few ⊢
      omega

/-- After any run the history determines what the profiles hold. -/
theorem filed_recordCalls {calls : List RecordCall} {prof : Profiler} {history : List Stored}
    (executed : recordCalls calls = .ok (prof, history)) (few : FewStacked history) :
    Filed prof history := by
  refine exec_invariant_all (fun both : Profiler × List Stored => FewStacked both.2 ->
      Filed both.1 both.2)
    (fun both call after inv stepped few => ?_) (fun _ => filed_init) executed few
  rcases both with ⟨prof, history⟩
  rcases withHistory_ok stepped with ⟨inner, noted⟩
  rw [noted] at few ⊢
  exact (inv (fewStacked_of_noteStored few)).next few inner

end Mprofile
end OsslScripts
