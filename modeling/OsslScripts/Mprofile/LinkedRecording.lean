import OsslScripts.Mprofile.LinkedDocument
import OsslScripts.Mprofile.Sequential

namespace OsslScripts
namespace Mprofile

open Foundation
open Utils

/-!
# Recording on linked structures

Each thread gets its profile, and appends its records to the queue of it.  Whatever the
threads record, in whatever order they call, the structures in memory are those of the
profiler on lists.  Saving them then gives what saving the lists gives.
-/

/-- What a recording function is called with. -/
inductive LogEntry where
  | alloc (buf bufSz : UInt64)
  | free (buf sz : UInt64)
  | realloc (buf bufSz origSz oldBuf : UInt64)

/-- The record that it makes. -/
def LogEntry.record : LogEntry -> MprofileRecord
  | .alloc buf bufSz => allocRecord buf bufSz
  | .free buf sz => freeRecord buf sz
  | .realloc buf bufSz origSz oldBuf => reallocRecord buf bufSz origSz oldBuf

/-- A thread logs something. -/
structure LogCall where
  tid : Nat
  logged : LogEntry
  mps : Option MprofileStack
  answer : Answer

/-- A call on linked structures. -/
def LogCall.perform (fuel : Nat) (call : LogCall) : RecordM Unit := do
  let mp ← Linked.getMprofile call.tid call.answer
  Linked.mprofileRecord fuel mp call.logged.record call.mps call.answer

/-- A call on lists. -/
def logNext (prof : Profiler) (call : LogCall) : Except HookFault Profiler := do
  let created ← prof.getMprofile call.tid call.answer
  created.1.log created.2 (some call.logged.record) call.mps call.answer

/-- A call on linked structures, as a step. -/
def linkedLogNext (fuel : Nat) (s : LinkedRecords) (call : LogCall) :
    Except RecordStop LinkedRecords :=
  (call.perform fuel s).map Prod.snd

/-! ## Profiles and records as they are made -/

/-- The profiler while it records. -/
structure Underway (prof : Profiler) : Prop where
  orderly : Orderly prof
  ids : forall mp mpr, mpr ∈ (prof.mprofile mp).mpTqhead -> mpr.mprId ≤ prof.mprId
  blank : forall mp, prof.mprofileTop ≤ mp -> prof.mprofile mp = ⟨[], 0⟩
  positive : 0 < prof.mprofileTop
  profiles : forall mp, mp ∈ prof.profiles -> mp < prof.mprofileTop
  specific : forall tid, prof.specific tid < prof.mprofileTop
  numbered : forall s p, p ∈ (prof.stackHeap.stset s).stsetIdRbh ->
    prof.stackHeap.idOf p < (prof.stackHeap.stset s).stsetId
  bounded : forall s, (prof.stackHeap.stset s).stsetId ≤ prof.stackHeap.mpsTop

/-- The structures in memory, and what the next blocks of memory are. -/
structure Linking (s : LinkedRecords) (prof : Profiler) (queues : TailQueues) : Prop where
  reflects : Reflects s prof queues
  mprId : s.mprId = prof.mprId
  mpTop : s.mpTop = prof.mprofileTop
  specific : s.specific = prof.specific
  positive : 0 < s.mprTop
  fresh : forall mp q, q ∈ queues mp -> q < s.mprTop

section Creating

variable {s : LinkedRecords} {prof : Profiler} {queues : TailQueues} {answer : Answer}

/-- TailQueues whose records have not been written to. -/
theorem Reflects.untouched (reflects : Reflects s prof queues) {mpr : Nat -> MprofileRecord}
    {mp : Nat}
    (others : forall q, q ∈ queues mp -> mpr q = s.mpr q) :
    (queues mp).map mpr = (prof.mprofile mp).mpTqhead := by
  rw [← reflects.records mp]
  exact List.map_congr_left others

/-- Whether there is a new set, and what it holds. -/
theorem stset_create (heap : StackHeap) (ok : Bool) (t : Nat) :
    (mprofileCreateStset heap ok).1.stset t = heap.stset t ∨
      (mprofileCreateStset heap ok).1.stset t = ⟨1, [], []⟩ ∧ t = heap.stsetTop := by
  cases ok with
  | false => exact Or.inl rfl
  | true =>
      by_cases here : t = heap.stsetTop
      · subst here
        exact Or.inr ⟨Function.update_self _ _ _, rfl⟩
      · exact Or.inl (Function.update_of_ne here _ _)

/-- A new set is the next one, or there is none. -/
theorem create_cases (heap : StackHeap) (ok : Bool) :
    ((mprofileCreateStset heap ok).2 = 0 ∧
      (mprofileCreateStset heap ok).1.stsetTop = heap.stsetTop) ∨
      ((mprofileCreateStset heap ok).2 = heap.stsetTop ∧
        (mprofileCreateStset heap ok).1.stsetTop = heap.stsetTop + 1) := by
  cases ok with
  | false => exact Or.inl ⟨rfl, rfl⟩
  | true => exact Or.inr ⟨rfl, rfl⟩

theorem mps_create (heap : StackHeap) (ok : Bool) :
    (mprofileCreateStset heap ok).1.mps = heap.mps ∧
      (mprofileCreateStset heap ok).1.mpsTop = heap.mpsTop := by
  cases ok <;> exact ⟨rfl, rfl⟩

/-- The profiler after the start of the time axis was set. -/
def Profiler.started (prof : Profiler) (answer : Answer) : Profiler :=
  if prof.startTimeTv.tvSec = 0 then { prof with startTimeTv := answer.startTime } else prof

/-- The profiler with a profile for the thread. -/
def Profiler.opened (prof : Profiler) (tid : Nat) (answer : Answer) : Profiler :=
  let mp := prof.mprofileTop
  let created := mprofileCreateStset prof.stackHeap answer.stsetOk
  { prof with
    mprofile := Function.update prof.mprofile mp ⟨[], created.2⟩
    mprofileTop := mp + 1
    profiles := prof.profiles ++ [mp]
    specific := Function.update prof.specific tid mp
    stackHeap := created.1 }

theorem Profiler.opened_self (prof : Profiler) (tid : Nat) (answer : Answer) :
    (prof.opened tid answer).mprofile prof.mprofileTop =
      ⟨[], (mprofileCreateStset prof.stackHeap answer.stsetOk).2⟩ := Function.update_self _ _ _

theorem Profiler.opened_of_ne {mp : Nat} (old : mp ≠ prof.mprofileTop) (tid : Nat)
    (answer : Answer) :
    (prof.opened tid answer).mprofile mp = prof.mprofile mp := Function.update_of_ne old _ _

theorem Profiler.mprofileTop_started (prof : Profiler) (answer : Answer) :
    (prof.started answer).mprofileTop = prof.mprofileTop := by
  rw [Profiler.started]
  split_ifs <;> rfl

theorem getMprofile_eq (positive : 0 < prof.mprofileTop) (tid : Nat) (answer : Answer) :
    prof.getMprofile tid answer =
      if prof.specific tid = 0 then
        if answer.createOk then .ok ((prof.started answer).opened tid answer,
          (prof.started answer).mprofileTop)
        else .error .nullDereference
      else .ok (prof, prof.specific tid) := by
  have nonzero : ¬ (prof.started answer).mprofileTop = 0 := by
    rw [prof.mprofileTop_started]
    exact positive.ne'
  rw [Profiler.getMprofile]
  by_cases unknown : prof.specific tid = 0
  · rw [if_pos unknown, if_pos unknown]
    cases granted : answer.createOk with
    | false =>
        simp only [Profiler.mprofileCreate, granted, Bool.false_eq_true, if_false, if_true]
    | true =>
        simp only [Profiler.mprofileCreate, granted, if_true]
        rw [if_neg
          (show ¬ (if prof.startTimeTv.tvSec = 0 then { prof with startTimeTv := answer.startTime }
          else prof).mprofileTop = 0 from nonzero)]
        rfl
  · rw [if_neg unknown, if_neg unknown]

theorem Underway.started (underway : Underway prof) (answer : Answer) :
    Underway (prof.started answer) := by
  rw [Profiler.started]
  split_ifs
  · have orderly := underway.orderly
    exact ⟨⟨orderly.sound, orderly.accounted, orderly.whole, orderly.nullSet, orderly.created,
      orderly.own,
      orderly.listed⟩, underway.ids, underway.blank, underway.positive, underway.profiles,
      underway.specific,
      underway.numbered, underway.bounded⟩
  · exact underway

theorem Linking.started (linking : Linking s prof queues) (answer : Answer) : Exists fun s' =>
    Runs (Linked.startTime answer) s () s' ∧ Linking s' (prof.started answer) queues := by
  refine ⟨_, runs_modify _ s, ?_⟩
  have reflects := linking.reflects
  rw [Profiler.started, ← reflects.startTimeTv]
  split_ifs
  · exact ⟨⟨reflects.embodies, reflects.holds, reflects.records, reflects.sets, reflects.shows,
      reflects.plants, rfl,
      reflects.noMaster, reflects.freedMpr, reflects.freedMp⟩, linking.mprId, linking.mpTop,
      linking.specific,
      linking.positive, linking.fresh⟩
  · exact linking

/-- A thread without a profile gets a new one. -/
theorem Underway.opened (underway : Underway prof) (tid : Nat) (answer : Answer) :
    Underway (prof.opened tid answer) := by
  have orderly := underway.orderly
  have cases := create_cases prof.stackHeap answer.stsetOk
  have mps := mps_create prof.stackHeap answer.stsetOk
  have top : 0 < prof.stackHeap.stsetTop := Nat.zero_lt_of_lt (orderly.created 0)
  have profileAt : forall mp, (mp = prof.mprofileTop ∧ (prof.opened tid answer).mprofile mp =
      ⟨[], (mprofileCreateStset prof.stackHeap answer.stsetOk).2⟩) ∨
      (mp ≠ prof.mprofileTop ∧ (prof.opened tid answer).mprofile mp = prof.mprofile mp) := by
    intro mp
    by_cases new : mp = prof.mprofileTop
    · exact Or.inl ⟨new, by rw [new, prof.opened_self]⟩
    · exact Or.inr ⟨new, Profiler.opened_of_ne new tid answer⟩
  refine ⟨⟨sound_create orderly.sound _, accounted_create orderly.accounted _, fun t => ?_, ?_,
    fun mp => ?_,
    fun mp other different valid => ?_, fun t positive below => ?_⟩, fun mp mpr member => ?_,
    fun mp beyond => ?_,
    Nat.succ_pos _, fun mp member => ?_, fun other => ?_, fun t p member => ?_, fun t => ?_⟩
  · rcases stset_create prof.stackHeap answer.stsetOk t with same | ⟨new, -⟩
    · exact (orderly.whole t).same same
    · intro p member
      rw [StackHeap.members, Profiler.opened, new] at member
      cases member
  · rcases stset_create prof.stackHeap answer.stsetOk 0 with same | ⟨new, -⟩
    · rw [Profiler.opened, same]
      exact orderly.nullSet
    · rw [Profiler.opened, new]
      exact ⟨rfl, rfl⟩
  · have below := orderly.created mp
    change _ < (mprofileCreateStset prof.stackHeap answer.stsetOk).1.stsetTop
    rcases profileAt mp with ⟨-, isNew⟩ | ⟨-, same⟩
    · rw [isNew]
      simp only
      omega
    · rw [same]
      omega
  · have belowMp := orderly.created mp
    have belowOther := orderly.created other
    rcases profileAt mp with ⟨first, isNew⟩ | ⟨-, same⟩
    · rcases profileAt other with ⟨second, -⟩ | ⟨-, sameOther⟩
      · exact absurd (first.trans second.symm) different
      · rw [isNew] at valid ⊢
        rw [sameOther]
        simp only at valid ⊢
        omega
    · rcases profileAt other with ⟨-, isNew⟩ | ⟨-, sameOther⟩
      · rw [same] at valid ⊢
        rw [isNew]
        simp only
        omega
      · rw [same] at valid ⊢
        rw [sameOther]
        exact orderly.own mp other different valid
  · have known : t < prof.stackHeap.stsetTop ->
        Exists fun mp => mp ∈ (prof.opened tid answer).profiles ∧
        ((prof.opened tid answer).mprofile mp).mpStset = t := by
      intro old
      rcases orderly.listed t positive old with ⟨mp, member, isSet⟩
      refine ⟨mp, List.mem_append_left _ member, ?_⟩
      rcases profileAt mp with ⟨isNew, -⟩ | ⟨-, same⟩
      · exact absurd (underway.profiles mp member) (by rw [isNew]; exact Nat.lt_irrefl _)
      · rw [same, isSet]
    have ends : t < (mprofileCreateStset prof.stackHeap answer.stsetOk).1.stsetTop := below
    by_cases old : t < prof.stackHeap.stsetTop
    · exact known old
    · refine ⟨prof.mprofileTop, List.mem_append_right _ List.mem_cons_self, ?_⟩
      rw [prof.opened_self]
      rcases cases with ⟨-, sameTop⟩ | ⟨isNew, grown⟩
      · exact absurd (sameTop ▸ ends) old
      · rw [grown] at ends
        exact isNew.trans (Nat.le_antisymm (Nat.not_lt.mp old) (Nat.le_of_lt_succ ends))
  · rcases profileAt mp with ⟨-, isNew⟩ | ⟨-, same⟩
    · rw [isNew] at member
      cases member
    · rw [same] at member
      exact underway.ids mp mpr member
  · have later : prof.mprofileTop ≤ mp := Nat.le_of_succ_le beyond
    have different : mp ≠ prof.mprofileTop := Nat.ne_of_gt beyond
    rcases profileAt mp with ⟨isNew, -⟩ | ⟨-, same⟩
    · exact absurd isNew different
    · rw [same]
      exact underway.blank mp later
  · rcases List.mem_append.mp member with old | new
    · exact Nat.lt_succ_of_lt (underway.profiles mp old)
    · rw [List.mem_singleton.mp new]
      exact Nat.lt_succ_self _
  · change Function.update prof.specific tid prof.mprofileTop other < prof.mprofileTop + 1
    by_cases own : other = tid
    · rw [own, Function.update_self]
      exact Nat.lt_succ_self _
    · rw [Function.update_of_ne own]
      exact Nat.lt_succ_of_lt (underway.specific other)
  · rcases stset_create prof.stackHeap answer.stsetOk t with same | ⟨new, -⟩
    · rw [Profiler.opened] at member ⊢
      simp only at member ⊢
      rw [same] at member ⊢
      rw [StackHeap.idOf, mps.1]
      exact underway.numbered t p member
    · rw [Profiler.opened] at member
      simp only at member
      rw [new] at member
      cases member
  · change ((mprofileCreateStset prof.stackHeap answer.stsetOk).1.stset t).stsetId ≤
      (mprofileCreateStset prof.stackHeap answer.stsetOk).1.mpsTop
    rw [mps.2]
    rcases stset_create prof.stackHeap answer.stsetOk t with same | ⟨new, -⟩
    · rw [same]
      exact underway.bounded t
    · rw [new]
      exact orderly.sound.tidy.inOrder.top

theorem Reflects.queue_blank (reflects : Reflects s prof queues) {mp : Nat}
    (blank : prof.mprofile mp = ⟨[], 0⟩) :
    queues mp = [] := by
  have records := reflects.records mp
  rw [blank] at records
  exact List.map_eq_nil_iff.mp records

theorem Linking.opened (underway : Underway prof) (linking : Linking s prof queues) (tid : Nat)
    (answer : Answer) :
    Exists fun s1 => Exists fun stset => Exists fun s2 => Exists fun s3 =>
      Runs Linked.allocateProfile s prof.mprofileTop s1 ∧
      Runs (Linked.queue (fun links => links.tailqInit prof.mprofileTop)) s1 () s2 ∧
      Runs (Linked.stsets (Linked.mprofileCreateStset answer.stsetOk)) s2 stset s3 ∧
      Linking { s3 with
        mpStset := Function.update s3.mpStset prof.mprofileTop stset
        mpTqe := s3.mpTqe.tailqInsertTail Linked.profiles prof.mprofileTop
        specific := Function.update s3.specific tid prof.mprofileTop } (prof.opened tid answer)
          queues := by
  have reflects := linking.reflects
  have orderly := underway.orderly
  rcases reflects.embodies.mprofileCreateStset answer.stsetOk with ⟨linked, ran, embodies⟩
  let mp := prof.mprofileTop
  let s1 : LinkedRecords := { s with mpTop := s.mpTop + 1 }
  let s2 : LinkedRecords := { s1 with mprTqe := s1.mprTqe.tailqInit mp }
  let s3 : LinkedRecords := { s2 with stsets := linked }
  have first : Runs Linked.allocateProfile s mp s1 := by
    have taken : Runs Linked.allocateProfile s s.mpTop s1 := rfl
    rwa [linking.mpTop] at taken
  have noRecords : queues mp = [] := reflects.queue_blank (underway.blank mp (Nat.le_refl _))
  have nonzero : mp ≠ 0 := underway.positive.ne'
  refine ⟨s1, _, s2, s3, first, runs_modify _ s1, runs_focus ran,
    ⟨embodies, ?_, fun other => ?_, fun other => ?_, ?_,
    reflects.plants, reflects.startTimeTv, reflects.noMaster, reflects.freedMpr, reflects.freedMp⟩,
    linking.mprId, ?_,
    ?_, linking.positive, linking.fresh⟩
  · have inited := reflects.holds.init mp
    rwa [← noRecords, Function.update_eq_self] at inited
  · by_cases new : other = mp
    · subst new
      rw [noRecords, prof.opened_self]
      rfl
    · rw [Profiler.opened_of_ne new]
      exact reflects.records other
  · by_cases new : other = mp
    · subst new
      rw [prof.opened_self]
      exact Function.update_self _ _ _
    · rw [Profiler.opened_of_ne new]
      exact (Function.update_of_ne new _ _).trans (reflects.sets other)
  · exact shows_tailqInsertTail reflects.shows nonzero
      (fun member => Nat.lt_irrefl _ (underway.profiles mp member))
  · change s.mpTop + 1 = mp + 1
    rw [linking.mpTop]
  · change Function.update s.specific tid mp = Function.update prof.specific tid mp
    rw [linking.specific]

/-- `get_mprofile` -/
theorem Linking.getMprofile (underway : Underway prof) (linking : Linking s prof queues) (tid : Nat)
    (answer : Answer) :
    match prof.getMprofile tid answer with
    | .ok result => (Exists fun s' => Runs (Linked.getMprofile tid answer) s result.2 s' ∧
        Linking s' result.1 queues) ∧ Underway result.1 ∧ result.2 ≠ 0 ∧
          result.1.stackHeap.mpsTop = prof.stackHeap.mpsTop
    | .error _ => Stops (Linked.getMprofile tid answer) s (.save .nullDereference) := by
  rw [getMprofile_eq underway.positive]
  have start : Runs (get : RecordM LinkedRecords) s s s := runs_get s
  by_cases unknown : prof.specific tid = 0
  · have unknown' : s.specific tid = 0 := by
      rw [linking.specific]
      exact unknown
    rw [if_pos unknown]
    rcases linking.started answer with ⟨s0, first, linking0⟩
    have underway0 := underway.started answer
    cases granted : answer.createOk with
    | false =>
        rw [if_neg Bool.false_ne_true]
        have creates : Runs (Linked.mprofileCreate answer) s 0 s0 := by
          refine first.bind ?_
          rw [granted, if_neg Bool.false_ne_true]
          exact runs_pure 0 s0
        refine start.then_stops ?_
        rw [if_pos unknown']
        refine creates.then_stops (Stops.bind ?_)
        rw [Linked.mprofileAdd, if_pos rfl]
        rfl
    | true =>
        rw [if_pos rfl]
        have nonzero : (prof.started answer).mprofileTop ≠ 0 := underway0.positive.ne'
        rcases linking0.opened underway0 tid answer with
          ⟨s1, stset, s2, s3, allocates, inits, creates, linking'⟩
        let mp := (prof.started answer).mprofileTop
        let s4 : LinkedRecords := { s3 with mpStset := Function.update s3.mpStset mp stset }
        let s5 : LinkedRecords := { s4 with mpTqe := s4.mpTqe.tailqInsertTail Linked.profiles mp }
        have second : Runs (Linked.mprofileCreate answer) s mp s4 := by
          refine first.bind ?_
          rw [granted, if_pos rfl]
          exact allocates.bind
            (inits.bind (creates.bind ((runs_modify _ s3).bind (runs_pure mp s4))))
        have third : Runs (Linked.mprofileAdd mp) s4 () s5 := by
          rw [Linked.mprofileAdd, if_neg nonzero]
          exact runs_modify _ s4
        refine ⟨⟨_, start.bind ?_, linking'⟩, underway0.opened tid answer, nonzero, ?_⟩
        · rw [if_pos unknown']
          exact second.bind (third.bind ((runs_modify _ s5).bind (runs_pure mp _)))
        · refine (mps_create _ answer.stsetOk).2.trans ?_
          rw [Profiler.started]
          split_ifs <;> rfl
  · have known : ¬ s.specific tid = 0 := by
      rw [linking.specific]
      exact unknown
    rw [if_neg unknown]
    refine ⟨⟨s, start.bind ?_, linking⟩, underway, unknown, rfl⟩
    rw [if_neg known, linking.specific]
    exact runs_pure _ s

end Creating

/-! ## Stacks as they are added -/

/-- The stack sets while the profiler records. -/
structure Stocked (heap : StackHeap) : Prop where
  sound : Sound heap []
  accounted : Accounted heap []
  whole : forall t, heap.Whole t
  nullSet : (heap.stset 0).stsetRbh = [] ∧ (heap.stset 0).stsetIdRbh = []
  numbered : forall s p, p ∈ (heap.stset s).stsetIdRbh -> heap.idOf p < (heap.stset s).stsetId
  bounded : forall s, (heap.stset s).stsetId ≤ heap.mpsTop

theorem Underway.stocked {prof : Profiler} (underway : Underway prof) : Stocked prof.stackHeap :=
  ⟨underway.orderly.sound, underway.orderly.accounted, underway.orderly.whole,
    underway.orderly.nullSet,
    underway.numbered, underway.bounded⟩

section Adding

variable {heap : StackHeap} {s p t : Nat} {copy : MprofileStack}

theorem Stocked.bump (stocked : Stocked heap) (p : Nat) : Stocked (heap.bump p) := by
  refine ⟨stocked.sound.bump p, stocked.accounted.sameTrees rfl rfl rfl,
    fun t => (stocked.whole t).same rfl,
    stocked.nullSet, fun s q member => ?_, stocked.bounded⟩
  rw [(bump_agree heap p q).2]
  exact stocked.numbered s q member

/-- The id tree of the set after a new stack. -/
theorem Stocked.ids_hang (stocked : Stocked heap) (next q : Nat) :
    q ∈ ((hangStack (newStack heap s copy) s heap.mpsTop next).stset s).stsetIdRbh ↔
      q = heap.mpsTop ∨ q ∈ (heap.stset s).stsetIdRbh := by
  have fresh : forall r, r ∈ (heap.stset s).stsetIdRbh ->
      (newStack heap s copy).idOf r ≠ (newStack heap s copy).idOf heap.mpsTop := by
    intro r member
    have old : r ≠ heap.mpsTop :=
      Nat.ne_of_lt (stocked.sound.tidy.inOrder.allocated s r (Or.inr member))
    rw [StackHeap.idOf, StackHeap.idOf, newStack_others heap s copy old, newStack_self]
    exact Nat.ne_of_lt (stocked.numbered s r member)
  have inserted := (OrderedTree.insert_fresh
    (fun r _ => idOrder_keyed (newStack heap s copy) heap.mpsTop r) fresh).2.1
  rw [hangStack, StackHeap.setStset_stset, Function.update_self]
  exact (inserted.mem_iff (a := q)).trans List.mem_cons

/-- A new stack. -/
theorem Stocked.hang (stocked : Stocked heap) {newMps : MprofileStack}
    {block : Option (Int -> UInt64)}
    (notInUse : heap.NotInUse block) (created : s < heap.stsetTop) (few : heap.mpsTop + 1 < 2 ^ 32)
    (valid : s ≠ 0)
    (added : (mprofileAddStack heap s newMps block).1 =
      hangStack (newStack heap s copy) s heap.mpsTop (uintSucc (heap.stset s).stsetId)) :
    Stocked (mprofileAddStack heap s newMps block).1 := by
  have bounded := stocked.bounded s
  have next : uintSucc (heap.stset s).stsetId = (heap.stset s).stsetId + 1 :=
    uintSucc_of_lt (by omega)
  have elsewhere : forall t, t ≠ s ->
      (hangStack (newStack heap s copy) s heap.mpsTop (uintSucc (heap.stset s).stsetId)).stset t =
          heap.stset t :=
    fun t different => Function.update_of_ne different _ _
  have sound : Sound (mprofileAddStack heap s newMps block).1 [] :=
    stocked.sound.mprofileAddStack notInUse
  have accounted : Accounted (mprofileAddStack heap s newMps block).1 [] :=
    stocked.accounted.mprofileAddStack stocked.sound notInUse created
  rw [added] at sound accounted ⊢
  refine ⟨sound, accounted, fun t => ?_, ?_, fun t q member => ?_, fun t => ?_⟩
  · by_cases here : t = s
    · subst here
      intro q member
      rw [stocked.ids_hang]
      have origin : q = heap.mpsTop ∨ q ∈ heap.members t := by
        rcases hangs_hang (Or.inl member) with ⟨-, same⟩ | hung
        · exact Or.inl same
        · exact Or.inr (stocked.sound.tidy.hangs hung)
      exact origin.imp_right (stocked.whole t q)
    · exact (stocked.whole t).same (elsewhere t here)
  · rw [elsewhere 0 valid.symm]
    exact stocked.nullSet
  · -- ids do not change, and the new one is the next
    have idOf : forall r, r ≠ heap.mpsTop -> (hangStack (newStack heap s copy) s heap.mpsTop
        (uintSucc (heap.stset s).stsetId)).idOf r = heap.idOf r := fun r old =>
      congrArg MprofileStack.mpsId (newStack_others heap s copy old)
    by_cases here : t = s
    · subst here
      have isNext : ((hangStack (newStack heap t copy) t heap.mpsTop
          (uintSucc (heap.stset t).stsetId)).stset t).stsetId = (heap.stset t).stsetId + 1 := by
        rw [hangStack, StackHeap.setStset_stset, Function.update_self]
        exact next
      rw [isNext]
      rcases (stocked.ids_hang _ q).mp member with rfl | old
      · have own := congrArg MprofileStack.mpsId (newStack_self heap t copy)
        exact lt_of_le_of_lt (Nat.le_of_eq own) (Nat.lt_succ_self _)
      · have different : q ≠ heap.mpsTop :=
          Nat.ne_of_lt (stocked.sound.tidy.inOrder.allocated t q (Or.inr old))
        rw [idOf q different]
        exact Nat.lt_succ_of_lt (stocked.numbered t q old)
    · rw [elsewhere t here] at member ⊢
      have different : q ≠ heap.mpsTop :=
        Nat.ne_of_lt (stocked.sound.tidy.inOrder.allocated t q (Or.inr member))
      rw [idOf q different]
      exact stocked.numbered t q member
  · change _ ≤ heap.mpsTop + 1
    by_cases here : t = s
    · subst here
      rw [hangStack, StackHeap.setStset_stset, Function.update_self]
      simp only
      omega
    · rw [elsewhere t here]
      exact Nat.le_succ_of_le (stocked.bounded t)

/-- `mprofile_add_stack` -/
theorem Stocked.mprofileAddStack (stocked : Stocked heap) {newMps : MprofileStack}
    {block : Option (Int -> UInt64)}
    (notInUse : heap.NotInUse block) (created : s < heap.stsetTop)
    (few : heap.mpsTop + 1 < 2 ^ 32) :
    Stocked (mprofileAddStack heap s newMps block).1 := by
  by_cases valid : s = 0
  · rw [Mprofile.mprofileAddStack, if_pos valid]
    exact stocked
  · rcases mprofileAddStack_cases newMps block (stocked.sound.tidy.inOrder.content s) valid with
      ⟨p, -, -, added⟩ | ⟨-, ⟨-, added⟩ | ⟨copy, -, added⟩⟩
    · rw [added]
      exact stocked.bump p
    · rw [added]
      exact stocked
    · exact stocked.hang notInUse created few valid (congrArg Prod.fst added)

end Adding

/-! ## Records as they are logged -/

/-- The profiler with one more record. -/
def Profiler.appended (prof : Profiler) (mp : Nat) (record : MprofileRecord)
    (heap : StackHeap) : Profiler :=
  { prof with
    mprId := prof.mprId + 1
    mprofile := Function.update prof.mprofile mp
      { prof.mprofile mp with mpTqhead := (prof.mprofile mp).mpTqhead ++ [record] }
    stackHeap := heap }

/-- The record under the next id. -/
def Profiler.numbered (prof : Profiler) (mpr : MprofileRecord) (answer : Answer) (stackId : Nat) :
    MprofileRecord :=
  { mpr with mprTs := answer.now, mprId := prof.mprId + 1, mprStackId := stackId }

section Logging

variable {s : LinkedRecords} {prof prof' : Profiler} {queues : TailQueues} {answer : Answer}
  {mp fuel : Nat}
  {mpr : MprofileRecord} {mps : Option MprofileStack}

theorem Profiler.appended_self (prof : Profiler) (mp : Nat) (record : MprofileRecord)
    (heap : StackHeap) :
    (prof.appended mp record heap).mprofile mp =
      { prof.mprofile mp with mpTqhead := (prof.mprofile mp).mpTqhead ++ [record] } :=
  Function.update_self _ _ _

theorem Profiler.appended_of_ne {other : Nat} (different : other ≠ mp) (record : MprofileRecord)
    (heap : StackHeap) :
    (prof.appended mp record heap).mprofile other = prof.mprofile other :=
  Function.update_of_ne different _ _

theorem Profiler.mpStset_appended (prof : Profiler) (mp other : Nat) (record : MprofileRecord)
    (heap : StackHeap) :
    ((prof.appended mp record heap).mprofile other).mpStset = (prof.mprofile other).mpStset := by
  by_cases here : other = mp
  · rw [here, prof.appended_self]
  · rw [Profiler.appended_of_ne here]

/-- The stack id is set in the last record of the queue only. -/
theorem Underway.map_setStackId (underway : Underway prof) (mp stackId : Nat) :
    ((prof.mprofile mp).mpTqhead ++ [{ mpr with mprTs := answer.now, mprId := prof.mprId + 1 }]).map
        (fun record : MprofileRecord =>
          if record.mprId = prof.mprId + 1 then { record with mprStackId := stackId } else record) =
      (prof.mprofile mp).mpTqhead ++ [prof.numbered mpr answer stackId] := by
  rw [List.map_append]
  have before : (prof.mprofile mp).mpTqhead.map
      (fun record : MprofileRecord =>
          if record.mprId = prof.mprId + 1 then { record with mprStackId := stackId } else record) =
        (prof.mprofile mp).mpTqhead := by
    refine (List.map_congr_left (fun record member => ?_)).trans (List.map_id _)
    have upTo := underway.ids mp record member
    rw [if_neg (by omega)]
    rfl
  rw [before]
  simp only [List.map_cons, List.map_nil, if_true]
  rfl

/-- What logging a record comes to. -/
theorem Underway.log_cases (underway : Underway prof) (unstacked : mpr.mprStackId = 0)
    (granted : answer.recordOk = true)
    (logged : prof.log mp (some mpr) mps answer = .ok prof') :
    (mps = none ∧ prof' = prof.appended mp (prof.numbered mpr answer 0) prof.stackHeap) ∨
      Exists fun stack => mps = some stack ∧ prof.stackHeap.freshBlock answer.copyBlock ∧
        prof' = prof.appended mp
          (prof.numbered mpr answer (mprofileGetStackId
            (mprofileAddStack prof.stackHeap (prof.mprofile mp).mpStset stack answer.copyBlock).1
            (mprofileAddStack prof.stackHeap (prof.mprofile mp).mpStset stack answer.copyBlock).2))
          (mprofileAddStack prof.stackHeap (prof.mprofile mp).mpStset stack
            answer.copyBlock).1 := by
  have zero : prof.numbered mpr answer 0 =
      { mpr with mprTs := answer.now, mprId := prof.mprId + 1 } := by
    rw [Profiler.numbered, ← unstacked]
  rw [Profiler.log] at logged
  simp only [granted, if_true] at logged
  cases mps with
  | none =>
      cases logged
      rw [zero]
      exact Or.inl ⟨rfl, rfl⟩
  | some stack =>
      refine Or.inr ⟨stack, rfl, ?_⟩
      have enqueued : (prof.enqueue mp { mpr with mprTs := answer.now }).mprofile mp =
        { prof.mprofile mp with mpTqhead := (prof.mprofile mp).mpTqhead ++
          [{ mpr with mprTs := answer.now, mprId := prof.mprId + 1 }] } :=
            Function.update_self _ _ _
      rw [Profiler.append, Profiler.addStack, enqueued] at logged
      have sameHeap : (prof.enqueue mp { mpr with mprTs := answer.now }).stackHeap =
        prof.stackHeap := rfl
      rw [sameHeap] at logged
      by_cases isFresh : prof.stackHeap.freshBlock answer.copyBlock
      · rw [if_pos isFresh] at logged
        refine ⟨isFresh, ?_⟩
        generalize mprofileAddStack prof.stackHeap (prof.mprofile mp).mpStset stack
          answer.copyBlock = added at logged ⊢
        have isResult : { prof.enqueue mp
          { mpr with mprTs := answer.now } with stackHeap := added.1 }.setStackId mp
          (prof.mprId + 1) (mprofileGetStackId added.1 added.2) = prof' := Except.ok.inj logged
        rw [← isResult, Profiler.setStackId]
        change Profiler.setMprofile _ mp
            { (prof.enqueue mp { mpr with mprTs := answer.now }).mprofile mp with
          mpTqhead :=
            ((prof.enqueue mp { mpr with mprTs := answer.now }).mprofile mp).mpTqhead.map _ } = _
        rw [enqueued, underway.map_setStackId mp]
        change Profiler.mk _ _ (Function.update (Function.update _ _ _) _ _) _ _ _ _ = _
        rw [Function.update_idem]
        rfl
      · rw [if_neg isFresh] at logged
        cases logged

theorem Underway.appended (underway : Underway prof) {record : MprofileRecord} {heap : StackHeap}
    (below : mp < prof.mprofileTop) (isNext : record.mprId = prof.mprId + 1)
    (stocked : Stocked heap)
    (sameTop : heap.stsetTop = prof.stackHeap.stsetTop) :
    Underway (prof.appended mp record heap) := by
  have orderly := underway.orderly
  refine ⟨⟨stocked.sound, stocked.accounted, stocked.whole, stocked.nullSet, fun other => ?_,
    fun first second different => ?_, fun t positive created => ?_⟩, fun other old member => ?_,
    fun other beyond => ?_, underway.positive, underway.profiles, underway.specific,
    stocked.numbered,
    stocked.bounded⟩
  · rw [prof.mpStset_appended]
    change _ < heap.stsetTop
    rw [sameTop]
    exact orderly.created other
  · rw [prof.mpStset_appended, prof.mpStset_appended]
    exact orderly.own first second different
  · rcases orderly.listed t positive (sameTop ▸ created) with ⟨other, member, isSet⟩
    exact ⟨other, member, (prof.mpStset_appended mp other record heap).trans isSet⟩
  · change old.mprId ≤ prof.mprId + 1
    by_cases here : other = mp
    · rw [here, prof.appended_self] at member
      rcases List.mem_append.mp member with before | isLast
      · exact Nat.le_succ_of_le (underway.ids mp old before)
      · rw [List.mem_singleton.mp isLast, isNext]
    · rw [Profiler.appended_of_ne here] at member
      exact Nat.le_succ_of_le (underway.ids other old member)
  · have different : other ≠ mp := Nat.ne_of_gt (Nat.lt_of_lt_of_le below beyond)
    rw [Profiler.appended_of_ne different]
    exact underway.blank other beyond

/-- The state after a record was appended. -/
def LinkedRecords.appended (s : LinkedRecords) (mp : Nat) (record : MprofileRecord)
    (stsets : LinkedHeap) :
    LinkedRecords :=
  { s with
    mprId := s.mprId + 1
    mprTop := s.mprTop + 1
    mpr := Function.update s.mpr s.mprTop record
    mprTqe := s.mprTqe.tailqInsertTail mp s.mprTop
    stsets := stsets }

theorem Linking.appended (linking : Linking s prof queues) {record : MprofileRecord}
    {heap : StackHeap}
    {stsets : LinkedHeap} (embodies : Embodies stsets heap ⟨[], []⟩) :
    Linking (s.appended mp record stsets) (prof.appended mp record heap)
      (Function.update queues mp (queues mp ++ [s.mprTop])) := by
  have reflects := linking.reflects
  have outside : forall other, s.mprTop ∉ queues other := fun other member =>
    Nat.lt_irrefl _ (linking.fresh other _ member)
  have others : forall other q, q ∈ queues other ->
      Function.update s.mpr s.mprTop record q = s.mpr q :=
    fun other q member =>
      Function.update_of_ne (fun same : q = s.mprTop => outside other (same ▸ member)) _ _
  refine ⟨⟨embodies, reflects.holds.insertTail mp linking.positive.ne' outside, fun other => ?_,
    fun other => ?_,
    reflects.shows, reflects.plants, reflects.startTimeTv, reflects.noMaster, reflects.freedMpr,
      reflects.freedMp⟩,
    congrArg Nat.succ linking.mprId, linking.mpTop, linking.specific, Nat.succ_pos _,
      fun other q member => ?_⟩
  · change (Function.update queues mp (queues mp ++ [s.mprTop]) other).map
      (Function.update s.mpr s.mprTop record) = _
    by_cases here : other = mp
    · subst here
      rw [Function.update_self, prof.appended_self, List.map_append,
        reflects.untouched (others other),
        List.map_singleton, Function.update_self]
    · rw [Function.update_of_ne here, Profiler.appended_of_ne here]
      exact reflects.untouched (others other)
  · rw [prof.mpStset_appended]
    exact reflects.sets other
  · change q < s.mprTop + 1
    by_cases here : other = mp
    · subst here
      rw [Function.update_self] at member
      rcases List.mem_append.mp member with before | isLast
      · exact Nat.lt_succ_of_lt (linking.fresh other q before)
      · rw [List.mem_singleton.mp isLast]
        exact Nat.lt_succ_self _
    · rw [Function.update_of_ne here] at member
      exact Nat.lt_succ_of_lt (linking.fresh other q member)

/-- The common part of the recording functions. -/
theorem Linking.mprofileRecord (underway : Underway prof) (linking : Linking s prof queues)
    (below : mp < prof.mprofileTop)
    (nonzero : mp ≠ 0) (unstacked : mpr.mprStackId = 0)
    (enough : 2 * Nat.log 2 (prof.stackHeap.mpsTop + 1) < fuel)
    (few : prof.stackHeap.mpsTop + 1 < 2 ^ 32)
    (logged : prof.log mp (some mpr) mps answer = .ok prof') :
    (Exists fun s' => Exists fun queues' =>
      Runs (Linked.mprofileRecord fuel mp mpr mps answer) s () s' ∧
      Linking s' prof' queues') ∧ Underway prof' ∧ prof'.stackHeap.mpsTop ≤
        prof.stackHeap.mpsTop + 1 := by
  cases granted : answer.recordOk with
  | false =>
      rw [Profiler.log] at logged
      simp only [granted, Bool.false_eq_true, if_false] at logged
      cases logged
      refine ⟨⟨s, queues, ?_, linking⟩, underway, Nat.le_succ _⟩
      have creates : Runs (Linked.createMprofileRecord mpr answer) s 0 s := by
        rw [Linked.createMprofileRecord, granted, if_neg Bool.false_ne_true]
        exact runs_pure 0 s
      refine creates.bind ?_
      rw [if_pos rfl]
      exact runs_pure () s
  | true =>
      let p := s.mprTop
      let queues' := Function.update queues mp (queues mp ++ [p])
      have validRecord : p ≠ 0 := linking.positive.ne'
      let record : MprofileRecord := { mpr with mprTs := answer.now }
      let s1 : LinkedRecords := { s with mprTop := p + 1, mpr := Function.update s.mpr p record }
      let s2 : LinkedRecords := { s1 with mprId := s.mprId + 1 }
      let s3 : LinkedRecords := { s2 with
        mpr := Function.update s2.mpr p { s2.mpr p with mprId := s.mprId + 1 } }
      let s4 : LinkedRecords := { s3 with mprTqe := s3.mprTqe.tailqInsertTail mp p }
      have creates : Runs (Linked.createMprofileRecord mpr answer) s p s1 := by
        rw [Linked.createMprofileRecord, granted, if_pos rfl]
        exact (runs_get s).bind ((runs_modify _ s).bind (runs_pure p s1))
      have draws : Runs Linked.nextMprId s1 (s.mprId + 1) s2 := rfl
      have names : Runs (Linked.setMpr p (fun record => { record with mprId := s.mprId + 1 })) s2
          () s3 :=
        runs_modify _ s2
      have links : Runs (Linked.queue (fun links => links.tailqInsertTail mp p)) s3 () s4 :=
        runs_modify _ s3
      -- the record as it is in the end
      have atEnd : forall stackId, Function.update s4.mpr p
          { s4.mpr p with mprStackId := stackId } =
          Function.update s.mpr p (prof.numbered mpr answer stackId) := by
        intro stackId
        have own : s4.mpr p = { mpr with mprTs := answer.now, mprId := prof.mprId + 1 } := by
          change Function.update (Function.update s.mpr p record) p
            { Function.update s.mpr p record p with mprId := s.mprId + 1 } p = _
          rw [Function.update_self, Function.update_self, linking.mprId]
        rw [own]
        change Function.update (Function.update (Function.update s.mpr p record) p _) p _ = _
        rw [Function.update_idem, Function.update_idem]
        rfl
      have performs : forall {s' : LinkedRecords}, Runs (Linked.recordStack fuel mp p mps answer) s4
          () s' ->
          Runs (Linked.mprofileRecord fuel mp mpr mps answer) s () s' := by
        intro s' files
        refine creates.bind ?_
        rw [if_neg validRecord]
        refine draws.bind (names.bind ?_)
        rw [if_neg nonzero]
        exact links.bind files
      rcases underway.log_cases unstacked granted logged with
        ⟨none, rfl⟩ | ⟨stack, some, isFresh, rfl⟩
      · subst none
        let s5 : LinkedRecords :=
          { s4 with mpr := Function.update s4.mpr p { s4.mpr p with mprStackId := 0 } }
        have files : Runs (Linked.recordStack fuel mp p Option.none answer) s4 () s5 :=
          runs_modify _ s4
        have same : s5 = s.appended mp (prof.numbered mpr answer 0) s.stsets := by
          change ({ s4 with mpr := Function.update s4.mpr p { s4.mpr p with mprStackId := 0 } } :
            LinkedRecords) = _
          rw [atEnd]
          rfl
        refine ⟨⟨s5, queues', performs files, ?_⟩, underway.appended below rfl underway.stocked rfl,
          Nat.le_succ _⟩
        rw [same]
        exact linking.appended linking.reflects.embodies
      · subst some
        have notInUse : prof.stackHeap.NotInUse answer.copyBlock := by
          intro words isBlock t q member
          rw [isBlock] at isFresh
          exact isFresh q (underway.orderly.sound.tidy.inOrder.allocated t q (Or.inl member))
        let stset := (prof.mprofile mp).mpStset
        rcases linking.reflects.embodies.mprofileAddStack (s := stset)
          underway.orderly.sound.tidy enough notInUse with ⟨linked, ran, embodies, -⟩
        let added := Mprofile.mprofileAddStack prof.stackHeap stset stack answer.copyBlock
        let s5 : LinkedRecords := { s4 with stsets := linked }
        have isSet : s4.mpStset mp = stset := linking.reflects.sets mp
        have adds : Runs
          (Linked.stsets (Linked.mprofileAddStack fuel (s4.mpStset mp) stack answer.copyBlock)) s4
            added.2 s5 := by
          rw [isSet]
          exact runs_focus ran
        have reads : Runs (Linked.stsets (Linked.mprofileGetStackId added.2)) s5
            (mprofileGetStackId added.1 added.2) s5 := by
          have read : Runs (Linked.mprofileGetStackId added.2) linked
              (mprofileGetStackId added.1 added.2) linked := by
            rw [mprofileGetStackId, ← embodies.mps]
            exact (runs_get linked).bind (runs_pure _ linked)
          exact runs_focus read
        let stackId := mprofileGetStackId added.1 added.2
        let s6 : LinkedRecords :=
          { s5 with mpr := Function.update s5.mpr p { s5.mpr p with mprStackId := stackId } }
        have files : Runs (Linked.recordStack fuel mp p (Option.some stack) answer) s4 () s6 :=
          (runs_get s4).bind (adds.bind (reads.bind (runs_modify _ s5)))
        have same : s6 = s.appended mp (prof.numbered mpr answer stackId) linked := by
          change ({ s5 with
              mpr := Function.update s4.mpr p { s4.mpr p with mprStackId := stackId } } :
                LinkedRecords) = _
          rw [atEnd]
          rfl
        have bounds :=
          mprofileAddStack_bounds (s := stset) underway.orderly.sound.tidy stack answer.copyBlock
        refine ⟨⟨s6, queues', performs files, ?_⟩, underway.appended below rfl
          (underway.stocked.mprofileAddStack notInUse (underway.orderly.created mp) few)
            bounds.stsetTop,
          bounds.mpsTop⟩
        rw [same]
        exact linking.appended embodies

variable (fuel) in
/-- A call of a thread. -/
theorem Linking.perform (underway : Underway prof) (linking : Linking s prof queues)
    (call : LogCall)
    (enough : 2 * Nat.log 2 (prof.stackHeap.mpsTop + 1) < fuel)
    (few : prof.stackHeap.mpsTop + 1 < 2 ^ 32)
    (logged : logNext prof call = .ok prof') :
    (Exists fun s' => Exists fun queues' => linkedLogNext fuel s call = .ok s' ∧
      Linking s' prof' queues') ∧
      Underway prof' ∧ prof'.stackHeap.mpsTop ≤ prof.stackHeap.mpsTop + 1 := by
  have gets := linking.getMprofile underway call.tid call.answer
  rw [logNext] at logged
  cases created : prof.getMprofile call.tid call.answer with
  | error fault => rw [created] at logged; cases logged
  | ok result =>
      rw [created] at gets logged
      rcases gets with ⟨⟨s1, first, linking1⟩, underway1, nonzero, sameTop⟩
      have below : result.2 < result.1.mprofileTop := by
        rw [getMprofile_eq underway.positive] at created
        split_ifs at created
        · cases created
          exact Nat.lt_succ_self _
        · cases created
          exact underway.specific call.tid
      have unstacked : call.logged.record.mprStackId = 0 := by
        cases call.logged <;> rfl
      rw [← sameTop] at enough few ⊢
      rcases linking1.mprofileRecord underway1 below nonzero unstacked enough few logged with
        ⟨⟨s2, queues', second, linking2⟩, underway2, grown⟩
      refine ⟨⟨s2, queues', ?_, linking2⟩, underway2, grown⟩
      have performed : Runs (call.perform fuel) s () s2 := first.bind second
      rw [linkedLogNext, performed]
      rfl

end Logging

/-! ## Runs -/

/-- The process before it records. -/
def LinkedRecords.init : LinkedRecords where
  mprId := 0
  startTimeTv := ⟨0, 0⟩
  mpr := fun _ => default
  mprTop := 1
  mprTqe := ⟨fun _ => 0, Slot.first, fun _ => 0, fun _ => Slot.first 0⟩
  mprRbe := ⟨fun _ => ⟨0, 0, 0, .black⟩, fun _ => 0⟩
  mpStset := fun _ => 0
  mpTop := 1
  mpTqe := ⟨fun _ => 0, Slot.first, fun _ => 0, fun _ => Slot.first 0⟩
  master := 0
  specific := fun _ => 0
  stsets := .empty
  freedMpr := []
  freedMp := []

theorem underway_init : Underway World.init.prof := by
  have follows := follows_empty
  have noStacks : forall s, (StackHeap.empty.stset s).stsetIdRbh = [] := fun _ => rfl
  refine ⟨⟨follows.sound, follows.accounted, fun t p impossible => (by cases impossible),
    ⟨rfl, rfl⟩,
    fun _ => Nat.one_pos, fun _ _ _ valid => absurd rfl valid, fun t positive below => ?_⟩,
    fun _ _ impossible => (by cases impossible), fun _ _ => rfl, Nat.one_pos,
    fun _ impossible => (by cases impossible), fun _ => Nat.one_pos, fun s p member => ?_,
      fun _ => Nat.le_refl 1⟩
  · exact absurd positive (Nat.not_lt.mpr (Nat.le_of_lt_succ below))
  · rw [show World.init.prof.stackHeap = StackHeap.empty from rfl, noStacks] at member
    cases member

theorem linking_init : Linking .init World.init.prof (fun _ => []) := by
  have holds := holds_empty (fun _ => 0) (fun _ => Slot.first 0)
  exact ⟨⟨follows_empty.embodies, holds, fun _ => rfl, fun _ => rfl, holds.shows Linked.profiles,
    plants_empty _, rfl,
    rfl, rfl, rfl⟩, rfl, rfl, rfl, Nat.one_pos, fun _ _ impossible => by cases impossible⟩

/-- A run of calls. -/
theorem Linking.exec_log {s : LinkedRecords} {prof prof' : Profiler} {queues : TailQueues}
    {fuel : Nat}
    (underway : Underway prof) (linking : Linking s prof queues) {calls : List LogCall}
    (enough : 2 * (prof.stackHeap.mpsTop + calls.length) < fuel)
    (few : prof.stackHeap.mpsTop + calls.length < 2 ^ 32)
    (logged : exec logNext prof calls = .ok prof') :
    (Exists fun s' => Exists fun queues' => exec (linkedLogNext fuel) s calls = .ok s' ∧
      Linking s' prof' queues') ∧
      Underway prof' := by
  induction calls generalizing s prof queues with
  | nil =>
      cases logged
      exact ⟨⟨s, queues, rfl, linking⟩, underway⟩
  | cons call rest inductionHypothesis =>
      rcases exec_cons_ok logged with ⟨middle, stepped, onward⟩
      rw [List.length_cons] at enough few
      have short := log_le prof.stackHeap.mpsTop
      rcases linking.perform fuel underway call (by omega) (by omega) stepped with
        ⟨⟨s1, queues1, performed, linking1⟩, underway1, grown⟩
      have rest := inductionHypothesis underway1 linking1 (by omega) (by omega) onward
      rw [exec, performed]
      exact rest

/-- Whatever the threads log, in whatever order they call: with fuel enough `mprofile_save` on the
structures in memory writes the document that it writes on lists, or stops where that stops.
Nothing is lost then, and nothing was freed twice. -/
theorem linkedLog_saves {calls : List LogCall} {prof : Profiler}
    {copyBlock : Nat -> Option (Int -> UInt64)}
    (logged : exec logNext World.init.prof calls = .ok prof) (few : calls.length + 1 < 2 ^ 32)
    (apart : prof.CopiesApart copyBlock) (linkChains : Bool) :
    Exists fun bound => forall fuel, bound < fuel -> Exists fun linked =>
      exec (linkedLogNext fuel) .init calls = .ok linked ∧
        match mprofileSave copyBlock linkChains prof with
        | .ok doc => Exists fun final =>
            Runs (Linked.mprofileSave fuel copyBlock linkChains) linked doc final ∧
              Settled final prof doc
        | .error fault =>
          Stops (Linked.mprofileSave fuel copyBlock linkChains) linked (.save fault) := by
  refine ⟨2 * (1 + calls.length) + 2 * (prof.stackHeap.mpsTop + 2 * prof.records.length) +
    prof.profiles.length,
    fun fuel enough => ?_⟩
  have top : World.init.prof.stackHeap.mpsTop = 1 := rfl
  rcases linking_init.exec_log underway_init (show 2 * (1 + calls.length) < fuel by omega)
      (by omega) logged with
    ⟨⟨linked, queues, performed, linking⟩, underway⟩
  exact ⟨linked, performed,
    linking.reflects.mprofileSave underway.orderly ⟨by omega, by omega⟩ apart⟩

/-- Two threads use the same block with the same stack, and one of them frees it under another. -/
def passedCalls : List LogCall :=
  [ ⟨1, .alloc 4096 8, some (singleFrame 7), { answering 0 with copyBlock := some (fun _ => 100) }⟩,
    ⟨2, .free 4096 8, some (singleFrame 8), { answering 0 with copyBlock := some (fun _ => 200) }⟩,
    ⟨2, .alloc 4096 24, some (singleFrame 7),
      { answering 0 with copyBlock := some (fun _ => 300) }⟩]

theorem linkedLog_saves_passedCalls : Exists fun prof => Exists fun doc =>
    exec logNext World.init.prof passedCalls = .ok prof ∧
      mprofileSave (fun _ => none) true prof = .ok doc ∧
      doc.allocations.map MprofileRecord.mprNextId = [2, 0, 0] ∧
      Exists fun bound => forall fuel, bound < fuel -> Exists fun linked => Exists fun final =>
        exec (linkedLogNext fuel) .init passedCalls = .ok linked ∧
          Runs (Linked.mprofileSave fuel (fun _ => none) true) linked doc final ∧
            Settled final prof doc := by
  have ends : Exists fun prof => exec logNext World.init.prof passedCalls = .ok prof ∧
      meetsCheck (drainNext (fun _ => none) prof.masterStset) (DrainOp.Asks (fun _ => none))
        prof.drainStart
        (drainProfiles prof.listed) = true ∧
      (mprofileSave (fun _ => none) true prof).toOption.map
        (fun doc => doc.allocations.map MprofileRecord.mprNextId) = some [2, 0, 0] :=
    reaches_of_check (by decide +kernel)
  rcases ends with ⟨prof, logged, apart, saved⟩
  have result := linkedLog_saves logged (by decide) (meets_of_check apart) true
  cases documented : mprofileSave (fun _ => none) true prof with
  | error fault => rw [documented] at saved; cases saved
  | ok doc =>
      rw [documented] at saved result
      rcases result with ⟨bound, run⟩
      refine ⟨prof, doc, logged, documented, Option.some.inj saved, bound, fun fuel enough => ?_⟩
      rcases run fuel enough with ⟨linked, performed, final, ran, settled⟩
      exact ⟨linked, final, performed, ran, settled⟩

end Mprofile
end OsslScripts
