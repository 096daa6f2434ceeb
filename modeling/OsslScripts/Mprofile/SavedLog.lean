import OsslScripts.Mprofile.HeaderSafety
import OsslScripts.Mprofile.Queueing

namespace OsslScripts
namespace Mprofile

open Foundation

/-!
# The saved log

Threads call the tracing hooks in any interleaving, each hook draws one id from
the shared counter and appends to the list of its own thread, and
`mprofile_save` drains all lists.  A history variable notes every record when
its id is drawn, together with its thread and with the number of calls that the
thread has made by then.  What is saved is the history, in its order.

Nothing is assumed about the caller, about libc, or about the memory of the
profiler: a record that is not created draws no id.
-/

/-- A record, the thread that recorded it, and the number of its call in that thread. -/
structure Recorded (Thread : Type) where
  thread : Thread
  call : Nat
  mpr : MprofileRecord

/-- The calls that each thread has made, and the records drawn so far. -/
structure RecordHistory (Thread : Type) where
  calls : Thread -> Nat
  recorded : List (Recorded Thread)

def RecordHistory.empty (Thread : Type) : RecordHistory Thread := ⟨fun _ => 0, []⟩

/-- The record as the hook made it, without the stack and the links it gets later. -/
def MprofileRecord.asRecorded (mpr : MprofileRecord) : MprofileRecord := mpr.unfiled.bare

section History

variable {Thread : Type} [DecidableEq Thread] {C : Client Thread Call UInt64}

/-- A call is counted, and a record is noted with the id that it draws. -/
def noteRecord (history : RecordHistory Thread) (pool : Pool hookMachine C)
    (l : PoolLabel Thread Call Answer) (_ : Pool hookMachine C) : RecordHistory Thread :=
  match l with
  | .call t _ _ => { history with calls := Function.update history.calls t (history.calls t + 1) }
  | .step t _ =>
      match pool.headOf t with
      | some (.drawId mpr) =>
          { history with
            recorded := history.recorded ++
              [⟨t, history.calls t, { mpr with mprId := pool.shared.prof.mprId + 1 }⟩] }
      | _ => history

/-- The threads that call the hooks of a family, next to the history of their records. -/
abbrev recordingNext (family : Family) (tid : Thread -> Nat) :
    Pool hookMachine C × RecordHistory Thread -> PoolLabel Thread Call Answer ->
      Except (Stop HookFault) (Pool hookMachine C × RecordHistory Thread) :=
  withHistory (Pool.next (fun t k => hook family (tid t) k)) noteRecord

/-- The records of each thread are in the order of its calls. -/
structure InCallOrder (history : RecordHistory Thread) : Prop where
  made : forall entry, entry ∈ history.recorded -> entry.call ≤ history.calls entry.thread
  ordered : history.recorded.Pairwise (fun earlier later =>
    earlier.thread = later.thread -> earlier.call ≤ later.call)

omit [DecidableEq Thread] in
theorem inCallOrder_empty : InCallOrder (RecordHistory.empty Thread) :=
  ⟨fun _ member => (by cases member), List.Pairwise.nil⟩

theorem InCallOrder.note {history : RecordHistory Thread} (inOrder : InCallOrder history)
    (pool pool' : Pool hookMachine C) (l : PoolLabel Thread Call Answer) :
    InCallOrder (noteRecord history pool l pool') := by
  cases l with
  | call t k answer =>
      refine ⟨fun entry member => ?_, inOrder.ordered⟩
      have before := inOrder.made entry member
      change entry.call ≤ Function.update history.calls t (history.calls t + 1) entry.thread
      by_cases here : entry.thread = t
      · rw [here, Function.update_self]
        rw [here] at before
        exact Nat.le_succ_of_le before
      · rw [Function.update_of_ne here]
        exact before
  | step t answer =>
      unfold noteRecord
      simp only
      split
      · refine ⟨fun entry member => ?_, List.pairwise_append.mpr ⟨inOrder.ordered,
          List.pairwise_singleton _ _, fun earlier member later isNew same => ?_⟩⟩
        · rcases List.mem_append.mp member with before | isNew
          · exact inOrder.made entry before
          · rw [List.mem_singleton.mp isNew]
        · rw [List.mem_singleton.mp isNew] at same ⊢
          have before := inOrder.made earlier member
          rw [same] at before
          exact before
      · exact inOrder

end History

/-! ## The invariant -/

section Invariant

variable {Thread : Type} [DecidableEq Thread] {C : Client Thread Call UInt64} {family : Family}
  {tid : Thread -> Nat} {drawn : List MprofileRecord}

/-- The profiles are in the list, and these records in their queues. -/
def Queued (drawn : List MprofileRecord) (_ : C.State) (w : World) (gs : Thread -> Filing) : Prop :=
  ProfileList w.prof gs ∧ Queues w.prof gs drawn

/-- An operation adds the record that it draws. -/
theorem queued_op {client : C.State} {w : World} {gs : Thread -> Filing} {t : Thread}
    {answer : Answer}
    {o : HookOp} {after : List MprofileRecord} (queued : Queued (C := C) drawn client w gs)
    (draws : forall w' r, o.exec answer w = .ok (w', r) -> after = drawn ++ o.drawn r) :
    queueing.OpSoundAt (Queued (C := C) after client) answer t o w gs := by
  intro w' r may executed
  change o.exec answer w = .ok (w', r) at executed
  rw [draws w' r executed]
  refine ⟨?_, queues_op gs may (Filing.SameQueue.refl _) executed queued.1 queued.2⟩
  cases o with
  | mprofileAdd mp =>
      rw [HookOp.exec] at executed
      split_ifs at executed with null
      exact null
  | _ => trivial

theorem drawn_of_other {o : HookOp} (other : forall mpr, o ≠ .drawId mpr) (r : o.Res) :
    o.drawn r = [] := by
  cases o with
  | drawId mpr => exact absurd rfl (other mpr)
  | _ => rfl

/-- Operations other than the draw of an id add nothing. -/
theorem queued_other {client : C.State} {w : World} {gs : Thread -> Filing} {t : Thread}
    {answer : Answer}
    {o : HookOp} (other : forall mpr, o ≠ .drawId mpr)
    (queued : Queued (C := C) drawn client w gs) :
    queueing.OpSoundAt (Queued (C := C) drawn client) answer t o w gs :=
  queued_op queued (fun _ r _ => by rw [drawn_of_other other r, List.append_nil])

/-- A thread without a record on the way may take up or give up a call. -/
theorem Queued.rest {client client' : C.State} {w : World} {gs : Thread -> Filing} {t : Thread}
    {g : Filing}
    (queued : Queued (C := C) drawn client w gs) (due : g.due = (gs t).due)
    (created : g.created = 0)
    (profile : g.profile = 0) : Queued (C := C) drawn client' w (Function.update gs t g) := by
  refine ⟨?_, queued.2.congr rfl rfl due⟩
  exact queued.1.change t g queued.1.nodup queued.1.below (fun mp member => member)
    (fun u _ isU => queued.1.created u isU) (fun isCreated => absurd created isCreated)
    (fun isProfile => absurd profile isProfile) queued.1.specific

theorem queued_discipline (traced : family ≠ .stats) (tid : Thread -> Nat)
    (drawn : List MprofileRecord) :
    Pool.Discipline (M := hookMachine) (C := C) (fun _ => True) (fun t k => hook family (tid t) k)
      (fun _ => queueing) (fun _ g _ => queueEnds g) .idle (Queued drawn) where
  silentSound := fun k client answer t o _ quiet w gs queued =>
    queued_other (fun mpr same => by rw [same] at quiet; cases quiet) queued
  bodySound := fun k client t w gs l queued due again => by
    refine ⟨?_, due⟩
    change Queued drawn client (comparePeak l w).1 gs
    unfold comparePeak
    split_ifs <;> exact queued
  leaveSound := fun k client t w gs l queued due again => by
    rw [show queueing.leave (gs t) = gs t from rfl, Function.update_eq_self]
    exact queued
  start := fun k client client' w gs t started queued idle => by
    refine ⟨.idle, queued.rest ?_ rfl rfl, queueing_hook traced (tid t) k⟩
    rw [idle]
  finish := fun k value client w gs t queued ends => queued.rest ends.1.symm rfl rfl

/-- The invariant of the pool and of the history of its records. -/
structure Recording (family : Family) (pool : Pool hookMachine C)
    (history : RecordHistory Thread) : Prop where
  queued : Exists fun gs => Pool.Holds (fun _ => queueing) (fun _ g _ => queueEnds g) Filing.idle
    (Queued (history.recorded.map Recorded.mpr)) pool gs
  inOrder : InCallOrder history

omit [DecidableEq Thread] in
theorem recording_init (client : C.State) :
    Recording family (⟨World.init, client, fun _ => none⟩ : Pool hookMachine C) (.empty Thread) :=
  ⟨⟨fun _ => .idle, ⟨profileList_init, queues_init⟩, fun _ => rfl⟩, inCallOrder_empty⟩

/-- The history of a step that draws no id. -/
theorem noteRecord_other {history : RecordHistory Thread} {pool pool' : Pool hookMachine C}
    {l : PoolLabel Thread Call Answer}
    (other : forall t answer mpr, l = .step t answer -> pool.headOf t ≠ some (.drawId mpr)) :
    (noteRecord history pool l pool').recorded = history.recorded := by
  cases l with
  | call t k answer => rfl
  | step t answer =>
      unfold noteRecord
      simp only
      split
      · rename_i mpr drawing
        exact absurd drawing (other t answer mpr rfl)
      · rfl

omit [DecidableEq Thread] in
/-- A thread about to draw an id is in the middle of a program that does so. -/
theorem busy_of_headOf {pool : Pool hookMachine C} {t : Thread} {o : HookOp}
    (here : pool.headOf t = some o) :
    Exists fun k => Exists fun rest => pool.thread t = some (k, .op o rest) := by
  unfold Pool.headOf at here
  cases busy : pool.thread t with
  | none => rw [busy] at here; cases here
  | some entry =>
      rcases entry with ⟨k, program⟩
      rw [busy] at here
      cases program with
      | ret value => cases here
      | spin loop rest => cases here
      | op other rest =>
          cases here
          exact ⟨k, rest, rfl⟩

theorem Recording.next (traced : family ≠ .stats) {pool pool' : Pool hookMachine C}
    {history : RecordHistory Thread} {l : PoolLabel Thread Call Answer}
    (recording : Recording family pool history)
    (stepped : pool.next (fun t k => hook family (tid t) k) l = .ok pool') :
    Recording family pool' (noteRecord history pool l pool') := by
  refine ⟨?_, recording.inOrder.note pool pool' l⟩
  rcases recording.queued with ⟨gs, holds⟩
  by_cases draws : Exists fun t => Exists fun answer => Exists fun mpr =>
      l = .step t answer ∧ pool.headOf t = some (.drawId mpr)
  · rcases draws with ⟨t, answer, mpr, rfl, here⟩
    rcases busy_of_headOf here with ⟨k, rest, busy⟩
    have noted : (noteRecord history pool (.step t answer) pool').recorded.map Recorded.mpr =
        history.recorded.map Recorded.mpr ++
            [{ mpr with mprId := pool.shared.prof.mprId + 1 }] := by
      unfold noteRecord
      simp only [here, List.map_append, List.map_singleton]
    rw [noted]
    refine Pool.next_op_sound (queued_discipline traced tid _) holds.threads trivial busy ?_ stepped
    refine queued_op holds.invariant (fun w' r executed => ?_)
    cases executed
    rfl
  · have other : forall t answer mpr, l = .step t answer -> pool.headOf t ≠ some (.drawId mpr) :=
      fun t answer mpr same here => draws ⟨t, answer, mpr, same, here⟩
    rw [noteRecord_other other]
    refine Pool.next_sound (queued_discipline traced tid _) holds trivial ?_ stepped
    cases l with
    | call t k answer => trivial
    | step t answer =>
        intro k program o busy here
        refine queued_other (fun mpr same => other t answer mpr rfl ?_) holds.invariant
        unfold Pool.headOf
        rw [busy, ← same]
        exact here

end Invariant

/-! ## What is saved -/

section Saved

variable {Thread : Type} [DecidableEq Thread] {C : Client Thread Call UInt64} {family : Family}
  {pool : Pool hookMachine C} {history : RecordHistory Thread}

omit [DecidableEq Thread] in
/-- When no call is in progress, the queues hold the history. -/
theorem Recording.mergedLog (recording : Recording family pool history)
    (quiescent : pool.Quiescent) :
    (pool.shared.prof.records.map MprofileRecord.mprId).Nodup ∧
      pool.shared.prof.mergedLog.map MprofileRecord.unfiled = history.recorded.map Recorded.mpr ∧
      (history.recorded.map Recorded.mpr).map MprofileRecord.mprId =
        List.range' 1 history.recorded.length ∧
      forall mpr, mpr ∈ history.recorded.map Recorded.mpr -> mpr.Blank := by
  rcases recording.queued with ⟨gs, holds⟩
  have queues := holds.invariant.2
  have resting : forall t, (gs t).due = none := by
    intro t
    have own := holds.threads t
    rw [quiescent t] at own
    rw [show gs t = Filing.idle from own]
    rfl
  have unfiled : (history.recorded.map Recorded.mpr).map MprofileRecord.unfiled =
      history.recorded.map Recorded.mpr := by
    refine (List.map_congr_left (fun mpr member => ?_)).trans (List.map_id _)
    rw [MprofileRecord.unfiled, ← (queues.blank mpr member).2.2]
    rfl
  have merged : SortedLog pool.shared.prof.records pool.shared.prof.mergedLog :=
    ⟨sorted_mergedLog queues.once, (List.perm_insertionSort _ _).map _⟩
  have same := merged.eq_of_perm (by rw [unfiled]; exact queues.perm resting) queues.sorted
  have count : history.recorded.length = pool.shared.prof.mprId := by
    have lengths := congrArg List.length queues.ids
    rwa [List.length_map, List.length_map, List.length_range'] at lengths
  exact ⟨queues.once, same.trans unfiled, by rw [queues.ids, count], queues.blank⟩

theorem asRecorded_of_blank {mpr : MprofileRecord} (blank : mpr.Blank) : mpr.asRecorded = mpr := by
  rcases blank with ⟨prev, next, stackId⟩
  cases mpr
  simp only at prev next stackId
  rw [MprofileRecord.asRecorded, MprofileRecord.bare, MprofileRecord.unfiled, prev, next, stackId]

/-- Logs that agree up to stacks, and up to links, hold the same records. -/
theorem asRecorded_of_parts {first second third : List MprofileRecord}
    (links : first.map MprofileRecord.bare = second.map MprofileRecord.bare)
    (filed : second.map MprofileRecord.unfiled = third.map MprofileRecord.unfiled) :
    first.map MprofileRecord.asRecorded = third.map MprofileRecord.asRecorded := by
  have first' : first.map MprofileRecord.asRecorded =
      (first.map MprofileRecord.bare).map MprofileRecord.unfiled := by
    rw [List.map_map]
    rfl
  have second' : (second.map MprofileRecord.bare).map MprofileRecord.unfiled =
      (second.map MprofileRecord.unfiled).map MprofileRecord.bare := by
    rw [List.map_map, List.map_map]
    rfl
  rw [first', links, second', filed, List.map_map]
  rfl

theorem map_mprId_asRecorded (log : List MprofileRecord) :
    (log.map MprofileRecord.asRecorded).map MprofileRecord.mprId =
      log.map MprofileRecord.mprId := by
  rw [List.map_map]
  rfl

omit [DecidableEq Thread] in
/-- What is saved when no call is in progress is the history. -/
theorem Recording.saved (recording : Recording family pool history) (quiescent : pool.Quiescent)
    {copyBlock : Nat -> Option (Int -> UInt64)} {linkChains : Bool} {doc : Document}
    (saved : mprofileSave copyBlock linkChains pool.shared.prof = .ok doc) :
    doc.allocations.map MprofileRecord.asRecorded = history.recorded.map Recorded.mpr ∧
      doc.allocations.map MprofileRecord.mprId = List.range' 1 history.recorded.length := by
  rcases recording.mergedLog quiescent with ⟨fresh, merged, ids, blank⟩
  rcases mprofileSave_saved fresh saved with ⟨sorter, filed, links⟩
  have recorded : doc.allocations.map MprofileRecord.asRecorded =
      history.recorded.map Recorded.mpr := by
    have self : (history.recorded.map Recorded.mpr).map MprofileRecord.asRecorded =
        history.recorded.map Recorded.mpr :=
      (List.map_congr_left (fun mpr member => asRecorded_of_blank (blank mpr member))).trans
      (List.map_id _)
    rw [asRecorded_of_parts links filed, ← self, ← merged, List.map_map]
    rfl
  refine ⟨recorded, ?_⟩
  rw [← map_mprId_asRecorded, recorded, ids]

/-- With ids from 1 on without gaps, `get_mr` finds every record by its id. -/
theorem getMr_of_dense {doc : Document} {count : Nat}
    (dense : doc.allocations.map MprofileRecord.mprId = List.range' 1 count) (i : Nat) :
    (1 ≤ i ∧ i ≤ count -> Exists fun found => (MProfile.ofDocument doc).getMr i = some found ∧
      found.mr ∈ doc.allocations ∧ found.mr.mprId = i) ∧
    (¬ (1 ≤ i ∧ i ≤ count) -> (MProfile.ofDocument doc).getMr i = none) := by
  have length : doc.allocations.length = count := by
    have lengths := congrArg List.length dense
    rwa [List.length_map, List.length_range'] at lengths
  refine ⟨fun inside => ?_, fun outside => ?_⟩
  · have present := MProfile.getMr_isSome doc i inside.1 (by rw [length]; exact inside.2)
    rcases Option.isSome_iff_exists.mp present with ⟨found, lookup⟩
    have position := (MProfile.getMr_some lookup).2.2
    refine ⟨found, lookup, List.mem_of_getElem? position, ?_⟩
    have ids : (doc.allocations.map MprofileRecord.mprId)[i - 1]? = some found.mr.mprId := by
      rw [List.getElem?_map, position]
      rfl
    rw [dense, List.getElem?_range' (by omega)] at ids
    have same := Option.some.inj ids
    omega
  · simp only [MProfile.getMr, MProfile.ofDocument, MProfile.length_calcCurrent, length]
    rw [if_pos (by omega)]

/-- The pool and its history, in every state that is reached. -/
theorem recording_exec {tid : Thread -> Nat} (traced : family ≠ .stats) {client : C.State}
    {labels : List (PoolLabel Thread Call Answer)}
    {both : Pool hookMachine C × RecordHistory Thread}
    (executed : exec (recordingNext family tid) (⟨World.init, client, fun _ => none⟩, .empty Thread)
      labels = .ok both) : Recording family both.1 both.2 := by
  have start : Recording family (⟨World.init, client, fun _ => none⟩ : Pool hookMachine C)
      (.empty Thread) := recording_init client
  apply exec_invariant_all (fun both : Pool hookMachine C × RecordHistory Thread =>
    Recording family both.1 both.2) _ start executed
  intro both l both' holds stepped
  rcases withHistory_ok stepped with ⟨moved, noted⟩
  rw [noted]
  exact holds.next traced moved

end Saved

/-- Whatever the interleaving, what `mprofile_save` writes when no hook is in
progress is the history of the records, numbered from 1 on, with the records of
each thread in the order of its calls; the reader finds each under its id, and
the tree that sorts them never meets an id twice. -/
theorem mprofileSave_history {Thread : Type} [DecidableEq Thread] {C : Client Thread Call UInt64}
    {family : Family} (traced : family ≠ .stats) (tid : Thread -> Nat) (client : C.State)
    (labels : List (PoolLabel Thread Call Answer)) (pool : Pool hookMachine C)
    (history : RecordHistory Thread)
    (executed : exec (recordingNext family tid) (⟨World.init, client, fun _ => none⟩, .empty Thread)
      labels = .ok (pool, history))
    (quiescent : pool.Quiescent) (copyBlock : Nat -> Option (Int -> UInt64)) (linkChains : Bool) :
    mprofileSave copyBlock linkChains pool.shared.prof ≠ .error .sameId ∧
      forall doc, mprofileSave copyBlock linkChains pool.shared.prof = .ok doc ->
        doc.allocations.map MprofileRecord.asRecorded = history.recorded.map Recorded.mpr ∧
        doc.allocations.map MprofileRecord.mprId = List.range' 1 history.recorded.length ∧
        InCallOrder history ∧
        forall i, (1 ≤ i ∧ i ≤ history.recorded.length ->
          Exists fun found => (MProfile.ofDocument doc).getMr i = some found ∧
            found.mr ∈ doc.allocations ∧ found.mr.mprId = i) ∧
          (¬ (1 ≤ i ∧ i ≤ history.recorded.length) ->
            (MProfile.ofDocument doc).getMr i = none) := by
  have recording : Recording family pool history := recording_exec traced executed
  refine ⟨fun failed => ?_, fun doc saved => ?_⟩
  · have fresh := (recording.mergedLog quiescent).1
    rcases mprofileSave_mergedLog fresh _ failed with
      (impossible | ⟨reason, impossible⟩) | ⟨stop, impossible, -⟩
    · cases impossible
    · cases impossible
    · cases impossible
  · rcases recording.saved quiescent saved with ⟨recorded, dense⟩
    exact ⟨recorded, dense, recording.inOrder, getMr_of_dense dense⟩

/-- Two threads take a block each, and the second one is the first to draw an id. -/
def crossingRun : List (PoolLabel (Fin 2) Call Answer) :=
  callOf threadA (.malloc 8) [0, 0, 4096] ++ callOf threadB (.malloc 24) [0, 0, 8192, 0] ++
    [.step threadA (answering 0)] ++ callOf threadB (.free 8208) [0, 0]

theorem mprofileSave_history_crossingRun :
    Exists fun pool => Exists fun history => Exists fun doc =>
    exec (recordingNext .trace Fin.val) (HookPool.init (Fin 2) false, .empty (Fin 2)) crossingRun =
        .ok (pool, history) ∧
      mprofileSave (fun _ => none) true pool.shared.prof = .ok doc ∧
      doc.allocations.map MprofileRecord.mprMem = [8208, 4112, 8208] ∧
      doc.allocations.map MprofileRecord.asRecorded = history.recorded.map Recorded.mpr := by
  have reached : Exists fun both =>
      exec (recordingNext .trace Fin.val) (HookPool.init (Fin 2) false, .empty (Fin 2))
          crossingRun = .ok both ∧
        (forall t, both.1.thread t = none) ∧
        (mprofileSave (fun _ => none) true both.1.shared.prof).toOption.map
          (fun doc => doc.allocations.map MprofileRecord.mprMem) = some [8208, 4112, 8208] :=
    reaches_of_check (by decide +kernel)
  rcases reached with ⟨⟨pool, history⟩, executed, quiescent, document⟩
  cases saved : mprofileSave (fun _ => none) true pool.shared.prof with
  | error fault => rw [saved] at document; cases document
  | ok doc =>
      rw [saved] at document
      have complete := mprofileSave_history (C := application (Fin 2) false) (by decide) Fin.val
        Holdings.none crossingRun pool history executed quiescent (fun _ => none) true
      exact ⟨pool, history, doc, executed, saved, Option.some.inj document,
        (complete.2 doc saved).1⟩

end Mprofile
end OsslScripts
