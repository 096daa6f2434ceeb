import OsslScripts.Mprofile.StackIds

namespace OsslScripts
namespace Mprofile

open Foundation

/-!
# Why a save stops

At any point of any run, whatever has been refused so far, `mprofile_save` finds the stack of
each record in the set of its profile, and no two records with the same id.  It ends exactly
if there is a profile, if each stack that is merged finds room, and if the log replays where
chains are linked (`Savable`).  Where it stops instead, the fault tells what is missing.
-/

/-- What a fault of `mprofile_save` says about the profiles and the memory. -/
def SaveCause (copyBlock : Nat -> Option (Int -> UInt64)) (linkChains : Bool) (prof : Profiler) :
    SaveFault -> Prop
  | .nullDereference => prof.masterStset = 0
  | .sameId => False
  | .merge .sourceMissing => False
  | .merge .freshIdTaken => prof.masterStset ≠ 0
  | .merge .noMemory => prof.masterStset ≠ 0 ∧
      Exists fun mpr => mpr ∈ prof.records ∧ mpr.mprStackId ≠ 0 ∧ copyBlock mpr.mprId = none
  | .chains _ => linkChains = true ∧ replay prof.mergedLog = none

section Merging

variable {heap : StackHeap} {dst src id old : Nat} {ids : List Nat} {block : Option (Int -> UInt64)}
  {fault : MergeFault}

theorem moveStack_stops (inOrder : TreesInOrder heap) (different : dst ≠ src)
    (member : old ∈ (heap.stset src).stsetIdRbh)
    (failed : moveStack heap dst src old = .error fault) :
    fault = .freshIdTaken := by
  have outside : old ∉ (heap.stset dst).stsetIdRbh :=
    fun inDst => different (inOrder.apart dst src old (Or.inr inDst) (Or.inr member))
  have outcome := moveStack_outcome (inOrder.content dst) (inOrder.ids dst) different outside
  rw [failed] at outcome
  cases outcome
  rfl

theorem shareStack_stops (inOrder : TreesInOrder heap) (valid : dst ≠ 0)
    (failed : shareStack heap dst old block = .error fault) : fault = .noMemory ∧ block = none := by
  have outcome := @shareStack_case heap dst block old (inOrder.content dst) inOrder.top valid
  rw [failed] at outcome
  cases outcome with
  | noMemory absent uncopied => exact ⟨rfl, uncopied⟩

/-- A merge whose source backs the id stops for want of memory or of a free id. -/
theorem mprofileMergeStack_stops (inOrder : TreesInOrder heap) (different : dst ≠ src)
    (valid : dst ≠ 0)
    (stacked : id ≠ 0) (backs : Backs heap src (id :: ids))
    (failed : mprofileMergeStack heap dst src id block = .error fault) :
    fault = .freshIdTaken ∨ fault = .noMemory ∧ block = none := by
  rcases backs.head stacked with ⟨old, member, isId, -⟩
  have found := (findId_some_iff (inOrder.ids src)).mpr ⟨member, isId⟩
  rw [mprofileMergeStack, found] at failed
  simp only at failed
  split_ifs at failed
  · exact Or.inl (moveStack_stops inOrder different member failed)
  · exact Or.inr (shareStack_stops inOrder valid failed)

end Merging

section Saving

variable {copyBlock : Nat -> Option (Int -> UInt64)} {linkChains : Bool} {dst src : Nat}
  {st : SaveState}
  {mpr : MprofileRecord} {entries : List (Nat × MprofileRecord)} {fault : SaveFault}
  {prof : Profiler}

/-- What a fault of the loops says about the destination and the records. -/
def LoopCause (copyBlock : Nat -> Option (Int -> UInt64)) (dst : Nat)
    (entries : List (Nat × MprofileRecord)) :
    SaveFault -> Prop
  | .nullDereference => dst = 0
  | .merge .freshIdTaken => dst ≠ 0
  | .merge .noMemory => dst ≠ 0 ∧
      Exists fun entry => entry ∈ entries ∧ entry.2.mprStackId ≠ 0 ∧ copyBlock entry.2.mprId = none
  | _ => False

theorem LoopCause.mono {more : List (Nat × MprofileRecord)}
    (cause : LoopCause copyBlock dst entries fault)
    (within : entries ⊆ more) : LoopCause copyBlock dst more fault := by
  cases fault with
  | merge reason =>
      cases reason with
      | noMemory =>
          rcases cause with ⟨valid, entry, member, unbacked⟩
          exact ⟨valid, entry, within member, unbacked⟩
      | _ => exact cause
  | _ => exact cause

/-- One turn for a record of another profile. -/
theorem Mergeable.next_stops (mergeable : Mergeable st.stackHeap dst ((src, mpr) :: entries))
    (different : mpr.mprStackId ≠ 0 -> dst ≠ 0 -> dst ≠ src)
    (unsorted : Unsorted st ((src, mpr) :: entries))
    (failed : saveNext copyBlock dst st (src, mpr) = .error fault) :
    LoopCause copyBlock dst ((src, mpr) :: entries) fault := by
  rcases unsorted with ⟨records, log, fresh⟩
  have accepted := OrderedTree.insert_accepted (log.insert (fresh_of_nodup fresh).1 rfl).1
  rw [saveNext, saveRecord, accepted] at failed
  simp only at failed
  split_ifs at failed with unstacked null
  · cases failed
    exact null
  · cases merged : mprofileMergeStack st.stackHeap dst src mpr.mprStackId (copyBlock mpr.mprId) with
    | ok result => rw [merged] at failed; cases failed
    | error reason =>
        rw [merged] at failed
        cases failed
        have apart := different unstacked null
        have own := mergeable.backs src apart.symm
        rw [idsFrom_cons_self] at own
        rcases mprofileMergeStack_stops mergeable.inOrder apart null unstacked own merged with
          rfl | ⟨rfl, refused⟩
        · exact null
        · exact ⟨null, (src, mpr), List.mem_cons_self, unstacked, refused⟩

/-- The loops over the other profiles. -/
theorem Mergeable.exec_stops (mergeable : Mergeable st.stackHeap dst entries)
    (unsorted : Unsorted st entries)
    (others : forall entry, entry ∈ entries -> entry.2.mprStackId ≠ 0 -> dst ≠ 0 -> dst ≠ entry.1)
    (failed : exec (saveNext copyBlock dst) st entries = .error fault) :
    LoopCause copyBlock dst entries fault := by
  refine Foundation.exec_stops
    (fun st left => (Mergeable st.stackHeap dst left ∧ Unsorted st left) ∧ left ⊆ entries)
    (LoopCause copyBlock dst entries) ?_ ?_ ⟨⟨mergeable, unsorted⟩, List.Subset.refl _⟩ failed
  · rintro st ⟨src, mpr⟩ rest st' ⟨⟨mergeable, unsorted⟩, within⟩ saved
    have turn := mergeable.next copyBlock (others _ (within List.mem_cons_self)) unsorted
    exact ⟨turn.2 st' saved, fun entry member => within (List.mem_cons_of_mem _ member)⟩
  · rintro st ⟨src, mpr⟩ rest reason ⟨⟨mergeable, unsorted⟩, within⟩ stopped
    exact (mergeable.next_stops (others _ (within List.mem_cons_self)) unsorted stopped).mono within

/-- The loops over all profiles. -/
theorem SetsReady.saveProfiles_stops (ready : SetsReady prof)
    (fresh : (prof.records.map MprofileRecord.mprId).Nodup) {master : Nat} {others : List Nat}
    (profiles : prof.profiles = master :: others)
    (failed : saveProfiles copyBlock prof.masterStset ⟨prof.stackHeap, []⟩ prof.listed =
      .error fault) :
    LoopCause copyBlock prof.masterStset (toMerge prof.listed) fault := by
  rcases ready.loops copyBlock fresh profiles with
    ⟨own, split, -, middle, executed, -, mergeable, unsorted, apart⟩
  rw [← exec_toMerge, split, exec_append, executed] at failed
  rw [split]
  exact (mergeable.exec_stops unsorted apart failed).mono (List.subset_append_right _ _)

theorem LoopCause.saveCause
    (cause : LoopCause copyBlock prof.masterStset (toMerge prof.listed) fault) :
    SaveCause copyBlock linkChains prof fault := by
  cases fault with
  | merge reason =>
      cases reason with
      | noMemory =>
          rcases cause with ⟨valid, entry, member, stacked, refused⟩
          have record : entry.2 ∈ prof.records := by
            rw [Profiler.records, ← map_snd_toMerge]
            exact List.mem_map_of_mem member
          exact ⟨valid, entry.2, record, stacked, refused⟩
      | freshIdTaken => exact cause
      | sourceMissing => exact cause
  | nullDereference => exact cause
  | sameId => exact cause
  | chains stop => exact cause.elim

/-- Only the links stop what is done with the sorter. -/
theorem linkQueue_stops {sorter : List MprofileRecord}
    (failed : linkQueue linkChains sorter = .error fault) :
    linkChains = true ∧ Exists fun stop => fault = .chains stop ∧
      buildChains sorter = .error stop := by
  cases linkChains with
  | false => cases failed
  | true =>
      rw [linkQueue, if_pos rfl] at failed
      cases built : buildChains sorter with
      | ok queue => rw [built] at failed; cases failed
      | error stop =>
          rw [built] at failed
          cases failed
          exact ⟨rfl, stop, rfl, rfl⟩

/-- `mprofile_save` stops for want of a profile with a set, of a free id or of memory in that
set, or of a log that replays. -/
theorem mprofileSave_stops (ready : SetsReady prof)
    (fresh : (prof.records.map MprofileRecord.mprId).Nodup)
    (unlinked : forall mpr, mpr ∈ prof.records -> mpr.bare = mpr)
    (failed : mprofileSave copyBlock linkChains prof = .error fault) :
    SaveCause copyBlock linkChains prof fault := by
  rw [mprofileSave_eq] at failed
  cases profiles : prof.profiles with
  | nil =>
      rw [saveMerged_nil copyBlock linkChains profiles] at failed
      cases failed
      change prof.masterStset = 0
      rw [Profiler.masterStset, Profiler.listed, profiles]
      rfl
  | cons master others =>
      rw [saveMerged_cons copyBlock linkChains profiles] at failed
      cases merged : saveProfiles copyBlock prof.masterStset ⟨prof.stackHeap, []⟩ prof.listed with
      | error reason =>
          rw [merged] at failed
          cases failed
          exact (ready.saveProfiles_stops fresh profiles merged).saveCause
      | ok st =>
          rw [merged, Except.bind] at failed
          cases linked : linkQueue linkChains st.sorter with
          | ok queue => rw [linked] at failed; cases failed
          | error reason =>
              rw [linked] at failed
              cases failed
              rcases linkQueue_stops linked with ⟨links, stop, rfl, stopped⟩
              refine ⟨links, Classical.not_not.mp (fun replays => ?_)⟩
              rcases (linked_iff_replays fresh unlinked merged).mpr replays with ⟨queue, built⟩
              rw [stopped] at built
              cases built

end Saving

section Runs

variable {Thread : Type} [DecidableEq Thread] {C : Client Thread Call UInt64}
  {pool : Pool hookMachine C}

omit [DecidableEq Thread] in
/-- The profiles of a run are as `mprofile_save` needs them. -/
theorem StacksKept.setsReady {w : World} {gs : Thread -> Filing × Naming} (kept : StacksKept w gs)
    (few : w.prof.mprId + 1 < 2 ^ 32) : SetsReady w.prof ∧
      (w.prof.records.map MprofileRecord.mprId).Nodup ∧
      forall mpr, mpr ∈ w.prof.records -> mpr.bare = mpr := by
  rcases kept.uses few with ⟨uses, used, due⟩
  rcases kept.queues with ⟨drawn, queues⟩
  refine ⟨used.setsReady ?_ kept.list.nodup queues.once, queues.once, fun mpr member => ?_⟩
  · have within := used.length_le
    omega
  · have blank := queues.blank _ ((queues.filed _).mpr (Or.inl (List.mem_map_of_mem member)))
    exact bare_of_unlinked blank.1 blank.2.1

end Runs

/-- At any point of a run, `mprofile_save` completes exactly if it may save. -/
theorem StacksShared.mprofileSave_iff {Thread : Type} [DecidableEq Thread]
    {C : Client Thread Call UInt64}
    {pool : Pool hookMachine C} (shared : StacksShared pool)
    (few : pool.shared.prof.mprId + 1 < 2 ^ 32)
    (copyBlock : Nat -> Option (Int -> UInt64)) (linkChains : Bool) :
    (Exists fun doc => mprofileSave copyBlock linkChains pool.shared.prof = .ok doc) ↔
      Savable copyBlock linkChains pool.shared.prof := by
  rcases shared with ⟨gs, holds⟩
  rcases holds.invariant.setsReady few with ⟨ready, fresh, unlinked⟩
  exact Mprofile.mprofileSave_iff ready fresh unlinked

/-- Each stack id in a queue names an entry of the set of its profile, which counts at least as
many uses as there are records with the id. -/
def IdsHeld (prof : Profiler) : Prop :=
  forall mp id, id ∈ (prof.mprofile mp).mpTqhead.map MprofileRecord.mprStackId -> id ≠ 0 ->
    (prof.mprofile mp).mpStset ≠ 0 ∧ Exists fun p =>
      p ∈ (prof.stackHeap.stset (prof.mprofile mp).mpStset).stsetIdRbh ∧
        prof.stackHeap.idOf p = id ∧
        ((prof.mprofile mp).mpTqhead.map MprofileRecord.mprStackId).count id ≤
          prof.stackHeap.countOf p

/-- In every interleaving, whatever is refused, and also while threads are inside the hooks:
`mprofile_save` ends exactly if each stack it merges finds room in the set of the first
profile and the log replays, and otherwise its fault tells what was missing.  It never
misses the stack of a record in the set of its profile, and never meets an id twice: each id
that is stored names a stack with uses enough. -/
theorem mprofileSave_afterRun {Thread : Type} [DecidableEq Thread] {C : Client Thread Call UInt64}
    {family : Family}
    (traced : family ≠ .stats) (tid : Thread -> Nat) (client : C.State)
    (labels : List (PoolLabel Thread Call Answer))
    {pool : Pool hookMachine C} (executed : exec (Pool.next (fun t k => hook family (tid t) k))
      ⟨World.init, client, fun _ => none⟩ labels = .ok pool)
    (few : pool.shared.prof.mprId + 1 < 2 ^ 32)
    (copyBlock : Nat -> Option (Int -> UInt64)) (linkChains : Bool) :
    ((Exists fun doc => mprofileSave copyBlock linkChains pool.shared.prof = .ok doc) ↔
        Savable copyBlock linkChains pool.shared.prof) ∧
      (forall fault, mprofileSave copyBlock linkChains pool.shared.prof = .error fault ->
        SaveCause copyBlock linkChains pool.shared.prof fault) ∧
      IdsHeld pool.shared.prof := by
  rcases stacksShared_exec traced tid client labels executed with ⟨gs, holds⟩
  rcases holds.invariant.setsReady few with ⟨ready, fresh, unlinked⟩
  exact ⟨mprofileSave_iff ready fresh unlinked,
    fun fault failed => mprofileSave_stops ready fresh unlinked failed,
    ready.held⟩

/-- There is no set for the profile that is added first, which all others are merged into. -/
def setlessRun : List (PoolLabel (Fin 2) Call Answer) :=
  [.call threadA (.malloc 8) (answering 0), .call threadB (.malloc 8) (answering 0),
    .step threadB (answering 0),
    .step threadA { answering 0 with stsetOk := false }, .step threadA (answering 0),
    .step threadB (answering 0),
    .step threadA twoFrames, .step threadA twoFrames, .step threadB { twoFrames with ptr := 8192 },
      .step threadB twoFrames]

theorem mprofileSave_afterRun_setlessRun : Exists fun pool =>
    exec (HookPool.next .traceWithStack Fin.val) (HookPool.init (Fin 2) true) setlessRun =
      .ok pool ∧
      mprofileSave (fun _ => none) false pool.shared.prof = .error .nullDereference ∧
      ¬ Savable (fun _ => none) false pool.shared.prof ∧
      SaveCause (fun _ => none) false pool.shared.prof .nullDereference := by
  have reached : Exists fun pool =>
      exec (HookPool.next .traceWithStack Fin.val) (HookPool.init (Fin 2) true) setlessRun =
        .ok pool ∧
        pool.shared.prof.mprId + 1 < 2 ^ 32 ∧
        mprofileSave (fun _ => none) false pool.shared.prof = .error .nullDereference :=
    reaches_of_check (by decide +kernel)
  rcases reached with ⟨pool, executed, few, failed⟩
  have outcome :=
    mprofileSave_afterRun (by decide) Fin.val _ setlessRun executed few (fun _ => none) false
  refine ⟨pool, executed, failed, fun savable => ?_, outcome.2.1 _ failed⟩
  rcases outcome.1.mpr savable with ⟨doc, saved⟩
  rw [failed] at saved
  cases saved

/-! ## What the profiler survives -/

/-- The hooks and the file have come to no harm: what there was memory for is recorded, and
`mprofile_save` completes, also while threads are inside the hooks. -/
structure Survives {Thread : Type} [DecidableEq Thread]
    (copyBlock : Nat -> Option (Int -> UInt64)) (linkChains : Bool) (pool : HookPool Thread true)
    (log : CallLog hookMachine Thread Call UInt64) : Prop extends Unharmed pool log where
  completes : Exists fun doc => mprofileSave copyBlock linkChains pool.shared.prof = .ok doc

/-- Whatever requests for records, sets of stacks and copies of stacks are refused, the hooks
come to no harm, and the file is written exactly if there is a profile, each stack that is merged
finds room, and the log replays where chains are linked. -/
theorem survives_iff {Thread : Type} [DecidableEq Thread] {family : Family}
    (traced : family ≠ .stats) (tid : Thread -> Nat) (labels : List (PoolLabel Thread Call Answer))
    (careful : Meets (HookPool.next family tid) (HeaderCareful family)
      (HookPool.init Thread true) labels)
    (supplied : Meets (HookPool.next family tid) Supplies (HookPool.init Thread true) labels)
    (copyBlock : Nat -> Option (Int -> UInt64)) (linkChains : Bool) :
    (forall fault, exec (HookPool.loggedNext family tid) (HookPool.init Thread true, .empty)
      labels = .error (.fault fault) -> fault = .notLibc) ∧
      forall pool log, exec (HookPool.loggedNext family tid) (HookPool.init Thread true, .empty)
        labels = .ok (pool, log) -> pool.shared.prof.mprId + 1 < 2 ^ 32 ->
          (Survives copyBlock linkChains pool log ↔
            Savable copyBlock linkChains pool.shared.prof) := by
  have surviving := surviving_exec traced tid careful supplied
  refine ⟨surviving.1, fun pool log executed few => ?_⟩
  have shared : StacksShared pool := stacksShared_withHistory traced executed
  have saves := shared.mprofileSave_iff few copyBlock linkChains
  constructor
  · intro survives
    exact saves.mp survives.completes
  · intro savable
    exact ⟨(surviving.2 pool log executed).unharmed traced, saves.mpr savable⟩

/-- The second thread gets no set of stacks, and the first no memory for its second record. -/
def unbackedRun : List (PoolLabel (Fin 2) Call Answer) :=
  [.call threadA (.malloc 8) twoFrames, .step threadA twoFrames, .step threadA twoFrames,
    .step threadA twoFrames, .step threadA twoFrames,
    .call threadB (.malloc 8) twoFrames, .step threadB { twoFrames with stsetOk := false },
    .step threadB twoFrames, .step threadB { twoFrames with ptr := 8192 },
    .step threadB (answering 0), .call threadA (.malloc 24) twoFrames,
    .step threadA { twoFrames with ptr := 16384, recordOk := false }]

theorem survives_iff_unbackedRun : Exists fun pool => Exists fun log => Exists fun doc =>
    exec (HookPool.loggedNext .traceWithStack Fin.val) (HookPool.init (Fin 2) true, .empty)
      unbackedRun = .ok (pool, log) ∧
      log.finished.map FinishedCall.value = [4112, 8208, 16400] ∧
      mprofileSave (fun _ => none) true pool.shared.prof = .ok doc ∧
      doc.allocations.map MprofileRecord.mprMem = [4112, 8208] ∧
      doc.allocations.map MprofileRecord.mprStackId = [1, 0] ∧
      doc.allocations.map MprofileRecord.asRecorded = recordsOf log ∧
      Survives (fun _ => none) true pool log := by
  have reached : Exists fun both =>
      exec (HookPool.loggedNext .traceWithStack Fin.val) (HookPool.init (Fin 2) true, .empty)
        unbackedRun = .ok both ∧
        (forall t, both.1.thread t = none) ∧ both.1.shared.prof.mprId + 1 < 2 ^ 32 ∧
        both.2.finished.map FinishedCall.value = [4112, 8208, 16400] ∧
        (both.1.shared.prof.profiles ≠ [] ∧
          meetsCheck (saveNext (fun _ => none) both.1.shared.prof.masterStset)
            (MergeGranted (fun _ => none) both.1.shared.prof.masterStset)
            ⟨both.1.shared.prof.stackHeap, []⟩ (toMerge both.1.shared.prof.listed) = true ∧
          (replay both.1.shared.prof.mergedLog).isSome) ∧
        (mprofileSave (fun _ => none) true both.1.shared.prof).toOption.map (fun doc =>
          (doc.allocations.map MprofileRecord.mprMem,
            doc.allocations.map MprofileRecord.mprStackId)) = some ([4112, 8208], [1, 0]) :=
    reaches_of_check (by decide +kernel)
  rcases reached with ⟨⟨pool, log⟩, executed, quiescent, few, values, savable, document⟩
  have survives : Survives (fun _ => none) true pool log :=
    ((survives_iff (by decide) Fin.val unbackedRun (meets_of_check (by decide +kernel))
      (meets_of_check (by decide +kernel)) (fun _ => none) true).2 pool log executed few).mpr
        ⟨savable.1, meets_of_check savable.2.1, fun _ => Option.ne_none_iff_isSome.mpr savable.2.2⟩
  rcases survives.completes with ⟨doc, saved⟩
  rw [saved] at document
  have read := Prod.mk.inj (Option.some.inj document)
  exact ⟨pool, log, doc, executed, values, saved, read.1, read.2,
    survives.saved quiescent _ _ doc saved, survives⟩

/-- An idle program has no profile, and a profile that is refused is passed on to
`mprofile_add`. -/
theorem not_survives_idle :
    (exec (HookPool.loggedNext .trace Fin.val) (HookPool.init (Fin 2) true, .empty) [] =
      .ok (HookPool.init (Fin 2) true, .empty) ∧
      mprofileSave (fun _ => none) false (HookPool.init (Fin 2) true).shared.prof =
        .error .nullDereference ∧
      ¬ Survives (fun _ => none) false (HookPool.init (Fin 2) true) .empty) ∧
    exec (HookPool.loggedNext .trace Fin.val) (HookPool.init (Fin 2) true, .empty)
      [.call threadA (.malloc 8) (answering 0), .step threadA { answering 0 with createOk := false },
        .step threadA (answering 0)] = .error (.fault .nullDereference) := by
  have stopped : mprofileSave (fun _ => none) false (HookPool.init (Fin 2) true).shared.prof =
      .error .nullDereference := rfl
  refine ⟨⟨rfl, stopped, fun survives => ?_⟩, rfl⟩
  rcases survives.completes with ⟨doc, saved⟩
  rw [stopped] at saved
  cases saved

end Mprofile
end OsslScripts
