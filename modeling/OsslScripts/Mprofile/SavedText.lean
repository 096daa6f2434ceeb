import OsslScripts.Mprofile.KsymsExits
import OsslScripts.Mprofile.KsymsRange
import OsslScripts.Mprofile.LinkedMerge
import OsslScripts.Mprofile.PrintedNames
import OsslScripts.Mprofile.ProfileText
import OsslScripts.Mprofile.SaveStops

namespace OsslScripts
namespace Mprofile

open Foundation
open Foundation.Json

/-!
# The file of a run

What `mprofile_save` leaves in its file, after any run of any threads: one JSON document,
and reading it gives the records of the run.  The stacks of the merged set are in order and
none of them is null, whatever was merged, so the loop of `profile_save` over them ends.
Between the merge and the text `load_syms` opens the libraries, where the process may exit.
-/

/-- Why there is no text. -/
inductive TextFault where
  | save (fault : SaveFault)
  | exited (why : KelfExit)
deriving DecidableEq, Repr

/-- `mprofile_save` with the text that `profile_save` writes, which is none if its loop over
the stacks does not end. -/
def mprofileSaveText (qsort : Qsort) (bsearch : Bsearch) (opened : List (Shlib × KelfAnswer))
    (note : List Char)
    (copyBlock : Nat -> Option (Int -> UInt64)) (linkChains : Bool) (prof : Profiler) :
    Except TextFault (Option (List Char)) :=
  match saveMerged copyBlock linkChains prof with
  | .error fault => .error (.save fault)
  | .ok merged =>
      match Exiting.loadSyms qsort none opened with
      | .error why => .error (.exited why)
      | .ok syms =>
        .ok (printProfile (traceText bsearch syms) prof.startTimeTv note merged.1 merged.2)

/-- The reader's account of a document. -/
def Document.asRead (symbolText : UInt64 -> List Char) (note : List Char) (doc : Document) :
    ReadProfile where
  startTime := doc.startTime
  annotation := points note
  allocations := doc.allocations
  stackList := doc.stackList.map (fun st =>
    ⟨st.id, st.stackCount, st.threadId, (getTrace st).map (TraceEntry.text symbolText)⟩)

/-- No tree has a null in it. -/
def NoNull (heap : StackHeap) : Prop := forall s p, heap.Hangs s p -> p ≠ 0

section Merging

variable {heap : StackHeap} {dst src id : Nat} {block : Option (Int -> UInt64)}
  {result : StackHeap × Nat}

theorem NoNull.unlink (noNull : NoNull heap) (inOrder : TreesInOrder heap) (s p : Nat) :
    NoNull (unlinkStack heap s p) :=
  fun t q hung => noNull t q (inOrder.hangs_unlink hung).1

theorem NoNull.hang (noNull : NoNull heap) {p : Nat} (isStack : p ≠ 0) (s next : Nat) :
    NoNull (hangStack heap s p next) := by
  intro t q hung
  rcases hangs_hang hung with ⟨-, rfl⟩ | old
  · exact isStack
  · exact noNull t q old

theorem NoNull.mprofileAddStack (noNull : NoNull heap) (inOrder : TreesInOrder heap)
    (newMps : MprofileStack) :
    NoNull (mprofileAddStack heap dst newMps block).1 := by
  by_cases valid : dst = 0
  · rw [Mprofile.mprofileAddStack, if_pos valid]
    exact noNull
  · rcases mprofileAddStack_cases newMps block (inOrder.content dst) valid with
      ⟨p, -, -, added⟩ | ⟨-, ⟨-, added⟩ | ⟨copy, -, added⟩⟩
    · rw [added]
      exact noNull
    · rw [added]
      exact noNull
    · rw [added]
      have allocated : NoNull (newStack heap dst copy) := noNull
      exact allocated.hang (Nat.ne_of_gt inOrder.top) dst _

theorem NoNull.mprofileMergeStack (noNull : NoNull heap) (inOrder : TreesInOrder heap)
    (merged : mprofileMergeStack heap dst src id block = .ok result) : NoNull result.1 := by
  rw [Mprofile.mprofileMergeStack] at merged
  cases found : heap.findId id (heap.stset src).stsetIdRbh with
  | none => rw [found] at merged; cases merged
  | some old =>
      rw [found] at merged
      simp only at merged
      have member := ((findId_some_iff (inOrder.ids src)).mp found).1
      have unlinked := noNull.unlink inOrder src old
      split_ifs at merged
      · rcases moveStack_placed (inOrder.unlink src old) merged with
          ⟨same, -, rfl⟩ | ⟨-, renamed, next, rfl⟩
        · exact unlinked
        · have changed : NoNull ((unlinkStack heap src old).setMps old
              { (unlinkStack heap src old).mps old with mpsId := renamed }) := unlinked
          exact changed.hang (noNull src old (Or.inr member)) dst next
      · rcases shareStack_added merged with ⟨p, rfl⟩ | rfl
        · exact noNull
        · exact noNull.mprofileAddStack inOrder (heap.mps old)

end Merging

section Saving

variable {copyBlock : Nat -> Option (Int -> UInt64)} {linkChains : Bool} {dst : Nat}
  {st st' : SaveState}
  {entries : List (Nat × MprofileRecord)} {prof : Profiler} {merged : StackHeap × Profile}

/-- The other profiles leave trees in order, without null. -/
theorem Mergeable.exec_trees (mergeable : Mergeable st.stackHeap dst entries)
    (unsorted : Unsorted st entries)
    (others : forall entry, entry ∈ entries -> entry.2.mprStackId ≠ 0 -> dst ≠ 0 -> dst ≠ entry.1)
    (noNull : NoNull st.stackHeap) (executed : exec (saveNext copyBlock dst) st entries = .ok st') :
    TreesInOrder st'.stackHeap ∧ NoNull st'.stackHeap := by
  induction entries generalizing st with
  | nil =>
      cases executed
      exact ⟨mergeable.inOrder, noNull⟩
  | cons entry rest inductionHypothesis =>
      rcases entry with ⟨src, mpr⟩
      rcases exec_cons_ok executed with ⟨middle, saved, onward⟩
      have turn := (mergeable.next copyBlock (others _ List.mem_cons_self) unsorted).2 middle saved
      refine inductionHypothesis turn.1 turn.2
        (fun other member => others other (List.mem_cons_of_mem _ member))
        ?_ onward
      rcases ((saveRecord_ok_iff unsorted).2 middle saved).2 with ⟨-, sameHeap⟩ | ⟨-, new, merged⟩
      · rw [sameHeap]
        exact noNull
      · exact noNull.mprofileMergeStack mergeable.inOrder merged

/-- The stacks of the merged set are in order, and none of them is null. -/
theorem SetsReady.saveProfiles_stackTree (ready : SetsReady prof) (noNull : NoNull prof.stackHeap)
    (fresh : (prof.records.map MprofileRecord.mprId).Nodup) {master : Nat} {others : List Nat}
    (profiles : prof.profiles = master :: others)
    (saved : saveProfiles copyBlock prof.masterStset ⟨prof.stackHeap, []⟩ prof.listed = .ok st)
    (s : Nat) : StackTree st.stackHeap (st.stackHeap.stset s).stsetRbh := by
  rcases ready.loops copyBlock fresh profiles with
    ⟨own, split, -, middle, executed, sameHeap, mergeable, unsorted, apart⟩
  rw [← exec_toMerge, split, exec_append, executed] at saved
  have trees := mergeable.exec_trees unsorted apart (by rw [sameHeap]; exact noNull) saved
  exact ⟨trees.1.content s, fun p member => trees.2 s p (Or.inl member)⟩

theorem SetsReady.saveMerged_stackTree (ready : SetsReady prof) (noNull : NoNull prof.stackHeap)
    (fresh : (prof.records.map MprofileRecord.mprId).Nodup)
    (saved : saveMerged copyBlock linkChains prof = .ok merged) :
    StackTree merged.1 (merged.2.stackTree merged.1) := by
  have trees : forall s, StackTree merged.1 (merged.1.stset s).stsetRbh := by
    intro s
    cases profiles : prof.profiles with
    | nil =>
        rw [saveMerged_nil copyBlock linkChains profiles] at saved
        cases saved
    | cons master others =>
        rw [saveMerged_cons copyBlock linkChains profiles] at saved
        cases looped : saveProfiles copyBlock prof.masterStset ⟨prof.stackHeap, []⟩ prof.listed with
        | error fault => rw [looped] at saved; cases saved
        | ok st =>
            rw [looped, Except.bind] at saved
            cases linked : linkQueue linkChains st.sorter with
            | error fault => rw [linked] at saved; cases saved
            | ok queue =>
                rw [linked] at saved
                cases saved
                exact ready.saveProfiles_stackTree noNull fresh profiles looped s
  rw [Profile.stackTree]
  split_ifs with noSet
  · exact ⟨List.Pairwise.nil, fun p impossible => absurd impossible List.not_mem_nil⟩
  · exact trees _

end Saving

/-- The sets of a run have no null in their trees. -/
theorem SetsFiled.noNull {heap : StackHeap} {adds : Nat} (filed : SetsFiled heap adds) :
    NoNull heap := by
  intro s p hung
  have member : p ∈ heap.members s := hung.elim id (filed.same s p).mp
  exact Nat.ne_of_gt (filed.sorted.allocated s p member).1

section Text

variable {prof : Profiler} {qsort : Qsort} {bsearch : Bsearch} {opened : List (Shlib × KelfAnswer)}
  {note : List Char} {copyBlock : Nat -> Option (Int -> UInt64)} {linkChains : Bool}
  {outcome : Option (List Char)}

/-- What is merged is saved. -/
theorem mprofileSave_of_merged {merged : StackHeap × Profile}
    (merges : saveMerged copyBlock linkChains prof = .ok merged) :
    mprofileSave copyBlock linkChains prof =
      .ok (profileSave prof.startTimeTv merged.1 merged.2) := by
  rw [mprofileSave_eq, merges]
  rfl

/-- Something is saved as text exactly if it is saved, and `load_syms` comes back. -/
theorem mprofileSaveText_ok_iff :
    mprofileSaveText qsort bsearch opened note copyBlock linkChains prof = .ok outcome ↔
      Exists fun merged =>
        (saveMerged copyBlock linkChains prof = .ok merged ∧ AllGranted qsort none opened) ∧
        printProfile (traceText bsearch (loadSyms qsort (opened.map Prod.fst)))
          prof.startTimeTv note
          merged.1 merged.2 = outcome := by
  unfold mprofileSaveText
  cases saved : saveMerged copyBlock linkChains prof with
  | error fault =>
      constructor
      · intro impossible
        cases impossible
      · rintro ⟨merged, ⟨impossible, -⟩, -⟩
        cases impossible
  | ok merged =>
      simp only
      cases loaded : Exiting.loadSyms qsort none opened with
      | error why =>
          constructor
          · intro impossible
            cases impossible
          · rintro ⟨merged, ⟨-, granted⟩, -⟩
            rw [exiting_loadSyms_iff.mpr ⟨granted, rfl⟩] at loaded
            cases loaded
      | ok syms =>
          rcases exiting_loadSyms_iff.mp loaded with ⟨granted, rfl⟩
          constructor
          · intro printed
            exact ⟨merged, ⟨rfl, granted⟩, Except.ok.inj printed⟩
          · rintro ⟨_, ⟨same, -⟩, printed⟩
            cases same
            exact congrArg Except.ok printed

/-- What is saved is saved as text, and the text reads as the document where names and annotation
are plain. -/
theorem SetsReady.saveText_reads (ready : SetsReady prof) (noNull : NoNull prof.stackHeap)
    (fresh : (prof.records.map MprofileRecord.mprId).Nodup)
    (saved : mprofileSaveText qsort bsearch opened note copyBlock linkChains prof = .ok outcome) :
    Exists fun written => Exists fun doc =>
      outcome = some written ∧ mprofileSave copyBlock linkChains prof = .ok doc ∧
        (PlainNames (opened.map Prod.fst) -> Plain note -> Exists fun value =>
          Json.parse written = some value ∧
            readProfile value =
              some (doc.asRead (traceText bsearch (loadSyms qsort (opened.map Prod.fst)))
                note)) := by
  rcases mprofileSaveText_ok_iff.mp saved with ⟨merged, ⟨merges, -⟩, printed⟩
  have tree := ready.saveMerged_stackTree noNull fresh merges
  rw [printProfile_eq _ prof.startTimeTv note tree] at printed
  refine ⟨_, _, printed.symm, mprofileSave_of_merged merges, fun plainNames plainNote => ?_⟩
  have plain := plainNames.traceText qsort bsearch
  rcases scans_printProfile prof.startTimeTv tree plainNote (fun _ _ frame _ => plain frame) with
    ⟨written, printed', scans⟩
  rw [printProfile_eq _ prof.startTimeTv note tree] at printed'
  cases printed'
  refine ⟨_, parse_of_delivers scans (delivers_profile _ _ _ _ _), ?_⟩
  have sameStacks := (@asRead_document (traceText bsearch (loadSyms qsort (opened.map Prod.fst)))
    prof.startTimeTv merged.1 merged.2).2
  rw [readProfile_profileValue, List.map_map, Document.asRead, ← sameStacks]
  rfl

/-- At any point of a run, `mprofile_save` writes its text exactly if it may save and no library
makes the process exit, and the text reads as the document. -/
theorem StacksShared.saveText_reads {Thread : Type} [DecidableEq Thread]
    {C : Client Thread Call UInt64}
    {pool : Pool hookMachine C} (shared : StacksShared pool)
    (few : pool.shared.prof.mprId + 1 < 2 ^ 32) :
    ((Exists fun written =>
        mprofileSaveText qsort bsearch opened note copyBlock linkChains pool.shared.prof =
          .ok (some written)) ↔
      Savable copyBlock linkChains pool.shared.prof ∧ AllGranted qsort none opened) ∧
    forall outcome,
      mprofileSaveText qsort bsearch opened note copyBlock linkChains pool.shared.prof =
        .ok outcome ->
      Exists fun written => Exists fun doc =>
        outcome = some written ∧ mprofileSave copyBlock linkChains pool.shared.prof = .ok doc ∧
          (PlainNames (opened.map Prod.fst) -> Plain note -> Exists fun value =>
            Json.parse written = some value ∧
              readProfile value =
                some (doc.asRead (traceText bsearch (loadSyms qsort (opened.map Prod.fst)))
                  note)) := by
  have saves := shared.mprofileSave_iff few copyBlock linkChains
  rcases shared with ⟨gs, holds⟩
  rcases holds.invariant.setsReady few with ⟨ready, fresh, -⟩
  rcases holds.invariant.uses few with ⟨uses, used, -⟩
  refine ⟨⟨?_, ?_⟩, fun outcome saved => ready.saveText_reads used.sets.noNull fresh saved⟩
  · rintro ⟨written, saved⟩
    rcases mprofileSaveText_ok_iff.mp saved with ⟨merged, ⟨merges, granted⟩, -⟩
    exact ⟨saves.mp ⟨_, mprofileSave_of_merged merges⟩, granted⟩
  · rintro ⟨savable, granted⟩
    rcases saves.mpr savable with ⟨doc, inMemory⟩
    rw [mprofileSave_eq] at inMemory
    cases merges : saveMerged copyBlock linkChains pool.shared.prof with
    | error fault => rw [merges] at inMemory; cases inMemory
    | ok merged =>
        have tree := ready.saveMerged_stackTree used.sets.noNull fresh merges
        exact ⟨_, mprofileSaveText_ok_iff.mpr
          ⟨merged, ⟨merges, granted⟩, printProfile_eq _ _ note tree⟩⟩

end Text

/-- Whatever the interleaving and whatever was refused, `mprofile_save` writes its file exactly
if there is a profile, each stack it merges finds room, the log replays, and no library makes the
process exit.  When no hook is in progress, the records in the file are those that were drawn, in
their order.  Where the names of the functions and the annotation are plain, the file is a JSON
document, which reads as the document of the list model, with the names of the frames for its
stacks. -/
theorem mprofileSaveText_reads {Thread : Type} [DecidableEq Thread] {C : Client Thread Call UInt64}
    {family : Family}
    (traced : family ≠ .stats) (tid : Thread -> Nat) (client : C.State)
    (labels : List (PoolLabel Thread Call Answer))
    {pool : Pool hookMachine C} {history : RecordHistory Thread}
    (executed : exec (recordingNext family tid) (⟨World.init, client, fun _ => none⟩, .empty Thread)
      labels = .ok (pool, history)) (few : pool.shared.prof.mprId + 1 < 2 ^ 32) (qsort : Qsort)
    (bsearch : Bsearch)
    (opened : List (Shlib × KelfAnswer)) (environment : Option (List Char))
    (copyBlock : Nat -> Option (Int -> UInt64)) (linkChains : Bool) :
    let noted := mprofileGetAnnotation environment
    let file := mprofileSaveText qsort bsearch opened noted copyBlock linkChains pool.shared.prof
    ((Exists fun written => file = .ok (some written)) ↔
      Savable copyBlock linkChains pool.shared.prof ∧ AllGranted qsort none opened) ∧
    forall outcome, file = .ok outcome -> Exists fun written => Exists fun doc =>
      outcome = some written ∧ mprofileSave copyBlock linkChains pool.shared.prof = .ok doc ∧
        (pool.Quiescent ->
          doc.allocations.map MprofileRecord.asRecorded = history.recorded.map Recorded.mpr) ∧
        (PlainNames (opened.map Prod.fst) -> PlainNote environment -> Exists fun value =>
          Json.parse written = some value ∧
            readProfile value =
              some (doc.asRead (traceText bsearch (loadSyms qsort (opened.map Prod.fst)))
                  noted)) := by
  intro noted file
  have recording : Recording family pool history := recording_exec traced executed
  have shared : StacksShared pool := stacksShared_withHistory traced executed
  have saves :=
    @StacksShared.saveText_reads qsort bsearch opened noted copyBlock linkChains _ _ _ _ shared few
  refine ⟨saves.1, fun outcome saved => ?_⟩
  rcases saves.2 outcome saved with ⟨written, doc, isText, inMemory, read⟩
  exact ⟨written, doc, isText, inMemory, fun quiescent => (recording.saved quiescent inMemory).1,
    fun plainNames plainNote => read plainNames plainNote.plain⟩

/-- Two threads take a block each, with the same stack, which the second copies to another block. -/
def printedRun : List (PoolLabel (Fin 2) Call Answer) :=
  let otherCopy := { twoFrames with ptr := 8192, copyBlock := some (fun _ => 16384) }
  [.call threadA (.malloc 8) (answering 0), .call threadB (.malloc 8) (answering 0),
    .step threadB (answering 0),
    .step threadA (answering 0), .step threadA (answering 0), .step threadB (answering 0),
    .step threadA twoFrames, .step threadA twoFrames, .step threadB otherCopy,
      .step threadB otherCopy]

/-- One function, which has the first of the two frames. -/
def printedLibrary : List (Shlib × KelfAnswer) :=
  [(⟨some [undefinedSym, functionSym 'f' 1 10], 4⟩, .granted)]

theorem plainNames_printedLibrary : PlainNames (printedLibrary.map Prod.fst) := by
  intro shlib isLibrary sym isFunction
  cases List.mem_singleton.mp isLibrary
  cases List.mem_singleton.mp isFunction
  exact (by decide : Printable ['f'] ∧ Unescaped ['f'])

theorem allGranted_printedLibrary : AllGranted insertionQsort none printedLibrary := by
  have opens : Exiting.loadSyms insertionQsort none printedLibrary =
      .ok (some [⟨['f'], 5, 10⟩]) := by
    decide +kernel
  exact (exiting_loadSyms_iff.mp opens).1

theorem mprofileSaveText_reads_printedRun :
    Exists fun pool => Exists fun history => Exists fun written =>
    Exists fun value => Exists fun read =>
      exec (recordingNext .traceWithStack Fin.val) (HookPool.init (Fin 2) false, .empty (Fin 2))
        printedRun = .ok (pool, history) ∧
        mprofileSaveText insertionQsort (bsearchFirst ⟨['f'], 5, 10⟩) printedLibrary "a run".toList
          (fun _ => some (fun _ => 0)) true pool.shared.prof = .ok (some written) ∧
        Json.parse written = some value ∧ readProfile value = some read ∧
        read.allocations.map MprofileRecord.mprMem = [4112, 8208] ∧
        read.allocations.map MprofileRecord.asRecorded = history.recorded.map Recorded.mpr ∧
        read.stackList = [⟨1, 2, 0, [points "f+0x5".toList, points "0x14".toList]⟩] := by
  have reached : Exists fun both =>
      exec (recordingNext .traceWithStack Fin.val) (HookPool.init (Fin 2) false, .empty (Fin 2))
          printedRun = .ok both ∧
        (forall t, both.1.thread t = none) ∧ both.1.shared.prof.mprId + 1 < 2 ^ 32 ∧
        (mprofileSave (fun _ => some (fun _ => 0)) true both.1.shared.prof).toOption.map (fun doc =>
          (doc.allocations.map MprofileRecord.mprMem,
            (doc.asRead (traceText (bsearchFirst ⟨['f'], 5, 10⟩)
              (loadSyms insertionQsort (printedLibrary.map Prod.fst))) "a run".toList).stackList)) =
          some ([4112, 8208], [⟨1, 2, 0, [points "f+0x5".toList, points "0x14".toList]⟩]) :=
    reaches_of_check (by decide +kernel)
  rcases reached with ⟨⟨pool, history⟩, executed, quiescent, few, document⟩
  have plainNote : PlainNote (some "a run".toList) := by
    rintro value isValue
    cases isValue
    exact (by decide)
  have noted : mprofileGetAnnotation (some "a run".toList) = "a run".toList := by decide +kernel
  have outcomes :=
    mprofileSaveText_reads (C := application (Fin 2) false) (by decide) Fin.val Holdings.none
    printedRun executed few insertionQsort (bsearchFirst ⟨['f'], 5, 10⟩) printedLibrary
      (some "a run".toList)
    (fun _ => some (fun _ => 0)) true
  have shared : StacksShared pool := stacksShared_withHistory (by decide) executed
  cases saved : mprofileSave (fun _ => some (fun _ => 0)) true pool.shared.prof with
  | error fault =>
      rw [saved] at document
      cases document
  | ok doc =>
      rw [saved] at document
      have parts := Prod.mk.inj (Option.some.inj document)
      have savable := (shared.mprofileSave_iff few _ _).mp ⟨doc, saved⟩
      rw [noted] at outcomes
      rcases outcomes.1.mpr ⟨savable, allGranted_printedLibrary⟩ with ⟨written, isFile⟩
      rcases outcomes.2 _ isFile with ⟨written', doc', same, saved', recorded, reads⟩
      cases same
      cases saved.symm.trans saved'
      rcases reads plainNames_printedLibrary plainNote with ⟨value, parsed, read⟩
      exact ⟨pool, history, written, value, _, executed, isFile, parsed, read, parts.1,
        recorded quiescent, parts.2⟩

end Mprofile
end OsslScripts
