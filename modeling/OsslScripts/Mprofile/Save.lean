import OsslScripts.Mprofile.Chains
import OsslScripts.Mprofile.Process

namespace OsslScripts
namespace Mprofile

open Foundation

/-!
# Saving the profiles

`mprofile_save` takes the records of all profiles into a tree ordered by id,
merging the stack of each record into the set of the first profile on the way,
moves them to the queue of that profile, links chains if it is asked to, and
writes the document.

What it leaves of the other profiles is freed, which nothing observes and which
is not modelled.  Frames stand for their symbols in the document.
-/

/-- Why `mprofile_save` does not write a document. -/
inductive SaveFault where
  /-- `master` or its stack set is null. -/
  | nullDereference
  /-- `assert(RB_INSERT(mprofile_record_sort, &sorter, mpr) == NULL)` -/
  | sameId
  | merge (fault : MergeFault)
  | chains (stop : ChainStop)
deriving DecidableEq, Repr

/-- What changes while the profiles are merged. -/
structure SaveState where
  stackHeap : StackHeap
  sorter : List MprofileRecord

/-- One turn of the inner loop of `mprofile_save`: the sorter takes the record,
whose stack moves from the set `src` to the set `dst`.  `copyBlock` gives for each
record the block for a copy of its stack. -/
def saveRecord (copyBlock : Nat -> Option (Int -> UInt64)) (dst src : Nat) (st : SaveState)
    (mpr : MprofileRecord) : Except SaveFault SaveState :=
  match OrderedTree.insert recordIdCompare mpr st.sorter with
  | (_, some _) => .error .sameId
  | (sorter, none) =>
      if mpr.mprStackId = 0 then .ok { st with sorter := sorter }
      else if dst = 0 then .error .nullDereference
      else
        match mprofileMergeStack st.stackHeap dst src mpr.mprStackId (copyBlock mpr.mprId) with
        | .error fault => .error (.merge fault)
        | .ok (heap, mps) =>
            -- the record is updated where it stands in the tree
            let mpr := { mpr with mprStackId := mprofileGetStackId heap mps }
            .ok ⟨heap, (OrderedTree.insert recordIdCompare mpr st.sorter).1⟩

/-- The inner loop of `mprofile_save`. -/
def saveRecords (copyBlock : Nat -> Option (Int -> UInt64)) (dst src : Nat) :
    SaveState -> List MprofileRecord -> Except SaveFault SaveState
  | st, [] => .ok st
  | st, mpr :: rest =>
      match saveRecord copyBlock dst src st mpr with
      | .error fault => .error fault
      | .ok st => saveRecords copyBlock dst src st rest

/-- The outer loop of `mprofile_save`. -/
def saveProfiles (copyBlock : Nat -> Option (Int -> UInt64)) (dst : Nat) :
    SaveState -> List Profile -> Except SaveFault SaveState
  | st, [] => .ok st
  | st, mp :: rest =>
      match saveRecords copyBlock dst mp.mpStset st mp.mpTqhead with
      | .error fault => .error fault
      | .ok st => saveProfiles copyBlock dst st rest

/-- `print_stack` -/
def printStack (mps : MprofileStack) : SavedStack where
  id := mps.mpsId
  stackCount := mps.mpsCount
  threadId := mps.mpsThread
  stackTrace := mps.frames.map .symbol ++ [.blank]

/-- `profile_save` -/
def profileSave (startTime : Timespec) (heap : StackHeap) (mp : Profile) : Document where
  startTime := startTime
  allocations := mp.mpTqhead
  stackList :=
    if mp.mpStset = 0 then []
    else (heap.stset mp.mpStset).stsetRbh.map (fun p => printStack (heap.mps p))

/-- The profiles in the order in which they were added. -/
def Profiler.listed (prof : Profiler) : List Profile := prof.profiles.map prof.mprofile

/-- `mprofile_save` -/
def mprofileSave (copyBlock : Nat -> Option (Int -> UInt64)) (linkChains : Bool) (prof : Profiler) :
    Except SaveFault Document :=
  match prof.listed with
  | [] => .error .nullDereference
  | master :: rest =>
      match saveProfiles copyBlock master.mpStset ⟨prof.stackHeap, []⟩ (master :: rest) with
      | .error fault => .error fault
      | .ok st =>
          if linkChains then
            match buildChains st.sorter with
            | .error stop => .error (.chains stop)
            | .ok linked =>
                .ok (profileSave prof.startTimeTv st.stackHeap { master with mpTqhead := linked })
          else .ok (profileSave prof.startTimeTv st.stackHeap { master with mpTqhead := st.sorter })

/-! ## The merged log -/

/-- The record without its stack. -/
def MprofileRecord.unfiled (mpr : MprofileRecord) : MprofileRecord := { mpr with mprStackId := 0 }

/-- The records of all profiles. -/
def Profiler.records (prof : Profiler) : List MprofileRecord :=
  prof.listed.flatMap Profile.mpTqhead

/-- The records of all profiles ordered by id. -/
def Profiler.mergedLog (prof : Profiler) : List MprofileRecord :=
  prof.records.insertionSort (fun a b => a.mprId ≤ b.mprId)

/-- The sorter holds these records in the order of their ids, up to stacks. -/
structure SortedLog (records sorter : List MprofileRecord) : Prop where
  sorted : OrderedTree.Sorted MprofileRecord.mprId sorter
  perm : (sorter.map MprofileRecord.unfiled).Perm (records.map MprofileRecord.unfiled)

section Sorting

variable {records sorter : List MprofileRecord} {mpr : MprofileRecord}

@[simp] theorem mprId_unfiled (mpr : MprofileRecord) : mpr.unfiled.mprId = mpr.mprId := rfl

@[simp] theorem unfiled_stackId (mpr : MprofileRecord) (stackId : Nat) :
    ({ mpr with mprStackId := stackId } : MprofileRecord).unfiled = mpr.unfiled := rfl

theorem map_mprId_unfiled (log : List MprofileRecord) :
    (log.map MprofileRecord.unfiled).map MprofileRecord.mprId = log.map MprofileRecord.mprId := by
  rw [List.map_map]
  rfl

theorem recordIdCompare_keyed (a b : MprofileRecord) :
    (recordIdCompare a b < 0 ↔ a.mprId < b.mprId) ∧
      (recordIdCompare a b = 0 ↔ a.mprId = b.mprId) :=
  ⟨threeWay_neg_iff _ _, threeWay_zero_iff _ _⟩

theorem SortedLog.ids (log : SortedLog records sorter) :
    (sorter.map MprofileRecord.mprId).Perm (records.map MprofileRecord.mprId) := by
  have mapped := log.perm.map MprofileRecord.mprId
  rwa [map_mprId_unfiled, map_mprId_unfiled] at mapped

/-- A record with a new id is taken, whatever its stack. -/
theorem SortedLog.insert (log : SortedLog records sorter)
    (fresh : mpr.mprId ∉ records.map MprofileRecord.mprId) {mpr' : MprofileRecord}
    (same : mpr'.unfiled = mpr.unfiled) :
    (OrderedTree.insert recordIdCompare mpr' sorter).2 = none ∧
      SortedLog (records ++ [mpr]) (OrderedTree.insert recordIdCompare mpr' sorter).1 := by
  have sameId : mpr'.unfiled.mprId = mpr.unfiled.mprId := congrArg MprofileRecord.mprId same
  rw [mprId_unfiled, mprId_unfiled] at sameId
  have absent : forall y, y ∈ sorter -> y.mprId ≠ mpr'.mprId := by
    intro y member equal
    refine fresh (log.ids.mem_iff.mp ?_)
    rw [← sameId, ← equal]
    exact List.mem_map_of_mem member
  rcases OrderedTree.insert_fresh (fun y _ => recordIdCompare_keyed mpr' y) absent with
    ⟨taken, perm, keepsSorted⟩
  refine ⟨taken, keepsSorted log.sorted, ?_⟩
  rw [List.map_append, List.map_singleton, ← same]
  refine (perm.map MprofileRecord.unfiled).trans ?_
  rw [List.map_cons]
  exact (log.perm.cons _).trans (List.perm_append_singleton _ _).symm

/-- Two logs of one set of records with different ids are the same up to stacks. -/
theorem SortedLog.eq_of_perm (inOrder : SortedLog records sorter) {log : List MprofileRecord}
    (perm : (log.map MprofileRecord.unfiled).Perm (records.map MprofileRecord.unfiled))
    (sorted : OrderedTree.Sorted MprofileRecord.mprId log) :
    sorter.map MprofileRecord.unfiled = log.map MprofileRecord.unfiled := by
  have increasing : forall l : List MprofileRecord, OrderedTree.Sorted MprofileRecord.mprId l ->
      (l.map MprofileRecord.unfiled).Pairwise (fun a b => a.mprId < b.mprId) :=
    fun l inOrder => List.pairwise_map.mpr inOrder
  refine List.Perm.eq_of_pairwise (fun a b _ _ less greater => ?_)
    (increasing sorter inOrder.sorted)
    (increasing log sorted) (inOrder.perm.trans perm.symm)
  exact absurd less (Nat.lt_asymm greater)

end Sorting

/-- Stacks have no part in a replay. -/
theorem replay_unfiled (log : List MprofileRecord) :
    replay (log.map MprofileRecord.unfiled) = replay log := by
  unfold replay
  generalize (∅ : Finset UInt64) = live
  induction log generalizing live with
  | nil => rfl
  | cons mpr rest inductionHypothesis =>
      have same : replayStep live mpr.unfiled = replayStep live mpr := rfl
      rw [List.map_cons, replayFrom, replayFrom, same]
      cases replayStep live mpr with
      | none => rfl
      | some after => exact inductionHypothesis after

/-! ## The loops -/

section Loops

variable (copyBlock : Nat -> Option (Int -> UInt64)) (dst src : Nat) {st st' : SaveState}
  {records : List MprofileRecord} {mpr : MprofileRecord}

/-- Faults of a merge: the loops of `mprofile_save` stop for no other reason. -/
def SaveFault.OfMerge (fault : SaveFault) : Prop :=
  fault = .nullDereference ∨ Exists fun reason => fault = .merge reason

theorem saveRecord_spec (log : SortedLog records st.sorter)
    (fresh : mpr.mprId ∉ records.map MprofileRecord.mprId) :
    (forall fault, saveRecord copyBlock dst src st mpr = .error fault -> fault.OfMerge) ∧
      forall st', saveRecord copyBlock dst src st mpr = .ok st' ->
        SortedLog (records ++ [mpr]) st'.sorter := by
  have taken := log.insert fresh rfl
  have accepted := OrderedTree.insert_accepted taken.1
  unfold saveRecord
  rw [accepted]
  by_cases unstacked : mpr.mprStackId = 0
  · simp only [if_pos unstacked]
    refine ⟨fun fault impossible => (by cases impossible), fun st' saved => ?_⟩
    cases saved
    exact taken.2
  · simp only [if_neg unstacked]
    by_cases null : dst = 0
    · rw [if_pos null]
      exact ⟨fun fault failed => (by cases failed; exact Or.inl rfl),
        fun st' impossible => by cases impossible⟩
    · rw [if_neg null]
      cases merged : mprofileMergeStack st.stackHeap dst src mpr.mprStackId
          (copyBlock mpr.mprId) with
      | error reason =>
          exact ⟨fun fault failed => (by cases failed; exact Or.inr ⟨reason, rfl⟩),
            fun st' impossible => by cases impossible⟩
      | ok result =>
          refine ⟨fun fault impossible => (by cases impossible), fun st' saved => ?_⟩
          cases saved
          exact (log.insert fresh (unfiled_stackId mpr _)).2

theorem saveRecords_spec {queue : List MprofileRecord} (log : SortedLog records st.sorter)
    (fresh : ((records ++ queue).map MprofileRecord.mprId).Nodup) :
    (forall fault, saveRecords copyBlock dst src st queue = .error fault -> fault.OfMerge) ∧
      forall st', saveRecords copyBlock dst src st queue = .ok st' ->
        SortedLog (records ++ queue) st'.sorter := by
  induction queue generalizing st records with
  | nil =>
      refine ⟨fun fault impossible => (by cases impossible), fun st' saved => ?_⟩
      cases saved
      rwa [List.append_nil]
  | cons mpr rest inductionHypothesis =>
      have split : records ++ mpr :: rest = (records ++ [mpr]) ++ rest := by simp
      have isFresh : mpr.mprId ∉ records.map MprofileRecord.mprId := by
        rw [List.map_append, List.map_cons] at fresh
        exact fun present => (List.nodup_append.mp fresh).2.2 _ present _ List.mem_cons_self rfl
      have one := saveRecord_spec copyBlock dst src log isFresh
      rw [saveRecords]
      cases stepped : saveRecord copyBlock dst src st mpr with
      | error reason =>
          refine ⟨fun fault failed => ?_, fun st' impossible => by cases impossible⟩
          cases failed
          exact one.1 reason stepped
      | ok middle =>
          rw [split] at fresh ⊢
          exact inductionHypothesis (one.2 middle stepped) fresh

theorem saveProfiles_spec (profiles : List Profile) (log : SortedLog records st.sorter)
    (fresh : ((records ++ profiles.flatMap Profile.mpTqhead).map MprofileRecord.mprId).Nodup) :
    (forall fault, saveProfiles copyBlock dst st profiles = .error fault -> fault.OfMerge) ∧
      forall st', saveProfiles copyBlock dst st profiles = .ok st' ->
        SortedLog (records ++ profiles.flatMap Profile.mpTqhead) st'.sorter := by
  induction profiles generalizing st records with
  | nil =>
      refine ⟨fun fault impossible => (by cases impossible), fun st' saved => ?_⟩
      cases saved
      rwa [List.flatMap_nil, List.append_nil]
  | cons mp rest inductionHypothesis =>
      rw [List.flatMap_cons, ← List.append_assoc] at fresh ⊢
      have here : ((records ++ mp.mpTqhead).map MprofileRecord.mprId).Nodup := by
        rw [List.map_append] at fresh
        exact (List.nodup_append.mp fresh).1
      have queue := saveRecords_spec copyBlock dst mp.mpStset log here
      rw [saveProfiles]
      cases stepped : saveRecords copyBlock dst mp.mpStset st mp.mpTqhead with
      | error reason =>
          refine ⟨fun fault failed => ?_, fun st' impossible => by cases impossible⟩
          cases failed
          exact queue.1 reason stepped
      | ok middle => exact inductionHypothesis (queue.2 middle stepped) fresh

/-- The state after a record that gets this stack id. -/
def SaveState.filed (st : SaveState) (heap : StackHeap) (mpr : MprofileRecord)
    (id : Nat) : SaveState :=
  ⟨heap, (OrderedTree.insert recordIdCompare { mpr with mprStackId := id } st.sorter).1⟩

variable {copyBlock dst src} {heap : StackHeap}

theorem saveRecord_unstacked (log : SortedLog records st.sorter)
    (fresh : mpr.mprId ∉ records.map MprofileRecord.mprId) (unstacked : mpr.mprStackId = 0) :
    saveRecord copyBlock dst src st mpr = .ok (st.filed st.stackHeap mpr 0) := by
  have accepted := OrderedTree.insert_accepted (log.insert fresh rfl).1
  have same : ({ mpr with mprStackId := 0 } : MprofileRecord) = mpr := by rw [← unstacked]
  rw [saveRecord, accepted, SaveState.filed, same]
  simp only [if_pos unstacked]

theorem saveRecord_merged (log : SortedLog records st.sorter)
    (fresh : mpr.mprId ∉ records.map MprofileRecord.mprId) (stacked : mpr.mprStackId ≠ 0)
    (valid : dst ≠ 0)
    {new : Nat}
    (merged : mprofileMergeStack st.stackHeap dst src mpr.mprStackId (copyBlock mpr.mprId) =
      .ok (heap, new)) :
    saveRecord copyBlock dst src st mpr =
      .ok (st.filed heap mpr (mprofileGetStackId heap new)) := by
  have accepted := OrderedTree.insert_accepted (log.insert fresh rfl).1
  rw [saveRecord, accepted]
  simp only [if_neg stacked, if_neg valid, merged]
  rfl

/-- The rest of the records has ids that are new. -/
theorem fresh_of_nodup {queue : List MprofileRecord}
    (fresh : ((records ++ mpr :: queue).map MprofileRecord.mprId).Nodup) :
    mpr.mprId ∉ records.map MprofileRecord.mprId ∧
      (((records ++ [mpr]) ++ queue).map MprofileRecord.mprId).Nodup := by
  have split : (records ++ [mpr]) ++ queue = records ++ mpr :: queue := by simp
  rw [split]
  refine ⟨fun present => ?_, fresh⟩
  rw [List.map_append, List.map_cons] at fresh
  exact (List.nodup_append.mp fresh).2.2 _ present _ List.mem_cons_self rfl

end Loops

theorem sortedLog_nil : SortedLog [] [] := ⟨List.Pairwise.nil, List.Perm.refl _⟩

section Merged

variable {prof : Profiler} {copyBlock : Nat -> Option (Int -> UInt64)} {linkChains : Bool}

/-- With different ids, the merged log is in strict order. -/
theorem sorted_mergedLog (fresh : (prof.records.map MprofileRecord.mprId).Nodup) :
    OrderedTree.Sorted MprofileRecord.mprId prof.mergedLog := by
  have perm : prof.mergedLog.Perm prof.records := List.perm_insertionSort _ _
  have different : prof.mergedLog.Pairwise (fun a b => a.mprId ≠ b.mprId) :=
    List.pairwise_map.mp ((perm.map MprofileRecord.mprId).nodup_iff.mpr fresh)
  have ordered : prof.mergedLog.Pairwise (fun a b => a.mprId ≤ b.mprId) :=
    List.pairwise_insertionSort _ _
  exact ordered.imp₂ (fun a b upTo unequal => Nat.lt_of_le_of_ne upTo unequal) different

/-- `mprofile_save` works on the merged log, and fails in a merge or in `build_chains` only. -/
theorem mprofileSave_mergedLog (fresh : (prof.records.map MprofileRecord.mprId).Nodup) :
    (forall fault, mprofileSave copyBlock linkChains prof = .error fault ->
      fault.OfMerge ∨ Exists fun stop => fault = .chains stop ∧ Exists fun sorter =>
        sorter.map MprofileRecord.unfiled = prof.mergedLog.map MprofileRecord.unfiled ∧
          buildChains sorter = .error stop) := by
  intro fault failed
  unfold mprofileSave at failed
  cases profiles : prof.listed with
  | nil =>
      rw [profiles] at failed
      cases failed
      exact Or.inl (Or.inl rfl)
  | cons master rest =>
      rw [profiles] at failed
      simp only at failed
      have start : SortedLog [] (SaveState.mk prof.stackHeap []).sorter := sortedLog_nil
      have loops := saveProfiles_spec copyBlock master.mpStset (master :: rest) start
        (by rw [List.nil_append, ← profiles]; exact fresh)
      rw [List.nil_append, ← profiles] at loops
      cases saved : saveProfiles copyBlock master.mpStset ⟨prof.stackHeap, []⟩ prof.listed with
      | error reason =>
          rw [← profiles, saved] at failed
          cases failed
          exact Or.inl (loops.1 _ saved)
      | ok st =>
          rw [← profiles, saved] at failed
          have same := (loops.2 st saved).eq_of_perm
            ((List.perm_insertionSort _ _).map MprofileRecord.unfiled) (sorted_mergedLog fresh)
          cases linkChains with
          | false => cases failed
          | true =>
              simp only [if_true] at failed
              cases built : buildChains st.sorter with
              | ok linked => rw [built] at failed; cases failed
              | error stop =>
                  rw [built] at failed
                  cases failed
                  exact Or.inr ⟨stop, rfl, st.sorter, same, built⟩

/-- The start of the axis is saved as it is. -/
theorem mprofileSave_startTime {doc : Document}
    (saved : mprofileSave copyBlock linkChains prof = .ok doc) :
    doc.startTime = prof.startTimeTv := by
  unfold mprofileSave at saved
  cases profiles : prof.listed with
  | nil => rw [profiles] at saved; cases saved
  | cons master rest =>
      rw [profiles] at saved
      simp only at saved
      split at saved
      · cases saved
      · split at saved
        · split at saved
          · cases saved
          · cases saved
            rfl
        · cases saved
          rfl

/-- What `mprofile_save` writes is the merged log up to stacks, linked if it is asked to. -/
theorem mprofileSave_ok (fresh : (prof.records.map MprofileRecord.mprId).Nodup) {doc : Document}
    (saved : mprofileSave copyBlock linkChains prof = .ok doc) :
    Exists fun sorter : List MprofileRecord =>
      sorter.map MprofileRecord.unfiled = prof.mergedLog.map MprofileRecord.unfiled ∧
        if linkChains then buildChains sorter = .ok doc.allocations
          else doc.allocations = sorter := by
  unfold mprofileSave at saved
  cases profiles : prof.listed with
  | nil => rw [profiles] at saved; cases saved
  | cons master rest =>
      rw [profiles] at saved
      simp only at saved
      have start : SortedLog [] (SaveState.mk prof.stackHeap []).sorter := sortedLog_nil
      have loops := saveProfiles_spec copyBlock master.mpStset (master :: rest) start
        (by rw [List.nil_append, ← profiles]; exact fresh)
      rw [List.nil_append, ← profiles] at loops
      cases merged : saveProfiles copyBlock master.mpStset ⟨prof.stackHeap, []⟩ prof.listed with
      | error reason => rw [← profiles, merged] at saved; cases saved
      | ok st =>
          rw [← profiles, merged] at saved
          refine ⟨st.sorter, (loops.2 st merged).eq_of_perm
            ((List.perm_insertionSort _ _).map MprofileRecord.unfiled) (sorted_mergedLog fresh), ?_⟩
          cases linkChains with
          | false => cases saved; rfl
          | true =>
              simp only [if_true] at saved
              cases built : buildChains st.sorter with
              | error stop => rw [built] at saved; cases saved
              | ok linked =>
                  rw [built] at saved
                  cases saved
                  rfl

/-- What `mprofile_save` writes is the merged log, up to stacks and links. -/
theorem mprofileSave_saved (fresh : (prof.records.map MprofileRecord.mprId).Nodup) {doc : Document}
    (saved : mprofileSave copyBlock linkChains prof = .ok doc) :
    Exists fun sorter : List MprofileRecord =>
      sorter.map MprofileRecord.unfiled = prof.mergedLog.map MprofileRecord.unfiled ∧
        doc.allocations.map MprofileRecord.bare = sorter.map MprofileRecord.bare := by
  rcases mprofileSave_ok fresh saved with ⟨sorter, filed, links⟩
  refine ⟨sorter, filed, ?_⟩
  cases linkChains with
  | false => rw [show doc.allocations = sorter from links]
  | true => exact buildChains_bare links

end Merged

end Mprofile
end OsslScripts
