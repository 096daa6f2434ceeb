import OsslScripts.Mprofile.LinkedSets
import OsslScripts.Mprofile.MergeRoom

namespace OsslScripts
namespace Mprofile

open Foundation
open Utils

/-!
# Draining the profiles

`mprofile_save` on lists once more, now with what it destroys: once the records of a
profile have gone over to the first one, its stack set goes.  A set that is not read
any more plays no part in the merges, so the document is the same.
-/

/-- What is left of the profiles, and what has been freed. -/
structure DrainState where
  saved : SaveState
  freed : Freed

inductive DrainOp where
  | record (src : Nat) (mpr : MprofileRecord)
  | destroyStset (stset : Nat)

/-- What the merge for a record frees. -/
def recordFrees (heap : StackHeap) (dst src : Nat) (mpr : MprofileRecord)
    (block : Option (Int -> UInt64)) :
    List Nat :=
  if mpr.mprStackId = 0 then []
  else
    match mprofileMergeStack heap dst src mpr.mprStackId block with
    | .ok merged => mergeFrees heap src mpr.mprStackId merged.2
    | .error _ => []

/-- One turn of the inner loop, or what the outer loop does after that. -/
def drainNext (copyBlock : Nat -> Option (Int -> UInt64)) (dst : Nat) (st : DrainState) :
    DrainOp -> Except SaveFault DrainState
  | .record src mpr => (saveRecord copyBlock dst src st.saved mpr).map (fun saved =>
      ⟨saved, { st.freed with
        mps := st.freed.mps ++ recordFrees st.saved.stackHeap dst src mpr (copyBlock mpr.mprId) }⟩)
  | .destroyStset stset =>
      if stset = 0 then .ok st
      else
        let heap := st.saved.stackHeap
        .ok ⟨{ st.saved with stackHeap := clearStset heap stset (heap.stset stset).stsetId },
          ⟨st.freed.mps ++ heap.members stset, st.freed.stset ++ [stset]⟩⟩

/-- The records of a profile. -/
def Profile.drainOps (mp : Profile) : List DrainOp := mp.mpTqhead.map (.record mp.mpStset)

/-- The profiles after the first one. -/
def drainOthers (profiles : List Profile) : List DrainOp :=
  profiles.flatMap (fun mp => mp.drainOps ++ [.destroyStset mp.mpStset])

theorem drainOthers_cons (mp : Profile) (rest : List Profile) :
    drainOthers (mp :: rest) = mp.drainOps ++ .destroyStset mp.mpStset :: drainOthers rest := by
  rw [drainOthers, List.flatMap_cons, List.append_assoc, List.singleton_append]
  rfl

/-- The loops of `mprofile_save`, from the first profile on. -/
def drainProfiles : List Profile -> List DrainOp
  | [] => []
  | master :: rest => master.drainOps ++ drainOthers rest

/-! ## A set that is not read plays no part -/

section Frame

variable {heap : StackHeap} {s t p dst src old stackId : Nat} {set set' : MprofileStset}
  {block : Option (Int -> UInt64)}

theorem setStset_comm (different : t ≠ s) (heap : StackHeap) (set set' : MprofileStset) :
    (heap.setStset t set).setStset s set' = (heap.setStset s set').setStset t set := by
  rw [StackHeap.setStset, StackHeap.setStset, StackHeap.setStset, StackHeap.setStset,
    Function.update_comm different]

theorem stset_setStset_ne (different : t ≠ s) (heap : StackHeap) (set : MprofileStset) :
    (heap.setStset t set).stset s = heap.stset s := Function.update_of_ne different.symm _ _

/-- Do the same beside a set that has been changed. -/
def beside (t : Nat) (set : MprofileStset) (both : StackHeap × Nat) : StackHeap × Nat :=
  (both.1.setStset t set, both.2)

theorem unlinkStack_beside (different : t ≠ s) (heap : StackHeap) (set : MprofileStset) (p : Nat) :
    unlinkStack (heap.setStset t set) s p = (unlinkStack heap s p).setStset t set := by
  rw [unlinkStack, stset_setStset_ne different, setStset_comm different]
  rfl

theorem linkStack_beside (different : t ≠ s) (heap : StackHeap) (set : MprofileStset) (p : Nat) :
    linkStack (heap.setStset t set) s p = (linkStack heap s p).setStset t set := by
  rw [linkStack, stset_setStset_ne different, setStset_comm different]
  rfl

theorem mprofileAddStack_beside (different : t ≠ s) (newMps : MprofileStack) :
    mprofileAddStack (heap.setStset t set) s newMps block =
      beside t set (mprofileAddStack heap s newMps block) := by
  rw [mprofileAddStack, mprofileAddStack, stset_setStset_ne different]
  have search : (heap.setStset t set).findContent newMps (heap.stset s).stsetRbh =
    heap.findContent newMps (heap.stset s).stsetRbh := rfl
  rw [search]
  split_ifs
  · rfl
  · cases heap.findContent newMps (heap.stset s).stsetRbh with
    | some p => rfl
    | none =>
        cases mprofileCopyStack newMps block with
        | none => rfl
        | some copy =>
            have linked :=
              linkStack_beside different (heap.alloc { copy with mpsId := (heap.stset s).stsetId })
                set
              heap.mpsTop
            exact congrArg (fun final => (final, heap.mpsTop)) linked

theorem moveStack_beside (notDst : t ≠ dst) (notSrc : t ≠ src) (old : Nat) :
    moveStack (heap.setStset t set) dst src old =
      (moveStack heap dst src old).map (beside t set) := by
  rw [moveStack, moveStack, unlinkStack_beside notSrc]
  generalize unlinkStack heap src old = unlinked
  simp only [stset_setStset_ne notDst]
  have order : (unlinked.setStset t set).contentOrder = unlinked.contentOrder := rfl
  have idOrder : (unlinked.setStset t set).idOrder = unlinked.idOrder := rfl
  rw [order, idOrder]
  rcases OrderedTree.insert unlinked.contentOrder old (unlinked.stset dst).stsetRbh with
    ⟨rbh, _ | same⟩
  · rcases OrderedTree.insert unlinked.idOrder old (unlinked.stset dst).stsetIdRbh with
      ⟨idRbh, _ | taken⟩
    · simp only [setStset_comm notDst]
      rfl
    · simp only
      have renamed : ((unlinked.setStset t set).setMps old
          { (unlinked.setStset t set).mps old with
            mpsId := (unlinked.stset dst).stsetId }).idOrder =
        (unlinked.setMps old
          { unlinked.mps old with mpsId := (unlinked.stset dst).stsetId }).idOrder := rfl
      rw [renamed]
      rcases OrderedTree.insert (unlinked.setMps old
        { unlinked.mps old with mpsId := (unlinked.stset dst).stsetId }).idOrder old
          (unlinked.stset dst).stsetIdRbh with ⟨idRbh', _ | clash⟩
      · have swapped := setStset_comm notDst
          (unlinked.setMps old { unlinked.mps old with mpsId := (unlinked.stset dst).stsetId }) set
          ⟨uintSucc (unlinked.stset dst).stsetId, rbh, idRbh'⟩
        exact congrArg (fun final => Except.ok (final, old)) swapped
      · rfl
  · rfl

theorem shareStack_beside (notDst : t ≠ dst) (old : Nat) :
    shareStack (heap.setStset t set) dst old block =
      (shareStack heap dst old block).map (beside t set) := by
  rw [shareStack, shareStack, stset_setStset_ne notDst]
  have search : (heap.setStset t set).findContent ((heap.setStset t set).mps old)
    (heap.stset dst).stsetRbh = heap.findContent (heap.mps old) (heap.stset dst).stsetRbh := rfl
  rw [search]
  cases heap.findContent (heap.mps old) (heap.stset dst).stsetRbh with
  | some new => rfl
  | none =>
      have added := @mprofileAddStack_beside heap _ _ set block notDst (heap.mps old)
      simp only
      rw [show (heap.setStset t set).mps old = heap.mps old from rfl, added]
      rcases mprofileAddStack heap dst (heap.mps old) block with ⟨final, _ | n⟩ <;> rfl

/-- `mprofile_merge_stack` beside a set that has been changed. -/
theorem mprofileMergeStack_beside (notDst : t ≠ dst) (notSrc : t ≠ src) (stackId : Nat) :
    mprofileMergeStack (heap.setStset t set) dst src stackId block =
      (mprofileMergeStack heap dst src stackId block).map (beside t set) := by
  rw [mprofileMergeStack, mprofileMergeStack, stset_setStset_ne notSrc]
  have search : (heap.setStset t set).findId stackId (heap.stset src).stsetIdRbh =
    heap.findId stackId (heap.stset src).stsetIdRbh := rfl
  rw [search]
  cases heap.findId stackId (heap.stset src).stsetIdRbh with
  | none => rfl
  | some old =>
      simp only
      by_cases single : (heap.mps old).mpsCount = 1
      · rw [if_pos (show ((heap.setStset t set).mps old).mpsCount = 1 from single), if_pos single]
        exact moveStack_beside notDst notSrc old
      · rw [if_neg (show ((heap.setStset t set).mps old).mpsCount ≠ 1 from single), if_neg single]
        exact shareStack_beside notDst old

/-- Save a record beside a set that has been changed. -/
def SaveState.beside (t : Nat) (set : MprofileStset) (st : SaveState) : SaveState :=
  { st with stackHeap := st.stackHeap.setStset t set }

variable {copyBlock : Nat -> Option (Int -> UInt64)} {st : SaveState}

theorem saveRecord_beside (notDst : t ≠ dst) (notSrc : t ≠ src) (mpr : MprofileRecord) :
    saveRecord copyBlock dst src (st.beside t set) mpr =
      (saveRecord copyBlock dst src st mpr).map (SaveState.beside t set) := by
  have merges :=
    @mprofileMergeStack_beside st.stackHeap _ _ _ set (copyBlock mpr.mprId) notDst notSrc
    mpr.mprStackId
  rw [saveRecord, saveRecord]
  have sameSorter : (st.beside t set).sorter = st.sorter := rfl
  rw [sameSorter]
  rcases OrderedTree.insert recordIdCompare mpr st.sorter with ⟨sorter, _ | clash⟩
  · simp only
    split_ifs
    · rfl
    · rfl
    · rw [show (st.beside t set).stackHeap = st.stackHeap.setStset t set from rfl, merges]
      cases mprofileMergeStack st.stackHeap dst src mpr.mprStackId (copyBlock mpr.mprId) with
      | error fault => rfl
      | ok merged => rfl
  · rfl

theorem exec_saveNext_beside (notDst : t ≠ dst) {entries : List (Nat × MprofileRecord)}
    (unread : forall entry, entry ∈ entries -> t ≠ entry.1) :
    exec (saveNext copyBlock dst) (st.beside t set) entries =
      (exec (saveNext copyBlock dst) st entries).map (SaveState.beside t set) := by
  induction entries generalizing st with
  | nil => rfl
  | cons entry rest inductionHypothesis =>
      have one :=
        @saveRecord_beside _ _ _ set copyBlock st notDst (unread entry List.mem_cons_self) entry.2
      rw [exec, exec, saveNext, saveNext, one]
      cases saveRecord copyBlock dst entry.1 st entry.2 with
      | error fault => rfl
      | ok middle =>
        exact inductionHypothesis
          (fun other member => unread other (List.mem_cons_of_mem entry member))

end Frame

/-! ## The sets that are left -/

/-- The set that an operation takes something from. -/
def DrainOp.stset : DrainOp -> Nat
  | .record src _ => src
  | .destroyStset stset => stset

section Sets

variable {copyBlock : Nat -> Option (Int -> UInt64)} {dst src t : Nat} {mpr : MprofileRecord}

/-- A set that a record does not come from stays as it is. -/
theorem saveRecord_stset {st st' : SaveState} (notDst : t ≠ dst) (notSrc : t ≠ src)
    (saved : saveRecord copyBlock dst src st mpr = .ok st') :
    st'.stackHeap.stset t = st.stackHeap.stset t := by
  have besides := @saveRecord_beside _ _ _ (st.stackHeap.stset t) copyBlock st notDst notSrc mpr
  have same : st.beside t (st.stackHeap.stset t) = st := by
    rw [SaveState.beside, StackHeap.setStset, Function.update_eq_self]
  rw [same, saved] at besides
  have equal : st' = st'.beside t (st.stackHeap.stset t) := Except.ok.inj besides
  rw [equal]
  exact Function.update_self _ _ _

/-- The null pointer stays without stacks. -/
theorem saveRecord_null {st st' : SaveState} (blank : (st.stackHeap.stset 0).stsetIdRbh = [])
    (saved : saveRecord copyBlock dst src st mpr = .ok st') :
    st'.stackHeap.stset 0 = st.stackHeap.stset 0 := by
  by_cases isDst : 0 = dst
  · subst isDst
    rw [saveRecord] at saved
    generalize OrderedTree.insert recordIdCompare mpr st.sorter = inserted at saved
    rcases inserted with ⟨sorter, _ | clash⟩
    · simp only [if_true] at saved
      split_ifs at saved
      cases saved
      rfl
    · cases saved
  · by_cases isSrc : 0 = src
    · subst isSrc
      have missing : mprofileMergeStack st.stackHeap dst 0 mpr.mprStackId (copyBlock mpr.mprId) =
          .error .sourceMissing := by
        rw [mprofileMergeStack, blank]
        rfl
      rw [saveRecord] at saved
      generalize OrderedTree.insert recordIdCompare mpr st.sorter = inserted at saved
      rcases inserted with ⟨sorter, _ | clash⟩
      · simp only [missing] at saved
        split_ifs at saved
        cases saved
        rfl
      · cases saved
    · exact saveRecord_stset isDst isSrc saved

variable {st st' : DrainState}

theorem drainNext_stset {op : DrainOp} (notDst : t ≠ dst) (unread : t ≠ op.stset)
    (drained : drainNext copyBlock dst st op = .ok st') :
    st'.saved.stackHeap.stset t = st.saved.stackHeap.stset t := by
  cases op with
  | record src mpr =>
      rw [drainNext] at drained
      cases saved : saveRecord copyBlock dst src st.saved mpr with
      | error fault => rw [saved] at drained; cases drained
      | ok middle =>
          rw [saved] at drained
          cases drained
          exact saveRecord_stset notDst unread saved
  | destroyStset stset =>
      rw [drainNext] at drained
      split_ifs at drained
      · cases drained
        rfl
      · cases drained
        exact Function.update_of_ne unread _ _

theorem drainNext_null {op : DrainOp} (blank : (st.saved.stackHeap.stset 0).stsetIdRbh = [])
    (drained : drainNext copyBlock dst st op = .ok st') :
    st'.saved.stackHeap.stset 0 = st.saved.stackHeap.stset 0 := by
  cases op with
  | record src mpr =>
      rw [drainNext] at drained
      cases saved : saveRecord copyBlock dst src st.saved mpr with
      | error fault => rw [saved] at drained; cases drained
      | ok middle =>
          rw [saved] at drained
          cases drained
          exact saveRecord_null blank saved
  | destroyStset stset =>
      rw [drainNext] at drained
      split_ifs at drained with null
      · cases drained
        rfl
      · cases drained
        exact Function.update_of_ne (fun zero => null zero.symm) _ _

theorem exec_drainNext_stset {ops : List DrainOp} (notDst : t ≠ dst)
    (unread : forall op, op ∈ ops -> t ≠ op.stset)
    (drained : exec (drainNext copyBlock dst) st ops = .ok st') :
    st'.saved.stackHeap.stset t = st.saved.stackHeap.stset t := by
  induction ops generalizing st with
  | nil => cases drained; rfl
  | cons op rest inductionHypothesis =>
      rcases exec_cons_ok drained with ⟨middle, stepped, onward⟩
      have later :=
        inductionHypothesis (fun other member => unread other (List.mem_cons_of_mem op member))
          onward
      exact later.trans (drainNext_stset notDst (unread op List.mem_cons_self) stepped)

theorem exec_drainNext_null {ops : List DrainOp}
    (blank : (st.saved.stackHeap.stset 0).stsetIdRbh = [])
    (drained : exec (drainNext copyBlock dst) st ops = .ok st') :
    st'.saved.stackHeap.stset 0 = st.saved.stackHeap.stset 0 := by
  induction ops generalizing st with
  | nil => cases drained; rfl
  | cons op rest inductionHypothesis =>
      rcases exec_cons_ok drained with ⟨middle, stepped, onward⟩
      have same := drainNext_null blank stepped
      exact (inductionHypothesis (by rw [same]; exact blank) onward).trans same

/-- No two profiles have one set. -/
def OwnSets (profiles : List Profile) : Prop :=
  profiles.Pairwise (fun mp other => mp.mpStset ≠ 0 -> mp.mpStset ≠ other.mpStset)

theorem stset_of_mem_drainOps {mp : Profile} {op : DrainOp} (member : op ∈ mp.drainOps) :
    op.stset = mp.mpStset := by
  rcases List.mem_map.mp member with ⟨mpr, -, rfl⟩
  rfl

theorem stset_of_mem_drainOthers {profiles : List Profile} {op : DrainOp}
    (member : op ∈ drainOthers profiles) :
    Exists fun mp => mp ∈ profiles ∧ op.stset = mp.mpStset := by
  rcases List.mem_flatMap.mp member with ⟨mp, inProfiles, inOps⟩
  refine ⟨mp, inProfiles, ?_⟩
  rcases List.mem_append.mp inOps with isRecord | isDestroy
  · exact stset_of_mem_drainOps isRecord
  · rw [List.mem_singleton.mp isDestroy]
    rfl

theorem stset_of_mem_drainProfiles {profiles : List Profile} {op : DrainOp}
    (member : op ∈ drainProfiles profiles) :
    Exists fun mp => mp ∈ profiles ∧ op.stset = mp.mpStset := by
  cases profiles with
  | nil => cases member
  | cons master rest =>
      rcases List.mem_append.mp member with isRecord | inRest
      · exact ⟨master, List.mem_cons_self, stset_of_mem_drainOps isRecord⟩
      · rcases stset_of_mem_drainOthers inRest with ⟨mp, inProfiles, same⟩
        exact ⟨mp, List.mem_cons_of_mem master inProfiles, same⟩

/-- The sets of the other profiles are empty in the end. -/
theorem exec_drainOthers_gone {profiles : List Profile} (own : OwnSets profiles)
    (notDst : forall mp, mp ∈ profiles -> mp.mpStset ≠ 0 -> mp.mpStset ≠ dst)
    (drained : exec (drainNext copyBlock dst) st (drainOthers profiles) = .ok st') :
    forall mp, mp ∈ profiles -> mp.mpStset ≠ 0 -> st'.saved.stackHeap.members mp.mpStset = [] := by
  induction profiles generalizing st with
  | nil => exact fun _ impossible => by cases impossible
  | cons mp rest inductionHypothesis =>
      have parts := List.pairwise_cons.mp own
      rw [drainOthers_cons, exec_append] at drained
      cases records : exec (drainNext copyBlock dst) st mp.drainOps with
      | error fault => rw [records] at drained; cases drained
      | ok middle =>
          rw [records] at drained
          rcases exec_cons_ok drained with ⟨cleared, destroyed, onward⟩
          intro other member valid
          rcases List.mem_cons.mp member with rfl | inRest
          · have unread : forall op, op ∈ drainOthers rest -> other.mpStset ≠ op.stset := by
              intro op inOps
              rcases stset_of_mem_drainOthers inOps with ⟨later, inRest, same⟩
              rw [same]
              exact parts.1 later inRest valid
            have kept := exec_drainNext_stset (notDst other List.mem_cons_self valid) unread onward
            rw [drainNext, if_neg valid] at destroyed
            cases destroyed
            rw [StackHeap.members, kept]
            exact (members_clear _ _ _ _).trans (if_pos rfl)
          · exact inductionHypothesis parts.2
              (fun later inRest => notDst later (List.mem_cons_of_mem mp inRest))
              onward other inRest valid

/-- The sets that are freed. -/
def DrainOp.freesStset : DrainOp -> List Nat
  | .record _ _ => []
  | .destroyStset stset => if stset = 0 then [] else [stset]

theorem exec_drainNext_freed {ops : List DrainOp}
    (drained : exec (drainNext copyBlock dst) st ops = .ok st') :
    st'.freed.stset = st.freed.stset ++ ops.flatMap DrainOp.freesStset := by
  induction ops generalizing st with
  | nil =>
      cases drained
      exact (List.append_nil _).symm
  | cons op rest inductionHypothesis =>
      rcases exec_cons_ok drained with ⟨middle, stepped, onward⟩
      have one : middle.freed.stset = st.freed.stset ++ op.freesStset := by
        cases op with
        | record src mpr =>
            rw [drainNext] at stepped
            cases saved : saveRecord copyBlock dst src st.saved mpr with
            | error fault => rw [saved] at stepped; cases stepped
            | ok result =>
                rw [saved] at stepped
                cases stepped
                exact (List.append_nil _).symm
        | destroyStset stset =>
            rw [drainNext] at stepped
            rw [DrainOp.freesStset]
            split_ifs at stepped ⊢
            · cases stepped
              exact (List.append_nil _).symm
            · cases stepped
              rfl
      rw [inductionHypothesis onward, one, List.flatMap_cons, List.append_assoc]

theorem freesStset_drainOps (mp : Profile) : mp.drainOps.flatMap DrainOp.freesStset = [] := by
  rw [Profile.drainOps, List.flatMap_map]
  exact List.flatMap_eq_nil_iff.mpr (fun _ _ => rfl)

/-- The sets of all profiles but the first one are freed, each once. -/
theorem freesStset_drainProfiles (master : Profile) (rest : List Profile) :
    (drainProfiles (master :: rest)).flatMap DrainOp.freesStset =
      (rest.map Profile.mpStset).filter (fun stset => stset ≠ 0) := by
  rw [drainProfiles, List.flatMap_append, freesStset_drainOps, List.nil_append]
  induction rest with
  | nil => rfl
  | cons mp rest inductionHypothesis =>
      rw [drainOthers_cons, List.flatMap_append, freesStset_drainOps, List.nil_append,
        List.flatMap_cons,
        inductionHypothesis, List.map_cons, List.filter_cons, DrainOp.freesStset]
      by_cases null : mp.mpStset = 0
      · rw [if_pos null, if_neg (by simpa using null)]
        rfl
      · rw [if_neg null, if_pos (by simpa using null)]
        rfl

end Sets

/-! ## The document is the same -/

section Drained

variable {copyBlock : Nat -> Option (Int -> UInt64)} {dst : Nat}

/-- What `profile_save` sees of the sets. -/
def SameView (dst : Nat) (st st' : SaveState) : Prop :=
  st'.sorter = st.sorter ∧ st'.stackHeap.mps = st.stackHeap.mps ∧
    st'.stackHeap.stset dst = st.stackHeap.stset dst

theorem exec_drainNext_records (src : Nat) (queue : List MprofileRecord) (st : DrainState) :
    match exec (saveNext copyBlock dst) st.saved (queue.map (fun mpr => (src, mpr))) with
    | .ok saved => Exists fun freed => exec (drainNext copyBlock dst) st (queue.map (.record src)) =
        .ok ⟨saved, freed⟩
    | .error fault =>
      exec (drainNext copyBlock dst) st (queue.map (.record src)) = .error fault := by
  induction queue generalizing st with
  | nil => exact ⟨st.freed, rfl⟩
  | cons mpr rest inductionHypothesis =>
      rw [List.map_cons, List.map_cons, exec, exec, saveNext, drainNext]
      cases saveRecord copyBlock dst src st.saved mpr with
      | error fault => rfl
      | ok saved => exact inductionHypothesis ⟨saved, _⟩

theorem exec_drainOthers {profiles : List Profile} (own : OwnSets profiles)
    (notDst : forall mp, mp ∈ profiles -> mp.mpStset ≠ 0 -> mp.mpStset ≠ dst) (st : DrainState) :
    match exec (saveNext copyBlock dst) st.saved (toMerge profiles) with
    | .ok saved =>
      Exists fun st' => exec (drainNext copyBlock dst) st (drainOthers profiles) = .ok st' ∧
        SameView dst saved st'.saved
    | .error fault => exec (drainNext copyBlock dst) st (drainOthers profiles) = .error fault := by
  induction profiles generalizing st with
  | nil => exact ⟨st, rfl, rfl, rfl, rfl⟩
  | cons mp rest inductionHypothesis =>
      have parts := List.pairwise_cons.mp own
      have records := @exec_drainNext_records copyBlock dst mp.mpStset mp.mpTqhead st
      rw [toMerge, List.flatMap_cons, exec_append, drainOthers_cons, exec_append, Profile.drainOps]
      cases saved : exec (saveNext copyBlock dst) st.saved
          (mp.mpTqhead.map (fun mpr => (mp.mpStset, mpr))) with
      | error fault =>
          rw [saved] at records
          simp only at records ⊢
          rw [records]
      | ok middle =>
          rw [saved] at records
          rcases records with ⟨freed, drained⟩
          rw [drained]
          simp only [exec, drainNext]
          have onward := inductionHypothesis parts.2 (fun other member =>
            notDst other (List.mem_cons_of_mem mp member))
          by_cases null : mp.mpStset = 0
          · simp only [if_pos null]
            exact onward ⟨middle, freed⟩
          · simp only [if_neg null]
            let heap := middle.stackHeap
            let empty : MprofileStset := ⟨(heap.stset mp.mpStset).stsetId, [], []⟩
            have unread : forall entry, entry ∈ toMerge rest -> mp.mpStset ≠ entry.1 := by
              intro entry member
              rcases List.mem_flatMap.mp member with ⟨other, inRest, inQueue⟩
              rcases List.mem_map.mp inQueue with ⟨mpr, -, rfl⟩
              exact parts.1 other inRest null
            have besides := @exec_saveNext_beside _ _ empty copyBlock middle
              (notDst mp List.mem_cons_self null) _ unread
            have drained := onward ⟨middle.beside mp.mpStset empty,
              ⟨freed.mps ++ heap.members mp.mpStset, freed.stset ++ [mp.mpStset]⟩⟩
            rw [show (DrainState.mk (middle.beside mp.mpStset empty) _).saved =
              middle.beside mp.mpStset empty from rfl,
              besides] at drained
            change match exec (saveNext copyBlock dst) middle (toMerge rest) with
              | .ok saved =>
                Exists fun st' => exec (drainNext copyBlock dst) ⟨middle.beside mp.mpStset empty, _⟩
                  (drainOthers rest) = .ok st' ∧ SameView dst saved st'.saved
              | .error fault => exec (drainNext copyBlock dst) ⟨middle.beside mp.mpStset empty, _⟩
                  (drainOthers rest) = .error fault
            cases later : exec (saveNext copyBlock dst) middle (toMerge rest) with
            | error fault =>
                rw [later] at drained
                exact drained
            | ok final =>
                rw [later] at drained
                rcases drained with ⟨st', executed, sorter, mps, set⟩
                refine ⟨st', executed, sorter, mps, set.trans ?_⟩
                exact stset_setStset_ne (notDst mp List.mem_cons_self null) final.stackHeap empty

/-- The loops of `mprofile_save`, with what they destroy. -/
theorem exec_drainProfiles {master : Profile} {rest : List Profile} (own : OwnSets (master :: rest))
    (st : DrainState) :
    match saveProfiles copyBlock master.mpStset st.saved (master :: rest) with
    | .ok saved =>
      Exists fun st' =>
        exec (drainNext copyBlock master.mpStset) st (drainProfiles (master :: rest)) =
        .ok st' ∧ SameView master.mpStset saved st'.saved
    | .error fault =>
      exec (drainNext copyBlock master.mpStset) st (drainProfiles (master :: rest)) =
        .error fault := by
  have parts := List.pairwise_cons.mp own
  have notDst : forall mp, mp ∈ rest -> mp.mpStset ≠ 0 -> mp.mpStset ≠ master.mpStset :=
    fun mp member valid same => parts.1 mp member (same ▸ valid) same.symm
  have records := @exec_drainNext_records copyBlock master.mpStset master.mpStset master.mpTqhead st
  rw [← exec_toMerge, toMerge, List.flatMap_cons, exec_append, drainProfiles, exec_append,
    Profile.drainOps]
  cases saved : exec (saveNext copyBlock master.mpStset) st.saved
      (master.mpTqhead.map (fun mpr => (master.mpStset, mpr))) with
  | error fault =>
      rw [saved] at records
      simp only at records ⊢
      rw [records]
  | ok middle =>
      rw [saved] at records
      rcases records with ⟨freed, drained⟩
      rw [drained]
      exact exec_drainOthers parts.2 notDst ⟨middle, freed⟩

end Drained

end Mprofile
end OsslScripts
