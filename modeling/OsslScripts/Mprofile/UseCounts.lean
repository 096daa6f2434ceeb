import Mathlib.Algebra.BigOperators.Group.List.Lemmas
import OsslScripts.Mprofile.RecordCalls

namespace OsslScripts
namespace Mprofile

open Foundation

/-!
# The use counts after the merge

`mprofile_save` merges the set of each profile into that of the first one.  The
set of the first profile ends up with the tally `Tally.collect`.  A stack that
is copied because its own set still needs it brings the whole count along, and
the uses that are left are merged and counted again.
-/

/-- The count of each stack is the number of records with its frames, and the
counts add up to the number of records with a stack. -/
structure UseCountsExact (heap : StackHeap) (s : Nat) (history : List Stored) : Prop where
  each : forall p, p ∈ heap.members s ->
    heap.countOf p = (history.filterMap Stored.frames).count (heap.mps p).frames
  total : ((heap.members s).map heap.countOf).sum = (history.filterMap Stored.frames).length

/-! ## One source -/

/-- A set that is merged into another one, and the uses that are left in it. -/
structure Draining (heap : StackHeap) (dst src : Nat) (tally : Tally (List UInt64))
    (uses left : List (List UInt64)) : Prop where
  inv : StsetsApart heap
  source : StsetWf heap src
  taken : Tallies heap dst tally
  given : Tallies heap src (Tally.ofUses left)
  named : Named heap src (stackNumber uses)
  among : forall frames, frames ∈ left -> frames ∈ uses
  few : left.length < 2 ^ 32

section Sources

variable {heap heap' : StackHeap} {dst src new : Nat} {tally : Tally (List UInt64)}
  {uses left : List (List UInt64)} {frames : List UInt64} {block : Option (Int -> UInt64)}
  {copyBlock : Nat -> Option (Int -> UInt64)}

/-- The stack of the next record is the one with its frames. -/
theorem Draining.eq_of_number (draining : Draining heap dst src tally uses left) {p : Nat}
    (member : p ∈ heap.members src) (used : frames ∈ uses)
    (isNumber : heap.idOf p = stackNumber uses frames) : (heap.mps p).frames = frames := by
  rw [draining.named p member, stackNumber, stackNumber, Nat.succ_inj] at isNumber
  exact ((idxOf_distinct_inj used).mp isNumber.symm).symm

/-- Merging the stack of one record. -/
theorem Draining.merge (draining : Draining heap dst src tally uses (frames :: left))
    (different : dst ≠ src)
    (valid : dst ≠ 0)
    (merged : mprofileMergeStack heap dst src (stackNumber uses frames) block = .ok (heap', new)) :
    Draining heap' dst src
        (tally.set frames (some (tally.taken (2 ^ 32) frames ((frames :: left).count frames))))
          uses left ∧
      Keeps heap heap' dst ∧ forall t, t ≠ dst -> t ≠ src -> SameSet heap heap' t := by
  rcases mprofileMergeStack_handsOver draining.inv draining.source different valid draining.taken
      merged with
    ⟨old, member, isNumber, hands⟩
  have isFrames := draining.eq_of_number member (draining.among frames List.mem_cons_self) isNumber
  have count : (frames :: left).count frames = heap.countOf old :=
    (Tally.ofUses_some_iff.mp (isFrames ▸ draining.given.apply member)).1
  have small : heap.countOf old < 2 ^ 32 := by
    rw [← count]
    exact Nat.lt_of_le_of_lt List.count_le_length draining.few
  have positive : 0 < heap.countOf old := by
    rw [← count, List.count_cons_self]
    exact Nat.succ_pos _
  have taken := hands.taken
  have given := hands.given
  rw [uintPred_of_pos positive small] at given
  rw [isFrames, ← count] at taken given
  refine ⟨⟨hands.inv, hands.source, taken.tallies draining.taken, ?_, ?_, ?_, ?_⟩, taken.keeps,
    hands.elsewhere⟩
  · have tallies := given.tallies draining.given
    rwa [Tally.ofUses_drain] at tallies
  · refine given.named draining.named (fun _ _ _ => rfl) (fun still => ?_)
    rw [given.sameId member still]
    split_ifs at given with single
    · exact absurd still given.own
    · rw [given.own.2.1]
      exact isNumber
  · exact fun other isLeft => draining.among other (List.mem_cons_of_mem frames isLeft)
  · exact Nat.lt_of_succ_lt draining.few

/-- What the loop over the records of a profile does with the sets depends on
the stack ids of the records only. -/
theorem saveRecord_stackId {st st' : SaveState} {mpr : MprofileRecord}
    (saved : saveRecord copyBlock dst src st mpr = .ok st') :
    (mpr.mprStackId = 0 ∧ st'.stackHeap = st.stackHeap) ∨
      (mpr.mprStackId ≠ 0 ∧ dst ≠ 0 ∧ Exists fun new =>
        mprofileMergeStack st.stackHeap dst src mpr.mprStackId (copyBlock mpr.mprId) =
          .ok (st'.stackHeap, new)) := by
  unfold saveRecord at saved
  cases inserted : OrderedTree.insert recordIdCompare mpr st.sorter with
  | mk sorter found =>
      rw [inserted] at saved
      cases found with
      | some other => cases saved
      | none =>
          simp only at saved
          split at saved
          · rename_i unstacked
            cases saved
            exact Or.inl ⟨unstacked, rfl⟩
          · rename_i stacked
            split at saved
            · cases saved
            · rename_i valid
              split at saved
              · cases saved
              · rename_i heap new merged
                cases saved
                exact Or.inr ⟨stacked, valid, new, merged⟩

/-- Merging the records of a profile. -/
theorem Draining.save (different : dst ≠ src) {stored : List Stored} {queue : List MprofileRecord}
    {st st' : SaveState}
    (numbered : queue.map MprofileRecord.mprStackId = stored.map (Stored.number uses))
    (draining : Draining st.stackHeap dst src tally uses (stored.filterMap Stored.frames))
    (saved : saveRecords copyBlock dst src st queue = .ok st') :
    Draining st'.stackHeap dst src (tally.absorb (2 ^ 32) (stored.filterMap Stored.frames))
      uses [] ∧
      Keeps st.stackHeap st'.stackHeap dst ∧
      forall t, t ≠ dst -> t ≠ src -> SameSet st.stackHeap st'.stackHeap t := by
  induction queue generalizing stored st tally with
  | nil =>
      cases stored with
      | nil =>
          cases saved
          exact ⟨draining, fun p member => ⟨member, rfl, rfl⟩, fun t _ _ => ⟨rfl, fun _ _ => rfl⟩⟩
      | cons _ _ => cases numbered
  | cons mpr queue inductionHypothesis =>
      cases stored with
      | nil => cases numbered
      | cons first stored =>
          have ids := List.cons.inj numbered
          rw [saveRecords] at saved
          cases step : saveRecord copyBlock dst src st mpr with
          | error fault => rw [step] at saved; cases saved
          | ok middle =>
              rw [step] at saved
              cases isFrames : first.frames with
              | none =>
                  rw [List.filterMap_cons_none isFrames] at draining ⊢
                  have unstacked : mpr.mprStackId = 0 := by
                    rw [ids.1, Stored.number, isFrames]
                  rcases saveRecord_stackId step with ⟨-, sameHeap⟩ | ⟨stacked, -, -⟩
                  · rw [← sameHeap] at draining ⊢
                    exact inductionHypothesis ids.2 draining saved
                  · exact absurd unstacked stacked
              | some frames =>
                  rw [List.filterMap_cons_some isFrames] at draining ⊢
                  have number : mpr.mprStackId = stackNumber uses frames := by
                    rw [ids.1, Stored.number, isFrames]
                  rcases saveRecord_stackId step with ⟨unstacked, -⟩ | ⟨-, valid, new, merged⟩
                  · rw [number] at unstacked
                    cases unstacked
                  · rw [number] at merged
                    have once := draining.merge different valid merged
                    have rest := inductionHypothesis ids.2 once.1 saved
                    exact ⟨rest.1, once.2.1.trans rest.2.1, fun t notDst notSrc =>
                      (once.2.2 t notDst notSrc).trans (rest.2.2 t notDst notSrc)⟩

/-- Merging the first profile into itself changes nothing. -/
theorem saveRecords_self {stored : List Stored} {queue : List MprofileRecord} {st st' : SaveState}
    (wf : StsetWf st.stackHeap dst) (filed : FiledSet st.stackHeap dst uses)
    (few : uses.length < 2 ^ 32)
    (among : forall frames, frames ∈ stored.filterMap Stored.frames -> frames ∈ uses)
    (numbered : queue.map MprofileRecord.mprStackId = stored.map (Stored.number uses))
    (saved : saveRecords copyBlock dst dst st queue = .ok st') : st'.stackHeap = st.stackHeap := by
  induction queue generalizing stored st with
  | nil =>
      cases saved
      rfl
  | cons mpr queue inductionHypothesis =>
      cases stored with
      | nil => cases numbered
      | cons first stored =>
          have ids := List.cons.inj numbered
          rw [saveRecords] at saved
          cases step : saveRecord copyBlock dst dst st mpr with
          | error fault => rw [step] at saved; cases saved
          | ok middle =>
              rw [step] at saved
              have rest : forall frames, frames ∈ stored.filterMap Stored.frames ->
                  frames ∈ uses := by
                intro frames member
                rcases List.mem_filterMap.mp member with ⟨other, isStored, isFrames⟩
                exact among frames
                  (List.mem_filterMap.mpr ⟨other, List.mem_cons_of_mem _ isStored, isFrames⟩)
              have sameHeap : middle.stackHeap = st.stackHeap := by
                rcases saveRecord_stackId step with ⟨-, sameHeap⟩ | ⟨stacked, -, new, merged⟩
                · exact sameHeap
                · cases isFrames : first.frames with
                  | none =>
                      rw [ids.1, Stored.number, isFrames] at stacked
                      exact absurd rfl stacked
                  | some frames =>
                      have used : frames ∈ uses := among frames
                        (List.mem_filterMap.mpr ⟨first, List.mem_cons_self, isFrames⟩)
                      rcases (filed.tallies frames _).mp (Tally.ofUses_of_mem used) with
                        ⟨old, member, framesOld, count⟩
                      have number : st.stackHeap.idOf old = mpr.mprStackId := by
                        rw [filed.named old member, framesOld, ids.1, Stored.number, isFrames]
                      have small : st.stackHeap.countOf old < 2 ^ 32 := by
                        rw [count]
                        exact Nat.lt_of_le_of_lt List.count_le_length few
                      rw [mprofileMergeStack_self wf.trees ((wf.same old).mpr member) number
                        small] at merged
                      exact (Prod.mk.inj (Except.ok.inj merged)).1.symm
              rw [← sameHeap] at wf filed ⊢
              exact inductionHypothesis wf filed rest ids.2 saved

end Sources

/-! ## All profiles -/

section Profiles

variable {prof : Profiler} {history : List Stored} {dst : Nat} {tally : Tally (List UInt64)}
  {copyBlock : Nat -> Option (Int -> UInt64)} {st st' : SaveState}

/-- The ids of the queue, in the form in which the loops use them. -/
theorem Filed.stackIds (filed : Filed prof history) {mp : Nat} (isProfile : mp ∈ prof.profiles) :
    (prof.mprofile mp).mpTqhead.map MprofileRecord.mprStackId =
      (storedIn history mp).map (Stored.number (usesIn history mp)) := by
  have pairs := congrArg (List.map Prod.snd) (filed.queues mp isProfile)
  rw [List.map_map, List.map_map] at pairs
  exact pairs

theorem FewStacked.usesIn (few : FewStacked history) (mp : Nat) :
    (usesIn history mp).length < 2 ^ 32 :=
  Nat.lt_of_le_of_lt (length_usesIn_le history mp) (Nat.lt_of_succ_lt few)

/-- What is kept of the profiles that are not merged yet. -/
structure Waiting (prof : Profiler) (history : List Stored) (heap : StackHeap)
    (dst mp : Nat) : Prop where
  different : dst ≠ (prof.mprofile mp).mpStset
  numbered : (prof.mprofile mp).mpTqhead.map MprofileRecord.mprStackId =
    (storedIn history mp).map (Stored.number (usesIn history mp))
  source : StsetWf heap (prof.mprofile mp).mpStset
  filed : FiledSet heap (prof.mprofile mp).mpStset (usesIn history mp)
  few : (usesIn history mp).length < 2 ^ 32

theorem Waiting.sameSet {heap heap' : StackHeap} {mp : Nat}
    (waiting : Waiting prof history heap dst mp)
    (same : SameSet heap heap' (prof.mprofile mp).mpStset) : Waiting prof history heap' dst mp :=
  ⟨waiting.different, waiting.numbered, same.wf waiting.source, same.filedSet waiting.filed,
    waiting.few⟩

/-- Merging the profiles one after the other. -/
theorem saveProfiles_collects {profiles : List Nat}
    (once : profiles.Pairwise
      (fun mp other => (prof.mprofile mp).mpStset ≠ (prof.mprofile other).mpStset))
    (inv : StsetsApart st.stackHeap) (taken : Tallies st.stackHeap dst tally)
    (waiting : forall mp, mp ∈ profiles -> Waiting prof history st.stackHeap dst mp)
    (saved : saveProfiles copyBlock dst st (profiles.map prof.mprofile) = .ok st') :
    StsetsApart st'.stackHeap ∧ Keeps st.stackHeap st'.stackHeap dst ∧
      Tallies st'.stackHeap dst
        ((profiles.map (usesIn history)).foldl (Tally.absorb (2 ^ 32)) tally) := by
  induction profiles generalizing st tally with
  | nil =>
      cases saved
      exact ⟨inv, fun p member => ⟨member, rfl, rfl⟩, taken⟩
  | cons mp profiles inductionHypothesis =>
      rw [List.map_cons, saveProfiles] at saved
      cases step : saveRecords copyBlock dst (prof.mprofile mp).mpStset st
          (prof.mprofile mp).mpTqhead with
      | error fault => rw [step] at saved; cases saved
      | ok middle =>
          rw [step] at saved
          have first := waiting mp List.mem_cons_self
          have parts := List.pairwise_cons.mp once
          have draining : Draining st.stackHeap dst (prof.mprofile mp).mpStset tally
              (usesIn history mp)
              ((storedIn history mp).filterMap Stored.frames) :=
            ⟨inv, first.source, taken, first.filed.tallies, first.filed.named, fun _ used => used,
              first.few⟩
          rcases draining.save first.different first.numbered step with ⟨drained, keeps, elsewhere⟩
          have rest := inductionHypothesis parts.2 drained.inv drained.taken (fun other member => by
            have later := waiting other (List.mem_cons_of_mem mp member)
            exact later.sameSet (elsewhere _ later.different.symm (parts.1 other member).symm))
              saved
          exact ⟨rest.1, keeps.trans rest.2.1, rest.2.2⟩

/-- Before the merge, all profiles but the first one wait. -/
theorem Filed.waiting (filed : Filed prof history) (few : FewStacked history) {master : Nat}
    {rest : List Nat}
    (profiles : prof.profiles = master :: rest) :
    rest.Pairwise (fun mp other => (prof.mprofile mp).mpStset ≠ (prof.mprofile other).mpStset) ∧
      forall mp, mp ∈ rest -> Waiting prof history prof.stackHeap (prof.mprofile master).mpStset
        mp := by
  have isProfile : forall mp, mp ∈ master :: rest -> mp ∈ prof.profiles :=
    fun mp member => profiles ▸ member
  have once : (master :: rest).Pairwise
      (fun mp other => (prof.mprofile mp).mpStset ≠ (prof.mprofile other).mpStset) := by
    refine (profiles ▸ filed.profiles : (master :: rest).Nodup).imp_of_mem ?_
    intro mp other isMp isOther different same
    exact different (filed.stsetOnce mp other (isProfile mp isMp) (isProfile other isOther) same)
  have parts := List.pairwise_cons.mp once
  refine ⟨parts.2, fun mp member => ?_⟩
  have known := isProfile mp (List.mem_cons_of_mem master member)
  exact ⟨parts.1 mp member, filed.stackIds known, filed.heap.wf.sets _, filed.sets mp known,
    few.usesIn mp⟩

/-- The set of the first profile collects the uses of all profiles. -/
theorem Filed.collects (filed : Filed prof history) (few : FewStacked history) {master : Nat}
    {rest : List Nat}
    (profiles : prof.profiles = master :: rest)
    (saved : saveProfiles copyBlock (prof.mprofile master).mpStset ⟨prof.stackHeap, []⟩
      prof.listed = .ok st) :
    StsetsApart st.stackHeap ∧ Tallies st.stackHeap (prof.mprofile master).mpStset
      (Tally.collect (2 ^ 32) (usesIn history master) (rest.map (usesIn history))) := by
  have isProfile : master ∈ prof.profiles := profiles ▸ List.mem_cons_self
  have own := filed.sets master isProfile
  have waiting := filed.waiting few profiles
  rw [Profiler.listed, profiles, List.map_cons, saveProfiles] at saved
  cases step : saveRecords copyBlock (prof.mprofile master).mpStset (prof.mprofile master).mpStset
      ⟨prof.stackHeap, []⟩ (prof.mprofile master).mpTqhead with
  | error fault => rw [step] at saved; cases saved
  | ok middle =>
      rw [step] at saved
      have sameHeap : middle.stackHeap = prof.stackHeap :=
        saveRecords_self (filed.heap.wf.sets _) own (few.usesIn master) (fun _ used => used)
          (filed.stackIds isProfile) step
      have collects := saveProfiles_collects waiting.1 (sameHeap ▸ filed.heap.apart)
        (sameHeap ▸ own.tallies) (sameHeap ▸ waiting.2) saved
      exact ⟨collects.1, collects.2.2⟩

/-- The uses of all profiles are the uses in the history. -/
theorem Filed.perm_uses (filed : Filed prof history) {master : Nat} {rest : List Nat}
    (profiles : prof.profiles = master :: rest) :
    (usesIn history master :: rest.map (usesIn history)).flatten.Perm
      (history.filterMap Stored.frames) := by
  have sorted :=
    perm_flatMap_filter Stored.profile (master :: rest) (profiles ▸ filed.profiles) history
    (fun stored member => profiles ▸ (filed.known stored member).1)
  have uses := sorted.filterMap Stored.frames
  rw [List.filterMap_flatMap] at uses
  exact uses

/-- The counts that are collected add up to the number of uses if each is exact. -/
theorem total_of_each {heap : StackHeap} {s : Nat} {uses : List (List UInt64)}
    (inv : StsetsApart heap)
    (known : forall frames, (Exists fun p => p ∈ heap.members s ∧ (heap.mps p).frames = frames) ↔
      frames ∈ uses)
    (each : forall p, p ∈ heap.members s -> heap.countOf p = uses.count (heap.mps p).frames) :
    ((heap.members s).map heap.countOf).sum = uses.length := by
  have nodup : ((heap.members s).map (fun p => (heap.mps p).frames)).Nodup :=
    (inv.content s).nodup.map_on (fun p inP q inQ same => inv.frames_injective inQ inP same)
  have perm : ((heap.members s).map (fun p => (heap.mps p).frames)).Perm uses.dedup := by
    rw [List.perm_ext_iff_of_nodup nodup (List.nodup_dedup _)]
    intro frames
    rw [List.mem_dedup, ← known frames, List.mem_map]
  have counts : (heap.members s).map heap.countOf =
      ((heap.members s).map (fun p => (heap.mps p).frames)).map uses.count := by
    rw [List.map_map]
    exact List.map_congr_left each
  have dedup := List.sum_map_count_dedup_eq_length uses
  rw [lawful_beq_subsingleton instBEqOfDecidableEq List.instBEq] at dedup
  rw [counts, (perm.map _).sum_eq, dedup]

end Profiles

/-- After any record calls and the merge, the use counts are exact if and only if a
stack which the first profile does not use is used once in the first profile that
uses it. -/
theorem useCounts_exact_iff (calls : List RecordCall) (prof : Profiler) (history : List Stored)
    (executed : recordCalls calls = .ok (prof, history)) (few : FewStacked history) (master : Nat)
    (rest : List Nat) (profiles : prof.profiles = master :: rest)
    (copyBlock : Nat -> Option (Int -> UInt64)) (st : SaveState)
    (saved : saveProfiles copyBlock (prof.mprofile master).mpStset ⟨prof.stackHeap, []⟩
      prof.listed = .ok st) :
    UseCountsExact st.stackHeap (prof.mprofile master).mpStset history ↔
      Tally.FirstMetOnce (usesIn history master) (rest.map (usesIn history)) := by
  have filed := filed_recordCalls executed few
  have perm := filed.perm_uses profiles
  have collects := filed.collects few profiles saved
  have small : (usesIn history master :: rest.map (usesIn history)).flatten.length < 2 ^ 32 := by
    rw [perm.length_eq]
    exact Nat.lt_of_succ_lt few
  rw [← Tally.collect_exact_iff small]
  constructor
  · intro exact frames count known
    rcases (collects.2 frames count).mp known with ⟨p, member, rfl, rfl⟩
    rw [perm.count_eq]
    exact exact.each p member
  · intro exact
    have each : forall p, p ∈ st.stackHeap.members (prof.mprofile master).mpStset ->
        st.stackHeap.countOf p = (history.filterMap Stored.frames).count
            (st.stackHeap.mps p).frames := by
      intro p member
      rw [← perm.count_eq]
      exact exact _ _ (collects.2.apply member)
    refine ⟨each, total_of_each collects.1 (fun frames => ?_) each⟩
    rw [← perm.mem_iff, ← Tally.collect_isSome_iff small]
    constructor
    · rintro ⟨p, member, rfl⟩
      exact ⟨_, collects.2.apply member⟩
    · rintro ⟨count, known⟩
      rcases (collects.2 frames count).mp known with ⟨p, member, same, -⟩
      exact ⟨p, member, same⟩

/-- An allocation with a stack of one frame; a copy of it would be stored at `address`. -/
def recordFrame (tid : Nat) (frame address : UInt64) : RecordCall where
  tid := tid
  op := some (.alloc 4112 8)
  mps := some (oneFrame frame)
  answer := { answering 4096 with copyBlock := some (fun _ => address) }
  captured := fun _ same => Option.some.inj same ▸ ⟨Nat.one_pos, rfl⟩
  granted := ⟨rfl, rfl, rfl, fun impossible => by cases impossible⟩

/-- What these calls lead to, if they are taken. -/
def afterCalls (calls : List RecordCall) : Profiler × List Stored :=
  (recordCalls calls).toOption.getD (World.init.prof, [])

/-- Both threads use one stack, and the second one has another which it uses once. -/
def sharedCalls : List RecordCall :=
  [recordFrame 1 10 1000, recordFrame 2 10 2000, recordFrame 1 10 3000, recordFrame 2 20 3000]

theorem useCounts_exact_iff_sharedCalls : Exists fun st =>
    recordCalls sharedCalls = .ok (afterCalls sharedCalls) ∧
      saveProfiles (fun _ => none) 1 ⟨(afterCalls sharedCalls).1.stackHeap, []⟩
        (afterCalls sharedCalls).1.listed = .ok st ∧
      UseCountsExact st.stackHeap 1 (afterCalls sharedCalls).2 := by
  refine ⟨_, rfl, rfl, ?_⟩
  refine (useCounts_exact_iff sharedCalls (afterCalls sharedCalls).1 (afterCalls sharedCalls).2 rfl
    (by decide) 1 [2] rfl (fun _ => none) _ rfl).mpr ?_
  decide

/-- The second thread uses a stack of its own twice. -/
def twiceCalls : List RecordCall :=
  [recordFrame 1 10 1000, recordFrame 2 20 2000, recordFrame 2 20 3000]

/-- Two uses are counted as three. -/
theorem twiceCalls_not_exact :
    ¬ forall calls prof history master rest copyBlock st, recordCalls calls = .ok (prof, history) ->
      prof.profiles = master :: rest ->
      saveProfiles copyBlock (prof.mprofile master).mpStset ⟨prof.stackHeap, []⟩ prof.listed =
        .ok st ->
      UseCountsExact st.stackHeap (prof.mprofile master).mpStset history := by
  intro always
  have exact := always twiceCalls (afterCalls twiceCalls).1 (afterCalls twiceCalls).2 1 [2]
    (fun _ => some (fun _ => 3000)) _ rfl rfl rfl
  exact absurd (exact.each 3 (by decide)) (by decide)

end Mprofile
end OsslScripts
