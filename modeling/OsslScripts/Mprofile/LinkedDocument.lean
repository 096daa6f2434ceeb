import OsslScripts.Mprofile.LinkedSave

namespace OsslScripts
namespace Mprofile

open Foundation
open Utils

/-!
# The document from linked records

`mprofile_save` on linked structures writes the document that it writes on lists, or
stops where that stops.  All of the records are then in the queue of the first profile,
the other profiles and their sets have been freed once, and every stack is in the set of
the first profile or has been freed once.
-/

section Walks

variable {s : LinkedRecords} {linked : LinkedHeap} {heap : StackHeap} {freed : Freed}
  {fuel turns mp stset : Nat}
  {todo : List Nat}

/-- `TAILQ_FOREACH` over the records. -/
theorem walkRecords_runs {before : List Nat} (shows : s.mprTqe.Shows mp (before ++ todo))
    (turnsLeft : todo.length < turns) :
    Runs (Linked.walkRecords turns (todo.headD 0)) s (todo.map s.mpr) s := by
  induction todo generalizing before turns with
  | nil =>
      cases turns with
      | zero => cases turnsLeft
      | succ turns =>
          rw [List.headD_nil, Linked.walkRecords, if_pos rfl]
          exact runs_pure [] s
  | cons p rest inductionHypothesis =>
      cases turns with
      | zero => cases turnsLeft
      | succ turns =>
          have around := shows.around
          have split : (before ++ [p]) ++ rest = before ++ p :: rest := by simp
          have onward := inductionHypothesis (by rw [split]; exact shows)
            (Nat.lt_of_succ_lt_succ turnsLeft)
          rw [← around.next] at onward
          rw [List.headD_cons, Linked.walkRecords, if_neg around.nonzero]
          exact (runs_get s).bind (onward.bind (runs_pure _ s))

/-- The loop over the stacks of a set. -/
theorem walkStacks_runs {before : List Nat} (embodies : Embodies linked heap freed)
    (inOrder : TreesInOrder heap)
    (enough : 2 * Nat.log 2 heap.mpsTop < fuel) (valid : stset ≠ 0)
    (order : heap.members stset = before ++ todo)
    (turnsLeft : todo.length < turns) :
    Runs (Linked.walkStacks fuel stset turns (todo.headD 0)) linked
      (todo.map (fun p => printStack (heap.mps p)))
      linked := by
  induction todo generalizing before turns with
  | nil =>
      cases turns with
      | zero => cases turnsLeft
      | succ turns =>
          rw [List.headD_nil, Linked.walkStacks, if_pos rfl]
          exact runs_pure [] linked
  | cons p rest inductionHypothesis =>
      cases turns with
      | zero => cases turnsLeft
      | succ turns =>
          have member : p ∈ heap.members stset := by
            rw [order]
            exact List.mem_append_right before List.mem_cons_self
          have nonzero : p ≠ 0 := fun zero => embodies.proper_content stset (zero ▸ member)
          have next : Runs (Linked.mprofileGetNextStack fuel stset p) linked (rest.headD 0)
              linked := by
            rw [Linked.mprofileGetNextStack, if_neg valid, if_neg nonzero]
            exact embodies.second inOrder enough order
          have onward := inductionHypothesis (show _ = (before ++ [p]) ++ rest by rw [order]; simp)
            (Nat.lt_of_succ_lt_succ turnsLeft)
          have same : linked.mps p = heap.mps p := congrFun embodies.mps p
          rw [List.headD_cons, Linked.walkStacks, if_neg nonzero, List.map_cons, ← same]
          exact (runs_get linked).bind (next.bind (onward.bind (runs_pure _ linked)))

/-- `profile_save` -/
theorem profileSave_runs {queue : List Nat} (shows : s.mprTqe.Shows mp queue)
    (embodies : Embodies s.stsets heap freed) (inOrder : TreesInOrder heap)
    (queueTurns : queue.length < fuel)
    (stackTurns : 2 * heap.mpsTop < fuel) :
    Runs (Linked.profileSave fuel mp) s
      (Mprofile.profileSave s.startTimeTv heap ⟨queue.map s.mpr, s.mpStset mp⟩) s := by
  have first := @walkRecords_runs _ _ _ _ [] shows queueTurns
  rw [← shows.first] at first
  have enough : 2 * Nat.log 2 heap.mpsTop < fuel := by
    have short : Nat.log 2 heap.mpsTop ≤ Nat.log 2 (heap.mpsTop + 1) :=
      Nat.log_mono_right (Nat.le_succ _)
    have shorter := log_le heap.mpsTop
    omega
  rw [Mprofile.profileSave]
  by_cases null : s.mpStset mp = 0
  · rw [if_pos null]
    have second : Runs (Linked.stsets (Linked.mprofileGetNextStack fuel (s.mpStset mp) 0)) s
        0 s := by
      rw [null, Linked.mprofileGetNextStack, if_pos rfl]
      exact runs_focus (runs_pure 0 s.stsets)
    have third : Runs (Linked.stsets (Linked.walkStacks fuel (s.mpStset mp) fuel 0)) s [] s := by
      rcases Nat.exists_eq_succ_of_ne_zero (Nat.ne_zero_of_lt queueTurns) with ⟨turns, isFuel⟩
      have walked : Runs (Linked.walkStacks fuel (s.mpStset mp) fuel 0) s.stsets [] s.stsets := by
        nth_rewrite 2 [isFuel]
        rw [Linked.walkStacks, if_pos rfl]
        exact runs_pure [] s.stsets
      exact runs_focus walked
    exact (runs_get s).bind (first.bind (second.bind (third.bind (runs_pure _ s))))
  · rw [if_neg null]
    have turns : (heap.members (s.mpStset mp)).length < fuel := by
      have subset : heap.members (s.mpStset mp) ⊆ List.range heap.mpsTop :=
        fun p member => List.mem_range.mpr (inOrder.allocated _ p (Or.inl member))
      have short := (List.subperm_of_subset (inOrder.content (s.mpStset mp)).nodup subset).length_le
      rw [List.length_range] at short
      change (heap.members (s.mpStset mp)).length ≤ _ at short
      omega
    have start : Runs (Linked.mprofileGetNextStack fuel (s.mpStset mp) 0) s.stsets
        ((heap.members (s.mpStset mp)).headD 0) s.stsets := by
      rw [Linked.mprofileGetNextStack, if_neg null, if_pos rfl]
      exact embodies.first inOrder enough (s.mpStset mp)
    have walked := @walkStacks_runs _ _ _ _ _ _ _ [] embodies inOrder enough null rfl turns
    have second : Runs (Linked.stsets (Linked.mprofileGetNextStack fuel (s.mpStset mp) 0)) s
      ((heap.members (s.mpStset mp)).headD 0) s := runs_focus start
    have third : Runs (Linked.stsets (Linked.walkStacks fuel (s.mpStset mp) fuel
      ((heap.members (s.mpStset mp)).headD 0))) s _ s := runs_focus walked
    exact (runs_get s).bind (first.bind (second.bind (third.bind (runs_pure _ s))))

end Walks

/-! ## The profiler in memory -/

/-- What the recording functions keep of the profiles and their sets. -/
structure Orderly (prof : Profiler) : Prop where
  sound : Sound prof.stackHeap []
  accounted : Accounted prof.stackHeap []
  whole : forall t, prof.stackHeap.Whole t
  nullSet : (prof.stackHeap.stset 0).stsetRbh = [] ∧ (prof.stackHeap.stset 0).stsetIdRbh = []
  created : forall mp, (prof.mprofile mp).mpStset < prof.stackHeap.stsetTop
  own : forall mp other, mp ≠ other -> (prof.mprofile mp).mpStset ≠ 0 ->
    (prof.mprofile mp).mpStset ≠ (prof.mprofile other).mpStset
  listed : forall t, 0 < t -> t < prof.stackHeap.stsetTop ->
    Exists fun mp => mp ∈ prof.profiles ∧ (prof.mprofile mp).mpStset = t

/-- The structures in memory are those of the profiler, with these records in the queues. -/
structure Reflects (s : LinkedRecords) (prof : Profiler) (queues : TailQueues) : Prop where
  embodies : Embodies s.stsets prof.stackHeap ⟨[], []⟩
  holds : s.mprTqe.Holds queues
  records : forall mp, (queues mp).map s.mpr = (prof.mprofile mp).mpTqhead
  sets : forall mp, s.mpStset mp = (prof.mprofile mp).mpStset
  shows : s.mpTqe.Shows Linked.profiles prof.profiles
  plants : s.mprRbe.Plants (fun _ => [])
  startTimeTv : s.startTimeTv = prof.startTimeTv
  noMaster : s.master = 0
  freedMpr : s.freedMpr = []
  freedMp : s.freedMp = []

/-- Nothing is lost, and nothing was freed twice. -/
structure Settled (s : LinkedRecords) (prof : Profiler) (doc : Document) : Prop where
  records : Exists fun queue => s.mprTqe.Shows s.master queue ∧ queue.map s.mpr = doc.allocations
  freedMpr : s.freedMpr = []
  freedMp : s.freedMp = prof.profiles.tail
  freedStset : s.stsets.freed.stset = (prof.listed.tail.map Profile.mpStset).filter
    (fun stset => stset ≠ 0)
  once : s.stsets.freed.mps.Nodup
  eachStack : Exists fun heap => Embodies s.stsets heap s.stsets.freed ∧ forall p, 0 < p ->
    p < heap.mpsTop ->
    (p ∈ heap.members prof.masterStset ↔ p ∉ s.stsets.freed.mps)

section Saving

variable {s : LinkedRecords} {prof : Profiler} {queues : TailQueues} {fuel : Nat}
  {copyBlock : Nat -> Option (Int -> UInt64)} {linkChains : Bool}

/-- The document does not depend on the sets of the other profiles. -/
theorem profileSave_sameView {dst : Nat} {st st' : SaveState} (same : SameView dst st st')
    (startTime : Timespec)
    (queue : List MprofileRecord) :
    profileSave startTime st'.stackHeap ⟨queue, dst⟩ =
      profileSave startTime st.stackHeap ⟨queue, dst⟩ := by
  rw [profileSave, profileSave]
  simp only
  rw [same.2.1, same.2.2]

theorem Reflects.profileAt (reflects : Reflects s prof queues) (mps : List Nat) :
    mps.map (s.profileAt queues) = mps.map prof.mprofile := by
  refine List.map_congr_left (fun mp _ => ?_)
  rw [LinkedRecords.profileAt, reflects.records mp, reflects.sets mp]

theorem Orderly.ownSets (orderly : Orderly prof) (distinct : prof.profiles.Nodup) :
    OwnSets prof.listed :=
  List.pairwise_map.mpr
    (distinct.imp (fun {mp other} different valid => orderly.own mp other different valid))

/-- The state in which the loops of `mprofile_save` start. -/
def Profiler.drainStart (prof : Profiler) : DrainState := ⟨⟨prof.stackHeap, []⟩, ⟨[], []⟩⟩

theorem Reflects.emptying (reflects : Reflects s prof queues) (orderly : Orderly prof) (mp : Nat) :
    Exists fun s1 => Runs (Linked.records (rbInit Linked.sorter)) s () s1 ∧
      s1 = { s with mprRbe := s1.mprRbe } ∧
      Emptying s1 (prof.mprofile mp).mpStset prof.drainStart queues [] := by
  rcases reflects.plants.rbInit Linked.sorter with ⟨links, ran, plants⟩
  refine ⟨{ s with mprRbe := links }, runs_focus ran, rfl, reflects.embodies, orderly.sound,
    orderly.accounted,
    orderly.created mp, fun t _ => orderly.whole t, ?_, rfl, List.Pairwise.nil, reflects.holds,
    fun _ _ _ => List.not_mem_nil⟩
  have empty : (fun head => if head = Linked.sorter then ([] : List Nat) else []) =
      Function.update (fun _ => []) Linked.sorter [] := by
    rw [Function.update_eq_self]
    exact funext (fun head => ite_self _)
  rw [empty]
  exact plants

variable (copyBlock) in
/-- What the loops of `mprofile_save` do on lists, with what they destroy. -/
theorem Profiler.exec_drain {mp : Nat} {mps : List Nat} (own : OwnSets prof.listed)
    (profiles : prof.profiles = mp :: mps) :
    match saveProfiles copyBlock (prof.mprofile mp).mpStset ⟨prof.stackHeap, []⟩ prof.listed with
    | .ok saved =>
      Exists fun st' => exec (drainNext copyBlock (prof.mprofile mp).mpStset) prof.drainStart
        (drainProfiles prof.listed) = .ok st' ∧ SameView (prof.mprofile mp).mpStset saved st'.saved
    | .error fault => exec (drainNext copyBlock (prof.mprofile mp).mpStset) prof.drainStart
        (drainProfiles prof.listed) = .error fault := by
  have listed : prof.listed = prof.mprofile mp :: mps.map prof.mprofile := by
    rw [Profiler.listed, profiles, List.map_cons]
  rw [listed] at own ⊢
  exact exec_drainProfiles own prof.drainStart

/-- Each stack is in the set of the first profile in the end, or has been freed. -/
theorem Orderly.eachStack (orderly : Orderly prof) {mp : Nat} {mps : List Nat}
    (own : OwnSets prof.listed)
    (profiles : prof.profiles = mp :: mps) {st' : DrainState}
    (drained : exec (drainNext copyBlock (prof.mprofile mp).mpStset) prof.drainStart
      (drainProfiles prof.listed) = .ok st')
    (sound : Sound st'.saved.stackHeap st'.freed.mps)
    (accounted : Accounted st'.saved.stackHeap st'.freed.mps)
    {p : Nat} (positive : 0 < p) (below : p < st'.saved.stackHeap.mpsTop) :
    p ∈ st'.saved.stackHeap.members (prof.mprofile mp).mpStset ↔ p ∉ st'.freed.mps := by
  refine ⟨fun member inFreed => sound.unlinked p inFreed _ member, fun kept => ?_⟩
  rcases accounted.placed p positive below with inFreed | ⟨t, member⟩
  · exact absurd inFreed kept
  · by_cases isDst : t = (prof.mprofile mp).mpStset
    · exact isDst ▸ member
    · -- all other sets are empty
      have empty : st'.saved.stackHeap.members t = [] := by
        by_cases null : t = 0
        · subst null
          rw [StackHeap.members, exec_drainNext_null orderly.nullSet.2 drained]
          exact orderly.nullSet.1
        · by_cases created : t < prof.stackHeap.stsetTop
          · rcases orderly.listed t (Nat.pos_of_ne_zero null) created with
              ⟨other, inProfiles, isSet⟩
            have listed : prof.listed = prof.mprofile mp :: mps.map prof.mprofile := by
              rw [Profiler.listed, profiles, List.map_cons]
            have notMaster : other ≠ mp := fun same => isDst (same ▸ isSet.symm)
            have inRest : prof.mprofile other ∈ mps.map prof.mprofile := by
              rw [profiles] at inProfiles
              exact List.mem_map_of_mem ((List.mem_cons.mp inProfiles).resolve_left notMaster)
            rw [listed] at own drained
            rw [drainProfiles, exec_append] at drained
            have parts := List.pairwise_cons.mp own
            cases records : exec (drainNext copyBlock (prof.mprofile mp).mpStset) prof.drainStart
                (prof.mprofile mp).drainOps with
            | error fault => rw [records] at drained; cases drained
            | ok middle =>
                rw [records] at drained
                have notDst : forall later, later ∈ mps.map prof.mprofile -> later.mpStset ≠ 0 ->
                    later.mpStset ≠ (prof.mprofile mp).mpStset :=
                  fun later member valid same => parts.1 later member (same ▸ valid) same.symm
                rw [← isSet]
                exact exec_drainOthers_gone parts.2 notDst drained _ inRest
                  (by rw [isSet]; exact null)
          · have unread : forall op, op ∈ drainProfiles prof.listed -> t ≠ op.stset := by
              intro op inOps same
              rcases stset_of_mem_drainProfiles inOps with ⟨_, inListed, isSet⟩
              rcases List.mem_map.mp inListed with ⟨other, -, rfl⟩
              exact created (by rw [same, isSet]; exact orderly.created other)
            rw [StackHeap.members, exec_drainNext_stset isDst unread drained]
            exact orderly.accounted.blank t (Nat.not_lt.mp created)
      rw [empty] at member
      cases member

/-- There is fuel for saving the profiler: for the stacks, for a copy of one for each record,
and for the loops. -/
def Profiler.Fuelled (prof : Profiler) (fuel : Nat) : Prop :=
  2 * (prof.stackHeap.mpsTop + 2 * prof.records.length) < fuel ∧ prof.profiles.length < fuel

/-- `malloc` returns no block for a copy that a stack of a set is in at that time. -/
def Profiler.CopiesApart (prof : Profiler) (copyBlock : Nat -> Option (Int -> UInt64)) : Prop :=
  Meets (drainNext copyBlock prof.masterStset) (DrainOp.Asks copyBlock) prof.drainStart
    (drainProfiles prof.listed)

/-- Without a profile there is no master. -/
theorem Reflects.mprofileSave_nil (reflects : Reflects s prof queues) (positive : 0 < fuel)
    (profiles : prof.profiles = []) :
    Stops (Linked.mprofileSave fuel copyBlock linkChains) s (.save .nullDereference) := by
  rcases Nat.exists_eq_succ_of_ne_zero positive.ne' with ⟨turns, rfl⟩
  rcases reflects.plants.rbInit Linked.sorter with ⟨links, ran, plants⟩
  let s1 : LinkedRecords := { s with mprRbe := links }
  have first : Runs (Linked.records (rbInit Linked.sorter)) s () s1 := runs_focus ran
  have start : s1.mpTqe.tailqFirst Linked.profiles = 0 := by
    have shows := reflects.shows.first
    rwa [profiles] at shows
  have second : Runs (Linked.saveProfiles (turns + 1) copyBlock (turns + 1)
      (s1.mpTqe.tailqFirst Linked.profiles)) s1 () s1 := by
    rw [start, Linked.saveProfiles, if_pos rfl]
    exact runs_pure () s1
  have empty := plants.rbEmpty Linked.sorter
  rw [Function.update_self] at empty
  have reads : Runs (Linked.records (rbEmpty Linked.sorter)) s1 true s1 := runs_focus empty
  have third : Runs (Linked.drainSorter (turns + 1) (turns + 1)) s1 () s1 := by
    refine reads.bind ?_
    rw [if_pos rfl]
    exact runs_pure () s1
  refine first.then_stops ((runs_get s1).then_stops (second.then_stops (third.then_stops
    ((runs_get s1).then_stops ?_))))
  rw [if_pos (show s1.master = 0 from reflects.noMaster)]
  rfl

/-- The rest of `mprofile_save`, on lists. -/
def saveDocument (linkChains : Bool) (startTime : Timespec) (stset : Nat) (st : SaveState) :
    Except SaveFault Document :=
  if linkChains then
    match buildChains st.sorter with
    | .error stop => .error (.chains stop)
    | .ok linked => .ok (profileSave startTime st.stackHeap ⟨linked, stset⟩)
  else .ok (profileSave startTime st.stackHeap ⟨st.sorter, stset⟩)

theorem saveDocument_sameView {dst : Nat} {st st' : SaveState} (same : SameView dst st st')
    (startTime : Timespec) :
    saveDocument linkChains startTime dst st' = saveDocument linkChains startTime dst st := by
  rw [saveDocument, saveDocument, same.1]
  simp only [profileSave_sameView same]

/-- What has happened to the records in the end. -/
structure Documented (s : LinkedRecords) (mp : Nat) (doc : Document)
    (s' : LinkedRecords) : Prop where
  records : Exists fun queue => s'.mprTqe.Shows mp queue ∧ queue.map s'.mpr = doc.allocations
  frame : s' = { s with mpr := s'.mpr, mprTqe := s'.mprTqe, mprRbe := s'.mprRbe }

variable (linkChains) in
/-- The rest of `mprofile_save`, once the loops have left their records in the sorter. -/
theorem Emptying.saveMaster {dst mp : Nat} {st : DrainState} {sorted : List Nat}
    (emptying : Emptying s dst st queues sorted) (isMaster : s.master = mp) (nonzero : mp ≠ 0)
    (isDst : s.mpStset mp = dst) (empty : queues mp = []) (room : Roomy fuel st sorted 0) :
    match saveDocument linkChains s.startTimeTv dst st.saved with
    | .ok doc =>
      Exists fun s' => Runs (Linked.saveMaster fuel linkChains) s doc s' ∧ Documented s mp doc s'
    | .error fault => Stops (Linked.saveMaster fuel linkChains) s (.save fault) := by
  have short := log_le sorted.length
  rw [Roomy] at room
  rcases @drainSorter_runs _ fuel _ _ fuel _ emptying.holds isMaster emptying.plants
    emptying.sortedAddresses.nodup emptying.apart (by rw [Fuelled]; omega) (by omega) with
    ⟨s1, first, shows, plants, frame⟩
  rw [empty, List.nil_append] at shows
  have fields : s1.master = mp ∧ s1.mpr = s.mpr ∧ s1.mpStset = s.mpStset ∧
      s1.startTimeTv = s.startTimeTv ∧
      s1.stsets = s.stsets := by
    rw [frame]
    exact ⟨isMaster, rfl, rfl, rfl, rfl⟩
  have values : sorted.map s1.mpr = st.saved.sorter := by
    rw [fields.2.1]
    exact emptying.values
  have start : Runs (get : RecordM LinkedRecords) s1 s1 s1 := runs_get s1
  have isValid : ¬ s1.master = 0 := by
    rw [fields.1]
    exact nonzero
  -- the document of the state after the chains
  have documents : forall s2 : LinkedRecords, s2.mprTqe.Shows mp sorted -> s2.stsets = s.stsets ->
      s2.mpStset = s.mpStset -> s2.startTimeTv = s.startTimeTv ->
      Runs (Linked.profileSave fuel mp) s2
        (profileSave s.startTimeTv st.saved.stackHeap ⟨sorted.map s2.mpr, dst⟩) s2 := by
    intro s2 shows2 sets stsetOf startTime
    have written := @profileSave_runs _ _ _ fuel _ _ shows2 (by rw [sets]; exact emptying.embodies)
      emptying.sound.tidy.inOrder (by omega) (by omega)
    rw [stsetOf, startTime, isDst] at written
    exact written
  rw [saveDocument]
  cases linkChains with
  | false =>
      rw [if_neg Bool.false_ne_true]
      have written := documents s1 shows fields.2.2.2.2 fields.2.2.1 fields.2.2.2.1
      rw [values] at written
      refine ⟨s1, first.bind (start.bind ?_), ⟨sorted, shows, values⟩, ?_⟩
      · rw [if_neg isValid, fields.1]
        exact written
      · rw [frame]
  | true =>
      rw [if_pos rfl]
      have chains := @LinkedRecords.buildChains _ fuel _ _ shows plants (by omega) (by omega)
      rw [values] at chains
      cases built : buildChains st.saved.sorter with
      | error stop =>
          rw [built] at chains
          refine first.then_stops (start.then_stops ?_)
          rw [if_neg isValid, fields.1]
          exact chains.bind
      | ok linked =>
          rw [built] at chains
          rcases chains with ⟨s2, links, linkedValues, frame2⟩
          have fields2 : s2.mprTqe = s1.mprTqe ∧ s2.stsets = s1.stsets ∧ s2.mpStset = s1.mpStset ∧
              s2.startTimeTv = s1.startTimeTv := by
            rw [frame2]
            exact ⟨rfl, rfl, rfl, rfl⟩
          have shows2 : s2.mprTqe.Shows mp sorted := by
            rw [fields2.1]
            exact shows
          have written := documents s2 shows2 (fields2.2.1.trans fields.2.2.2.2)
            (fields2.2.2.1.trans fields.2.2.1) (fields2.2.2.2.trans fields.2.2.2.1)
          rw [linkedValues] at written
          refine ⟨s2, first.bind (start.bind ?_), ⟨sorted, shows2, linkedValues⟩, ?_⟩
          · rw [if_neg isValid, fields.1]
            exact links.bind written
          · have whole := frame2
            rw [frame] at whole
            rw [fields2.1]
            exact whole

/-- `mprofile_save` on linked structures writes the document that it writes on lists, or stops
where that stops.  Nothing is lost then, and nothing was freed twice. -/
theorem Reflects.mprofileSave (reflects : Reflects s prof queues) (orderly : Orderly prof)
    (fuelled : prof.Fuelled fuel) (apart : prof.CopiesApart copyBlock) :
    match Mprofile.mprofileSave copyBlock linkChains prof with
    | .ok doc =>
      Exists fun s' => Runs (Linked.mprofileSave fuel copyBlock linkChains) s doc s' ∧
        Settled s' prof doc
    | .error fault => Stops (Linked.mprofileSave fuel copyBlock linkChains) s (.save fault) := by
  cases profiles : prof.profiles with
  | nil =>
      have fails : Mprofile.mprofileSave copyBlock linkChains prof = .error .nullDereference := by
        rw [Mprofile.mprofileSave, Profiler.listed, profiles]
        rfl
      rw [fails]
      exact reflects.mprofileSave_nil (Nat.zero_lt_of_lt fuelled.2) profiles
  | cons mp mps =>
      have shows := reflects.shows
      rw [profiles] at shows
      have own := orderly.ownSets (by rw [profiles]; exact shows.distinct)
      have listed : prof.listed = prof.mprofile mp :: mps.map prof.mprofile := by
        rw [Profiler.listed, profiles, List.map_cons]
      have isDst := masterStset_cons profiles
      rw [Profiler.CopiesApart, isDst] at apart
      rcases reflects.emptying orderly mp with ⟨s1, first, frame1, emptying⟩
      have fields1 : s1.master = 0 ∧ s1.mpStset = s.mpStset ∧ s1.mpTqe = s.mpTqe ∧ s1.mpr = s.mpr ∧
          s1.kept = s.kept ∧ s1.freedMp = [] := by
        rw [frame1]
        exact ⟨reflects.noMaster, rfl, rfl, rfl, rfl, reflects.freedMp⟩
      have sameProfiles : (mp :: mps).map (s1.profileAt queues) = prof.listed := by
        have same : s1.profileAt queues = s.profileAt queues := by
          funext other
          rw [LinkedRecords.profileAt, LinkedRecords.profileAt, fields1.2.1, fields1.2.2.2.1]
        rw [same, reflects.profileAt, listed, List.map_cons]
      have setAt : forall other, s1.mpStset other = (prof.mprofile other).mpStset := by
        intro other
        rw [fields1.2.1, reflects.sets]
      have sizes : ((mp :: mps).flatMap queues).length = prof.records.length := by
        rw [Profiler.records, Profiler.listed, profiles, List.flatMap_map, List.length_flatMap,
          List.length_flatMap]
        refine congrArg List.sum (List.map_congr_left (fun other _ => ?_))
        rw [← reflects.records other, List.length_map]
      have room : Roomy fuel prof.drainStart [] (0 + ((mp :: mps).flatMap queues).length) := by
        have enough := fuelled.1
        rw [Roomy, Nat.zero_add, sizes]
        exact enough
      have turns : (mp :: mps).length < fuel := by
        have enough := fuelled.2
        rwa [profiles] at enough
      have loops := emptying.saveProfiles fields1.1 (setAt mp)
        (fun other member valid same => by
          rw [setAt other] at valid same
          have different : other ≠ mp :=
            fun equal => (List.nodup_cons.mp shows.distinct).1 (equal ▸ member)
          exact orderly.own other mp different valid same)
        (by rw [fields1.2.2.1]; exact shows) room turns (by rw [sameProfiles]; exact apart)
      rw [sameProfiles] at loops
      have drains := prof.exec_drain copyBlock own profiles
      have start : s1.mpTqe.tailqFirst Linked.profiles = mp := by
        rw [fields1.2.2.1]
        exact shows.first
      cases saved : saveProfiles copyBlock (prof.mprofile mp).mpStset ⟨prof.stackHeap, []⟩
          prof.listed with
      | error fault =>
          have fails : Mprofile.mprofileSave copyBlock linkChains prof = .error fault := by
            rw [listed] at saved
            rw [Mprofile.mprofileSave, listed]
            simp only [saved]
          rw [fails]
          rw [saved] at drains
          simp only at drains ⊢
          rw [drains] at loops
          refine first.then_stops ((runs_get s1).then_stops ?_)
          rw [start]
          exact loops.bind
      | ok st =>
          have goesOn : Mprofile.mprofileSave copyBlock linkChains prof =
              saveDocument linkChains prof.startTimeTv (prof.mprofile mp).mpStset st := by
            rw [listed] at saved
            rw [Mprofile.mprofileSave, listed]
            simp only [saved]
            rfl
          rw [goesOn]
          rw [saved] at drains
          rcases drains with ⟨st', drained, view⟩
          rw [drained] at loops
          rcases loops with ⟨s2, sorted, second, left, room2⟩
          have kept2 : s2.kept = s.kept := left.kept.trans fields1.2.2.2.2.1
          have isStset : s2.mpStset mp = (prof.mprofile mp).mpStset := by
            rw [show s2.mpStset = s.mpStset from congrArg (fun kept => kept.2.1) kept2]
            exact reflects.sets mp
          have startTime : s2.startTimeTv = prof.startTimeTv :=
            (congrArg (fun kept => kept.1) kept2).trans reflects.startTimeTv
          have rest := left.emptying.saveMaster linkChains left.master
            (fun zero => shows.proper (zero ▸ List.mem_cons_self)) isStset
            (if_pos List.mem_cons_self) room2
          rw [startTime, saveDocument_sameView view] at rest
          cases documented : saveDocument linkChains prof.startTimeTv
              (prof.mprofile mp).mpStset st with
          | error fault =>
              rw [documented] at rest
              refine first.then_stops ((runs_get s1).then_stops ?_)
              rw [start]
              exact second.then_stops rest
          | ok doc =>
              rw [documented] at rest
              rcases rest with ⟨s3, third, written⟩
              refine ⟨s3, first.bind ((runs_get s1).bind ?_), ?_⟩
              · rw [start]
                exact second.bind third
              · have frame3 := written.frame
                have master3 : s3.master = mp := by
                  rw [frame3]
                  exact left.master
                have stsets3 : s3.stsets = s2.stsets := by
                  rw [frame3]
                have freed3 : s3.stsets.freed = st'.freed := by
                  rw [stsets3]
                  exact left.emptying.embodies.freed
                refine ⟨?_, ?_, ?_, ?_, ?_, st'.saved.stackHeap, ?_, fun p positive below => ?_⟩
                · rw [master3]
                  exact written.records
                · rw [frame3]
                  exact (congrArg (fun kept => kept.2.2) kept2).trans reflects.freedMpr
                · rw [frame3, profiles]
                  exact left.freedMp.trans (by rw [fields1.2.2.2.2.2]; rfl)
                · rw [freed3, exec_drainNext_freed drained, listed, freesStset_drainProfiles]
                  rfl
                · rw [freed3]
                  exact left.emptying.sound.once
                · rw [freed3, stsets3]
                  exact left.emptying.embodies
                · rw [isDst, freed3]
                  exact orderly.eachStack own profiles drained left.emptying.sound
                    left.emptying.accounted positive below

end Saving

end Mprofile
end OsslScripts
