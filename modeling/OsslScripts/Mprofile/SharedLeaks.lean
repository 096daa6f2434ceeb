import OsslScripts.Mprofile.MergedLog
import OsslScripts.Mprofile.OpenBlocks

namespace OsslScripts
namespace Mprofile

open Foundation

/-!
# The leaks of several threads

Threads share the blocks of an application: one takes a block, another one moves it
and a third frees it.  Each has a queue of its own, and only the merged log tells the
life of a block.  In a run whose steps are timely, `MProfile.leaks` finds in it one
`ALLOC` for each block that the application still owns, and no others; the end of
its chain has the address of the block.
-/

/-- The address at the end of the chain that starts with this record. -/
def MProfile.endMem (profile : MProfile) (fuel : Nat) (mr : MprofileRecord) : Option UInt64 :=
  (profile.chainEnd fuel mr).map MprofileRecord.mprMem

/-- The leaks lead to these addresses, each to another one. -/
structure LeaksLeadTo (profile : MProfile) (fuel : Nat) (owned : UInt64 -> Prop) : Prop where
  found : Exists fun leaks => profile.leaks fuel = some leaks ∧
    (leaks.map (profile.endMem fuel)).Nodup ∧
    (forall leak, leak ∈ leaks -> leak.mprState = .alloc ∧
      Exists fun x => profile.endMem fuel leak = some x ∧ owned x) ∧
    forall x, owned x -> some x ∈ leaks.map (profile.endMem fuel)

/-- What a record produces is its own address. -/
theorem mprMem_of_produces {mpr : MprofileRecord} {x : UInt64} (produces : mpr.produces = some x) :
    mpr.mprMem = x := by
  cases state : mpr.mprState with
  | alloc =>
      rw [MprofileRecord.produces, state] at produces
      exact Option.some.inj produces
  | free =>
      rw [MprofileRecord.produces, state] at produces
      cases produces
  | realloc =>
      rw [MprofileRecord.produces, state] at produces
      exact Option.some.inj produces

section Blocks

variable {log : List MprofileRecord} {live middle after : Finset UInt64} {r : MprofileRecord}
  {blocks : List OpenBlock}

/-- The blocks are at the live addresses, one at each. -/
structure AtAddresses (blocks : List OpenBlock) (live : Finset UInt64) : Prop where
  once : (blocks.map OpenBlock.mem).Nodup
  live : forall x, x ∈ blocks.map OpenBlock.mem ↔ x ∈ live

/-- The addresses after a record are those it does not consume, and the one it produces. -/
theorem AtAddresses.of_step (blocksAt : AtAddresses blocks middle)
    (stepped : replayStep middle r = some after)
    {after' : List OpenBlock} (once : (after'.map OpenBlock.mem).Nodup)
    (members : forall x, x ∈ after'.map OpenBlock.mem ↔
      r.produces = some x ∨ x ∈ blocks.map OpenBlock.mem ∧ r.consumes ≠ some x) :
      AtAddresses after' after := by
  refine ⟨once, fun x => ?_⟩
  rw [members, mem_replayStep stepped, blocksAt.live]

/-- What a record that replays consumes is live, and what it produces is not. -/
theorem replayStep_fits (stepped : replayStep middle r = some after) :
    (forall x, r.consumes = some x -> x ∈ middle) ∧
      forall x, r.produces = some x -> x ∈ middle -> r.consumes = some x := by
  have noConflict : replayStep middle r ≠ none := by rw [stepped]; exact Option.some_ne_none after
  rw [Ne, replayStep_none_iff, not_or, not_exists, not_exists] at noConflict
  refine ⟨fun x consumes => ?_, fun x produces present => ?_⟩
  · by_contra absent
    exact noConflict.1 x ⟨consumes, absent⟩
  · by_contra kept
    exact noConflict.2 x ⟨produces, present, kept⟩

theorem AtAddresses.alloc (blocksAt : AtAddresses blocks middle) (state : r.mprState = .alloc)
    (stepped : replayStep middle r = some after) (pos : Nat) :
    AtAddresses (openStep pos blocks r) after := by
  have consumes : r.consumes = none := by rw [MprofileRecord.consumes, state]
  have produces : r.produces = some r.mprMem := by rw [MprofileRecord.produces, state]
  have fresh : r.mprMem ∉ blocks.map OpenBlock.mem := by
    intro present
    have consumed := (replayStep_fits stepped).2 _ produces ((blocksAt.live _).mp present)
    rw [consumes] at consumed
    cases consumed
  have isStep : openStep pos blocks r = blocks ++ [⟨r.mprMem, pos, r.mprMem, r.mprDelta⟩] := by
    rw [openStep, state]
  rw [isStep]
  refine blocksAt.of_step stepped ?_ (fun x => ?_)
  · rw [List.map_append, List.map_singleton]
    refine List.nodup_append.mpr ⟨blocksAt.once, List.nodup_singleton _, ?_⟩
    intro x present y isNew same
    have isMem : x = r.mprMem := same.trans (List.mem_singleton.mp isNew)
    exact fresh (isMem ▸ present)
  · rw [List.map_append, List.map_singleton, List.mem_append, List.mem_singleton, produces,
      consumes,
      Option.some_inj, or_comm, eq_comm]
    simp

theorem AtAddresses.free (blocksAt : AtAddresses blocks middle) (state : r.mprState = .free)
    (stepped : replayStep middle r = some after) (pos : Nat) :
    AtAddresses (openStep pos blocks r) after := by
  have produces : r.produces = none := by rw [MprofileRecord.produces, state]
  by_cases null : r.mprMem = 0
  · have consumes : r.consumes = none := by rw [MprofileRecord.consumes, state]; exact if_pos null
    have isStep : openStep pos blocks r = blocks := by
      rw [openStep, state]
      exact if_pos null
    rw [isStep]
    refine blocksAt.of_step stepped blocksAt.once (fun x => ?_)
    rw [produces, consumes]
    simp
  · have consumes : r.consumes = some r.mprMem := by
      rw [MprofileRecord.consumes, state]; exact if_neg null
    have isStep : openStep pos blocks r = blocks.filter (fun block => block.mem ≠ r.mprMem) := by
      rw [openStep, state]
      exact if_neg null
    rw [isStep]
    refine blocksAt.of_step stepped ?_ (fun x => ?_)
    · exact blocksAt.once.sublist (List.Sublist.map _ List.filter_sublist)
    · rw [produces, consumes]
      simp only [List.mem_map, List.mem_filter, decide_eq_true_eq, reduceCtorEq, false_or]
      constructor
      · rintro ⟨block, ⟨member, different⟩, rfl⟩
        exact ⟨⟨block, member, rfl⟩, fun same => different (Option.some.inj same).symm⟩
      · rintro ⟨⟨block, member, rfl⟩, different⟩
        exact ⟨block, ⟨member, fun same => different (congrArg some same.symm)⟩, rfl⟩

theorem AtAddresses.realloc (blocksAt : AtAddresses blocks middle) (state : r.mprState = .realloc)
    (stepped : replayStep middle r = some after) (pos : Nat) :
    AtAddresses (openStep pos blocks r) after := by
  have consumes : r.consumes = some r.mprRealloc := by rw [MprofileRecord.consumes, state]
  have produces : r.produces = some r.mprMem := by rw [MprofileRecord.produces, state]
  have isStep : openStep pos blocks r =
      blocks.map (fun block => if block.mem = r.mprRealloc then block.moved r else block) := by
    rw [openStep, state]
  -- the addresses of the blocks are renamed
  let rename : UInt64 -> UInt64 := fun x => if x = r.mprRealloc then r.mprMem else x
  have renamed : (openStep pos blocks r).map OpenBlock.mem =
      (blocks.map OpenBlock.mem).map rename := by
    rw [isStep, List.map_map, List.map_map]
    refine List.map_congr_left (fun block _ => ?_)
    simp only [Function.comp_apply, rename]
    split_ifs <;> rfl
  have isOpen : r.mprRealloc ∈ blocks.map OpenBlock.mem :=
    (blocksAt.live _).mpr ((replayStep_fits stepped).1 _ consumes)
  have fresh : r.mprMem ∈ blocks.map OpenBlock.mem -> r.mprMem = r.mprRealloc := by
    intro present
    have consumed := (replayStep_fits stepped).2 _ produces ((blocksAt.live _).mp present)
    rw [consumes] at consumed
    exact (Option.some.inj consumed).symm
  refine blocksAt.of_step stepped ?_ (fun x => ?_)
  · rw [renamed]
    refine List.Nodup.map_on (fun x inX y inY same => ?_) blocksAt.once
    simp only [rename] at same
    by_cases isX : x = r.mprRealloc
    · by_cases isY : y = r.mprRealloc
      · rw [isX, isY]
      · rw [if_pos isX, if_neg isY] at same
        exact absurd ((same ▸ fresh (same ▸ inY)) : y = r.mprRealloc) isY
    · by_cases isY : y = r.mprRealloc
      · rw [if_neg isX, if_pos isY] at same
        exact absurd ((same ▸ fresh (same ▸ inX)) : x = r.mprRealloc) isX
      · rwa [if_neg isX, if_neg isY] at same
  · rw [renamed, produces, consumes]
    simp only [rename, List.mem_map (f := fun x => if x = r.mprRealloc then r.mprMem else x),
      Option.some_inj]
    constructor
    · rintro ⟨y, member, rfl⟩
      by_cases here : y = r.mprRealloc
      · exact Or.inl (if_pos here).symm
      · rw [if_neg here]
        exact Or.inr ⟨member, fun same => here (Option.some.inj same).symm⟩
    · rintro (rfl | ⟨member, different⟩)
      · exact ⟨r.mprRealloc, isOpen, if_pos rfl⟩
      · exact ⟨x, member, if_neg (fun same => different (congrArg some same.symm))⟩

/-- One record more. -/
theorem AtAddresses.step (blocksAt : AtAddresses blocks middle)
    (stepped : replayStep middle r = some after)
    (pos : Nat) : AtAddresses (openStep pos blocks r) after := by
  cases state : r.mprState with
  | alloc => exact blocksAt.alloc state stepped pos
  | free => exact blocksAt.free state stepped pos
  | realloc => exact blocksAt.realloc state stepped pos

/-- In a log that replays, the open blocks are at the live addresses. -/
theorem openBlocks_atAddresses (replayed : replay log = some live) :
    AtAddresses (openBlocks log) live := by
  induction log using List.reverseRecOn generalizing live with
  | nil =>
      cases replayed
      exact ⟨List.nodup_nil, fun x => iff_of_false List.not_mem_nil (Finset.notMem_empty x)⟩
  | append_singleton log r inductionHypothesis =>
      rw [replay, replayFrom_append] at replayed
      cases before : replayFrom ∅ log with
      | none => rw [before] at replayed; cases replayed
      | some middle =>
          rw [before] at replayed
          simp only [replayFrom] at replayed
          cases stepped : replayStep middle r with
          | none => rw [stepped] at replayed; cases replayed
          | some after =>
              rw [stepped] at replayed
              cases replayed
              rw [openBlocks_append]
              exact (inductionHypothesis before).step stepped log.length

end Blocks

/-! ## Runs -/

section Runs

variable {Thread : Type} [DecidableEq Thread] {family : Family} {pool : HookPool Thread false}

/-- When no call is in progress, the saved log replays to what the application owns. -/
theorem HookPool.Logged.replays_owned (logged : pool.Logged family) (quiescent : pool.Quiescent) :
    (pool.shared.prof.records.map MprofileRecord.mprId).Nodup ∧ Exists fun live : Finset UInt64 =>
      (forall x, x ∈ live ↔ pool.client.owned x ≠ none) ∧ forall log : List MprofileRecord,
        log.map MprofileRecord.unfiled = pool.shared.prof.mergedLog.map MprofileRecord.unfiled ->
          replay log = some live ∧ GapFree log ∧ forall mpr, mpr ∈ log -> mpr.bare = mpr := by
  have replays := logged.replays
  rcases logged with ⟨gs, holds⟩
  have resting : forall t, gs t = (.nothing, .idle) := by
    intro t
    have own := holds.threads t
    rw [quiescent t] at own
    exact own
  rcases holds.invariant.log with ⟨drawn, liveLog, queues⟩
  rcases liveLog.replays with ⟨live, replayed, isLive⟩
  have unfiled : drawn.map MprofileRecord.unfiled = drawn := by
    refine (List.map_congr_left (fun mpr member => ?_)).trans (List.map_id drawn)
    rw [MprofileRecord.unfiled, ← (queues.blank mpr member).2.2]
    rfl
  have merged : SortedLog pool.shared.prof.records pool.shared.prof.mergedLog :=
    ⟨sorted_mergedLog queues.once, (List.perm_insertionSort _ _).map _⟩
  have idle : forall t, (gs t).2.due = none := by
    intro t
    rw [resting t]
    rfl
  have same : pool.shared.prof.mergedLog.map MprofileRecord.unfiled =
      drawn.map MprofileRecord.unfiled :=
    merged.eq_of_perm (by rw [unfiled]; exact queues.perm idle) queues.sorted
  refine ⟨queues.once, live, fun x => ?_,
    fun log equal => ⟨?_, fun i inside => ?_, (replays.2 log equal).2⟩⟩
  · rw [isLive]
    refine ⟨fun either => ?_, Or.inl⟩
    rcases either with owned | ⟨t, inHand⟩
    · exact owned
    · rw [resting t] at inHand
      cases inHand
  · rw [← replay_unfiled, equal, same, unfiled]
    exact replayed
  · have ids : log.map MprofileRecord.mprId = List.range' 1 pool.shared.prof.mprId := by
      rw [← map_mprId_unfiled, equal, same, unfiled]
      exact queues.ids
    have length : log.length = pool.shared.prof.mprId := by
      have lengths := congrArg List.length ids
      rwa [List.length_map, List.length_range'] at lengths
    have here := congrArg (fun list : List Nat => list[i]?) ids
    simp only [List.getElem?_map, List.getElem?_eq_getElem inside, Option.map_some] at here
    rw [List.getElem?_range' (by omega)] at here
    rw [recordAt, List.getD_eq_getElem _ _ inside, Option.some.inj here]
    omega

end Runs

/-- In every interleaving whose steps are timely, the leak report of the saved profiles has one
`ALLOC` for each block that the application still owns, whichever threads took, moved and freed
blocks, and following its chain leads to the address of the block. -/
theorem leaks_leadToOwned {Thread : Type} [DecidableEq Thread] {family : Family}
    (traced : family ≠ .stats)
    (tid : Thread -> Nat) (labels : List (PoolLabel Thread Call Answer))
    (granted : Meets (HookPool.next family tid) Granted (HookPool.init Thread false) labels)
    (timely : Meets (HookPool.next family tid) Timely (HookPool.init Thread false) labels)
    (pool : HookPool Thread false)
    (executed : exec (HookPool.next family tid) (HookPool.init Thread false) labels = .ok pool)
    (quiescent : pool.Quiescent) (copyBlock : Nat -> Option (Int -> UInt64)) (doc : Document)
    (saved : mprofileSave copyBlock true pool.shared.prof = .ok doc) (fuel : Nat)
    (enough : doc.allocations.length ≤ fuel) :
    LeaksLeadTo (MProfile.ofDocument doc) fuel (fun x => pool.client.owned x ≠ none) := by
  have logged : pool.Logged family := exec_invariant (HookPool.Logged family)
    (fun pool l pool' logged met stepped => logged.next traced met.1 met.2 stepped)
    HookPool.init_logged (granted.and timely) executed
  rcases logged.replays_owned quiescent with ⟨fresh, live, isOwned, settled⟩
  rcases mprofileSave_ok fresh saved with ⟨sorter, same, built⟩
  rcases settled sorter same with ⟨replayed, gapFree, bare⟩
  rcases buildChains_linked sorter bare replayed with ⟨linked, isBuilt, facts⟩
  have isLinked : doc.allocations = linked := by
    have both := (show buildChains sorter = .ok doc.allocations from built).symm.trans isBuilt
    exact Except.ok.inj both
  have reads := leaks_openBlocks replayed facts gapFree isLinked (isLinked ▸ enough)
  have opened := opened_openBlocks replayed
  have blocksAt := openBlocks_atAddresses replayed
  have inside : forall block, block ∈ openBlocks sorter -> block.start < linked.length := by
    intro block member
    rw [facts.length]
    exact (opened.blocksOf block member).inside
  have ends : forall block, block ∈ openBlocks sorter ->
      (MProfile.ofDocument doc).endMem fuel (recordAt linked block.start) = some block.mem := by
    intro block member
    rcases (opened.blocksOf block member).life with ⟨e, isOpen, life⟩
    have read := (life.read facts gapFree isLinked (inside block member)
      (Nat.le_add_right_of_le (isLinked ▸ enough))).1
    have atEnd : e < linked.length := by
      rw [facts.length]
      exact isOpen.lt_length
    have produces : (recordAt sorter e).produces = some block.mem := by
      rw [← produced_eq isOpen.lt_length]
      exact isOpen.1.2.1
    rw [MProfile.endMem, read, Option.map_some, (facts.sameRecord atEnd).2.1,
      mprMem_of_produces produces]
  have addresses : ((openBlocks sorter).map (fun block => recordAt linked block.start)).map
      ((MProfile.ofDocument doc).endMem fuel) = ((openBlocks sorter).map OpenBlock.mem).map
          some := by
    rw [List.map_map, List.map_map]
    exact List.map_congr_left ends
  refine ⟨_, reads.1, ?_, fun leak member => ?_, fun x owned => ?_⟩
  · rw [addresses]
    exact blocksAt.once.map (Option.some_injective _)
  · rcases List.mem_map.mp member with ⟨block, isBlock, rfl⟩
    have isAlloc := (facts.sameRecord (inside block isBlock)).1
    refine ⟨isAlloc.trans (opened.blocksOf block isBlock).alloc, block.mem, ends block isBlock, ?_⟩
    rw [← isOwned, ← blocksAt.live]
    exact List.mem_map_of_mem isBlock
  · rw [addresses]
    apply List.mem_map_of_mem
    rw [blocksAt.live, isOwned]
    exact owned

theorem leaks_leadToOwned_recycledRun : Exists fun pool => Exists fun doc =>
    exec (HookPool.next .trace Fin.val) (HookPool.init (Fin 2) false) recycledRun = .ok pool ∧
      mprofileSave (fun _ => none) true pool.shared.prof = .ok doc ∧
      doc.allocations.map MprofileRecord.mprNextId = [2, 0, 0] ∧
      LeaksLeadTo (MProfile.ofDocument doc) 3 (fun x => pool.client.owned x ≠ none) := by
  have reached : Exists fun pool =>
      exec (HookPool.next .trace Fin.val) (HookPool.init (Fin 2) false) recycledRun = .ok pool ∧
        (forall t, pool.thread t = none) ∧
        (mprofileSave (fun _ => none) true pool.shared.prof).toOption.map
          (fun doc => doc.allocations.map MprofileRecord.mprNextId) = some [2, 0, 0] :=
    reaches_of_check (by decide +kernel)
  rcases reached with ⟨pool, executed, quiescent, document⟩
  cases saved : mprofileSave (fun _ => none) true pool.shared.prof with
  | error fault => rw [saved] at document; cases document
  | ok doc =>
      rw [saved] at document
      have nextIds : doc.allocations.map MprofileRecord.mprNextId = [2, 0, 0] :=
        Option.some.inj document
      have length := congrArg List.length nextIds
      rw [List.length_map] at length
      refine ⟨pool, doc, executed, saved, nextIds, ?_⟩
      exact leaks_leadToOwned (by decide) Fin.val recycledRun (meets_of_check (by decide +kernel))
        (meets_of_check (by decide +kernel)) pool executed quiescent (fun _ => none) doc saved 3
        (le_of_eq length)

end Mprofile
end OsslScripts
