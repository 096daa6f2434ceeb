import OsslScripts.Mprofile.Logging
import OsslScripts.Mprofile.Modes
import OsslScripts.Mprofile.OpenBlocks
import OsslScripts.Mprofile.Save

namespace OsslScripts
namespace Mprofile

open Foundation

/-!
# One thread

A process in which one thread makes all the calls, one after the other.  It has
at most one profile, whose queue is the log of the calls (`Solo`), and what
`mprofile_save` writes is this log.
-/

/-- The thread makes a call, and the hook returns.  The loop of `update_alloc`
turns at most once when no other thread runs. -/
def makeCall (family : Family) (tid : Nat) (w : World) (l : Call × Answer) :
    Except HookFault (World × UInt64) :=
  hookMachine.run 2 l.2 (hook family tid l.1) w

/-- The profiler gets its memory. -/
def Answer.Grants (answer : Answer) : Prop := answer.createOk = true ∧ answer.recordOk = true

instance (answer : Answer) : Decidable answer.Grants := inferInstanceAs (Decidable (_ ∧ _))

/-- The records of a call, with their time and id, if there is memory for them. -/
def TracedCall.records (out : TracedCall) (answer : Answer) (mprId : Nat) : List MprofileRecord :=
  if answer.recordOk then
    out.logged.toList.map (fun mpr => { mpr with mprTs := answer.now, mprId := mprId })
  else []

/-- The profiler of a process in which this thread alone has made calls, and these
are their records. -/
structure Solo (prof : Profiler) (tid : Nat) (log : List MprofileRecord) : Prop where
  valid : prof.mprofileTop ≠ 0
  profiles : prof.profiles = if prof.specific tid = 0 then [] else [prof.specific tid]
  records : prof.records.map MprofileRecord.unfiled = log
  ids : log.map MprofileRecord.mprId = List.range' 1 prof.mprId
  blank : forall mpr, mpr ∈ log -> mpr.Blank

/-- How a call of a tracing hook returns. -/
inductive TracedOutcome (heap : UInt64 -> Option Block) (answer : Answer) :
    Call -> TracedCall -> Prop where
  | refused {sz : UInt64} {heap' : UInt64 -> Option Block}
      (taken : Libc.malloc heap (sz + sizeofMemhdr) answer = .ok (heap', 0)) :
      TracedOutcome heap answer (.malloc sz) ⟨heap', 0, some (allocRecord 0 sz)⟩
  | made {sz mh : UInt64} {middle heap' : UInt64 -> Option Block}
      (taken : Libc.malloc heap (sz + sizeofMemhdr) answer = .ok (middle, mh)) (isBlock : mh ≠ 0)
      (stored : storeHeader middle mh ⟨sz, mkChk mh sz⟩ = .ok heap') :
      TracedOutcome heap answer (.malloc sz)
        ⟨heap', mh + sizeofMemhdr, some (allocRecord (mh + sizeofMemhdr) sz)⟩
  | freed {b sz : UInt64} {heap' : UInt64 -> Option Block} (read : argumentSize heap b = .ok sz)
      (released : Libc.free heap (argumentBlock b) = .ok heap') :
      TracedOutcome heap answer (.free b) ⟨heap', 0, some (freeRecord b sz)⟩
  | ended {b sz q : UInt64} {heap' : UInt64 -> Option Block} (read : argumentSize heap b = .ok sz)
      (taken : Libc.realloc heap (argumentBlock b) 0 answer = .ok (heap', q)) :
      TracedOutcome heap answer (.realloc b 0)
        ⟨heap', if q = 0 then 0 else b, some (freeRecord b sz)⟩
  | kept {b sz origSz : UInt64} {heap' : UInt64 -> Option Block} (isSize : sz ≠ 0)
      (read : argumentSize heap b = .ok origSz)
      (taken : Libc.realloc heap (argumentBlock b) (sz + sizeofMemhdr) answer = .ok (heap', 0)) :
      TracedOutcome heap answer (.realloc b sz) ⟨heap', 0, none⟩
  | resized {b sz origSz mh : UInt64} {middle heap' : UInt64 -> Option Block} (isSize : sz ≠ 0)
      (read : argumentSize heap b = .ok origSz)
      (taken : Libc.realloc heap (argumentBlock b) (sz + sizeofMemhdr) answer = .ok (middle, mh))
      (isBlock : mh ≠ 0) (stored : storeHeader middle mh ⟨sz, mkChk mh sz⟩ = .ok heap') :
      TracedOutcome heap answer (.realloc b sz) ⟨heap', mh + sizeofMemhdr,
        some (if b = 0 then allocRecord (mh + sizeofMemhdr) sz
          else reallocRecord (mh + sizeofMemhdr) sz origSz b)⟩

theorem traced_outcome {call : Call} {heap : UInt64 -> Option Block} {answer : Answer}
    {out : TracedCall}
    (ran : call.traced heap answer = .ok out) : TracedOutcome heap answer call out := by
  cases call with
  | malloc sz =>
      rw [Call.traced] at ran
      cases taken : Libc.malloc heap (sz + sizeofMemhdr) answer with
      | error fault => rw [taken] at ran; cases ran
      | ok result =>
          rcases result with ⟨middle, mh⟩
          rw [taken] at ran
          simp only [ok_bind, pure_ok] at ran
          by_cases isBlock : mh = 0
          · rw [if_pos isBlock] at ran
            cases ran
            exact .refused (isBlock ▸ taken)
          · rw [if_neg isBlock] at ran
            cases stored : storeHeader middle mh ⟨sz, mkChk mh sz⟩ with
            | error fault => rw [stored] at ran; cases ran
            | ok heap' =>
                rw [stored] at ran
                cases ran
                exact .made taken isBlock stored
  | free b =>
      rw [Call.traced] at ran
      cases read : argumentSize heap b with
      | error fault => rw [read] at ran; cases ran
      | ok sz =>
          rw [read] at ran
          simp only [ok_bind] at ran
          cases released : Libc.free heap (argumentBlock b) with
          | error fault => rw [released] at ran; cases ran
          | ok heap' =>
              rw [released] at ran
              cases ran
              exact .freed read released
  | realloc b sz =>
      rw [Call.traced] at ran
      cases read : argumentSize heap b with
      | error fault => rw [read] at ran; cases ran
      | ok origSz =>
          rw [read] at ran
          simp only [ok_bind, pure_ok] at ran
          cases taken : Libc.realloc heap (argumentBlock b) (reallocSize sz) answer with
          | error fault => rw [taken] at ran; cases ran
          | ok result =>
              rcases result with ⟨middle, mh⟩
              rw [taken] at ran
              simp only [ok_bind] at ran
              by_cases isSize : sz = 0
              · subst isSize
                rw [if_pos rfl] at ran
                cases ran
                exact .ended read taken
              · have request : reallocSize sz = sz + sizeofMemhdr := if_pos isSize
                rw [if_neg isSize] at ran
                rw [request] at taken
                by_cases isBlock : mh = 0
                · rw [if_pos isBlock] at ran
                  cases ran
                  exact .kept isSize read (isBlock ▸ taken)
                · rw [if_neg isBlock] at ran
                  cases stored : storeHeader middle mh ⟨sz, mkChk mh sz⟩ with
                  | error fault => rw [stored] at ran; cases ran
                  | ok heap' =>
                      rw [stored] at ran
                      cases ran
                      exact .resized isSize read taken isBlock stored

section Profiles

variable {prof : Profiler} {tid : Nat} {log : List MprofileRecord} {answer : Answer}

theorem solo_init (tid : Nat) : Solo World.init.prof tid [] :=
  ⟨Nat.one_ne_zero, rfl, rfl, rfl, fun _ member => absurd member List.not_mem_nil⟩

theorem Solo.length (solo : Solo prof tid log) : log.length = prof.mprId := by
  have lengths := congrArg List.length solo.ids
  rwa [List.length_map, List.length_range'] at lengths

/-- The records of a list of one profile are its queue. -/
theorem records_of_single (mp : Nat) (single : prof.profiles = [mp]) :
    prof.records = (prof.mprofile mp).mpTqhead := by
  rw [Profiler.records, Profiler.listed, single, List.map_singleton, List.flatMap_singleton]

/-- `get_mprofile` makes a profile at the first call, and leaves the log alone. -/
theorem Solo.getMprofile (solo : Solo prof tid log) {found : Profiler × Nat}
    (isFound : prof.getMprofile tid answer = .ok found) :
    found.2 ≠ 0 ∧ found.1.specific tid = found.2 ∧ found.1.mprId = prof.mprId ∧
      Solo found.1 tid log := by
  rw [Profiler.getMprofile] at isFound
  by_cases unknown : prof.specific tid = 0
  · have noProfile : prof.profiles = [] := by rw [solo.profiles, if_pos unknown]
    have noRecord : log = [] := by
      rw [← solo.records, Profiler.records, Profiler.listed, noProfile]
      rfl
    rw [if_pos unknown] at isFound
    simp only at isFound
    by_cases null : (prof.mprofileCreate answer).2 = 0
    · rw [if_pos null] at isFound
      cases isFound
    · have granted : answer.createOk = true := by
        by_contra refused
        apply null
        unfold Profiler.mprofileCreate
        simp only [if_neg refused]
      have created := mprofileCreate_valid solo.valid granted
      have parts : (prof.mprofileCreate answer).1.profiles = prof.profiles ∧
          (prof.mprofileCreate answer).1.mprId = prof.mprId ∧
          ((prof.mprofileCreate answer).1.mprofile (prof.mprofileCreate answer).2).mpTqhead =
              [] := by
        unfold Profiler.mprofileCreate
        simp only [if_pos granted]
        refine ⟨?_, ?_, ?_⟩
        · split_ifs <;> rfl
        · split_ifs <;> rfl
        · split_ifs <;> simp only [Profiler.setMprofile, Function.update_self]
      rw [if_neg null] at isFound
      cases isFound
      refine ⟨null, Function.update_self _ _ _, parts.2.1, created.2.1, ?_, ?_, ?_, solo.blank⟩
      · simp only [Function.update_self, if_neg null, parts.1, noProfile, List.nil_append]
      · rw [noRecord]
        refine (congrArg (List.map MprofileRecord.unfiled)
          (records_of_single (prof.mprofileCreate answer).2 ?_)).trans ?_
        · simp only [parts.1, noProfile, List.nil_append]
        · simp only [parts.2.2, List.map_nil]
      · rw [solo.ids]
        exact congrArg (List.range' 1) parts.2.1.symm
  · rw [if_neg unknown] at isFound
    cases isFound
    exact ⟨unknown, rfl, rfl, solo⟩

/-- `get_mprofile` succeeds if there is memory for a profile. -/
theorem Solo.getMprofile_ok (solo : Solo prof tid log) (grants : answer.Grants) :
    Exists fun found => prof.getMprofile tid answer = .ok found := by
  rw [Profiler.getMprofile]
  split_ifs with unknown
  · have created := mprofileCreate_valid solo.valid grants.1
    simp only [if_neg created.1]
    exact ⟨_, rfl⟩
  · exact ⟨_, rfl⟩

/-- A record that is appended to the profile of the thread. -/
theorem Solo.enqueue (solo : Solo prof tid log) {mpr : MprofileRecord}
    (profiled : prof.specific tid ≠ 0)
    (blank : mpr.Blank) : Solo (prof.enqueue (prof.specific tid) mpr) tid
      (log ++ [{ mpr with mprId := prof.mprId + 1 }]) := by
  have single : prof.profiles = [prof.specific tid] := by rw [solo.profiles, if_neg profiled]
  have unfiled : ({ mpr with mprId := prof.mprId + 1 } : MprofileRecord).unfiled =
      { mpr with mprId := prof.mprId + 1 } := by
    rw [MprofileRecord.unfiled, ← blank.2.2]
  refine ⟨solo.valid, ?_, ?_, ?_, fun other member => ?_⟩
  · exact solo.profiles
  · have after : (prof.enqueue (prof.specific tid) mpr).records =
        prof.records ++ [{ mpr with mprId := prof.mprId + 1 }] := by
      rw [records_of_single _ single]
      have same : (prof.enqueue (prof.specific tid) mpr).records = _ :=
        records_of_single (prof.specific tid) single
      rw [same]
      simp only [Profiler.enqueue, Profiler.insertTail, Profiler.setMprofile, Function.update_self]
    rw [after, List.map_append, List.map_singleton, solo.records, unfiled]
  · have more : (prof.enqueue (prof.specific tid) mpr).mprId = prof.mprId + 1 := rfl
    rw [List.map_append, solo.ids, List.map_singleton, more, List.range'_1_concat, Nat.add_comm 1]
  · rcases List.mem_append.mp member with old | new
    · exact solo.blank other old
    · rw [List.mem_singleton.mp new]
      exact blank

/-- Filing the last record under a stack. -/
theorem Solo.filed (solo : Solo prof tid log) (profiled : prof.specific tid ≠ 0)
    (stackHeap : StackHeap)
    (mprId stackId : Nat) :
    Solo ({ prof with stackHeap := stackHeap }.setStackId (prof.specific tid) mprId stackId) tid
      log := by
  have single : prof.profiles = [prof.specific tid] := by rw [solo.profiles, if_neg profiled]
  refine ⟨solo.valid, solo.profiles, ?_, solo.ids, solo.blank⟩
  have same : ({ prof with stackHeap := stackHeap }.setStackId (prof.specific tid) mprId
      stackId).records = _ :=
    records_of_single (prof.specific tid) single
  rw [← solo.records, records_of_single _ single, same]
  simp only [Profiler.setStackId, Profiler.setMprofile, Function.update_self, List.map_map]
  refine List.map_congr_left (fun mpr _ => ?_)
  rw [Function.comp_apply]
  split_ifs <;> rfl

/-- A record that is logged with or without a stack. -/
theorem Solo.logged (solo : Solo prof tid log) (profiled : prof.specific tid ≠ 0) {out : TracedCall}
    (blank : forall mpr, mpr ∈ out.logged -> mpr.Blank) {mps : Option MprofileStack}
    {prof' : Profiler}
    (done : prof.log (prof.specific tid) out.logged mps answer = .ok prof') :
    Solo prof' tid (log ++ out.records answer (prof.mprId + 1)) := by
  rw [TracedCall.records]
  cases isLogged : out.logged with
  | none =>
      rw [isLogged] at done
      cases done
      rw [Option.toList_none, List.map_nil, ite_self, List.append_nil]
      exact solo
  | some mpr =>
      rw [isLogged, Profiler.log] at done
      by_cases recordOk : answer.recordOk = true
      · simp only [if_pos recordOk] at done ⊢
        have isBlank : ({ mpr with mprTs := answer.now } : MprofileRecord).Blank :=
          blank mpr (Option.mem_def.mpr isLogged)
        have enqueued := solo.enqueue profiled isBlank
        cases mps with
        | none =>
            cases done
            exact enqueued
        | some mps =>
            rw [Profiler.append, Profiler.addStack] at done
            split_ifs at done
            · cases done
              exact enqueued.filed profiled _ _ _
            · cases done
      · simp only [if_neg recordOk] at done ⊢
        cases done
        rw [List.append_nil]
        exact solo

/-- The records of calls are blank. -/
theorem blank_traced {call : Call} {heap : UInt64 -> Option Block} {out : TracedCall}
    (ran : call.traced heap answer = .ok out) : forall mpr, mpr ∈ out.logged -> mpr.Blank := by
  intro mpr logged
  cases traced_outcome ran with
  | refused _ => cases Option.mem_some.mp logged; exact ⟨rfl, rfl, rfl⟩
  | made _ _ _ => cases Option.mem_some.mp logged; exact ⟨rfl, rfl, rfl⟩
  | freed _ _ => cases Option.mem_some.mp logged; exact ⟨rfl, rfl, rfl⟩
  | ended _ _ => cases Option.mem_some.mp logged; exact ⟨rfl, rfl, rfl⟩
  | kept _ _ _ => cases logged
  | @resized b sz _ _ _ _ _ _ _ _ _ =>
      cases Option.mem_some.mp logged
      split_ifs
      · exact ⟨rfl, rfl, rfl⟩
      · exact ⟨rfl, rfl, rfl⟩

end Profiles

/-! ## A call -/

section Calls

variable {family : Family} {tid : Nat} {w w' : World} {log : List MprofileRecord} {call : Call}
  {answer : Answer} {rv : UInt64}

/-- What a call of a tracing hook leaves. -/
theorem Solo.madeCall (traced : family ≠ .stats) (solo : Solo w.prof tid log)
    (made : makeCall family tid w (call, answer) = .ok (w', rv)) :
    Exists fun out => call.traced w.heap answer = .ok out ∧ w'.heap = out.heap ∧ rv = out.rv ∧
      Solo w'.prof tid (log ++ out.records answer (w.prof.mprId + 1)) := by
  rw [makeCall, run_hook_traced traced] at made
  cases isFound : w.prof.getMprofile tid answer with
  | error fault => rw [isFound] at made; cases made
  | ok found =>
      rcases solo.getMprofile isFound with ⟨profiled, own, sameId, soloFound⟩
      rw [isFound] at made
      simp only [ok_bind, Call.tracedRun] at made
      cases ran : call.traced w.heap answer with
      | error fault => rw [ran] at made; cases made
      | ok out =>
          rw [ran] at made
          simp only [ok_bind] at made
          cases logged : found.1.log found.2 out.logged (family.filed call answer) answer with
          | error fault => rw [logged] at made; cases made
          | ok prof' =>
              rw [logged] at made
              cases made
              rw [← own] at profiled logged
              refine ⟨out, rfl, rfl, rfl, ?_⟩
              rw [← sameId]
              exact soloFound.logged profiled (blank_traced ran) logged

/-- A call of a tracing hook goes wrong as the call does, or because an answer is none
that libc may give. -/
theorem Solo.madeCall_fault (traced : family ≠ .stats) (solo : Solo w.prof tid log)
    (grants : answer.Grants)
    {fault : HookFault} (failed : makeCall family tid w (call, answer) = .error fault) :
    call.traced w.heap answer = .error fault ∨ fault = .notLibc := by
  rcases solo.getMprofile_ok grants with ⟨found, isFound⟩
  rw [makeCall, run_hook_traced traced, isFound] at failed
  simp only [ok_bind, Call.tracedRun] at failed
  cases ran : call.traced w.heap answer with
  | error other =>
      rw [ran] at failed
      cases failed
      exact Or.inl rfl
  | ok out =>
      rw [ran] at failed
      simp only [ok_bind] at failed
      cases logged : found.1.log found.2 out.logged (family.filed call answer) answer with
      | error other =>
          rw [logged] at failed
          cases failed
          exact Or.inr (log_fault logged)
      | ok prof' => rw [logged] at failed; cases failed

end Calls

/-! ## What is saved -/

section Saved

variable {prof : Profiler} {tid : Nat} {log : List MprofileRecord}
  {copyBlock : Nat -> Option (Int -> UInt64)} {linkChains : Bool} {doc : Document}

theorem Solo.fresh (solo : Solo prof tid log) : (prof.records.map MprofileRecord.mprId).Nodup := by
  rw [← map_mprId_unfiled, solo.records, solo.ids]
  exact List.nodup_range'

theorem Solo.gapFree (solo : Solo prof tid log) : GapFree log := by
  intro i inside
  have ids := congrArg (fun l : List Nat => l[i]?) solo.ids
  simp only [List.getElem?_map, List.getElem?_eq_getElem inside, Option.map_some] at ids
  rw [recordAt, List.getD_eq_getElem _ _ inside, Nat.add_comm]
  rw [List.getElem?_range' (by rw [← solo.length]; exact inside)] at ids
  rw [Option.some.inj ids, Nat.one_mul]

theorem Solo.bare (solo : Solo prof tid log) : forall r, r ∈ log -> r.bare = r := fun r member =>
  bare_of_unlinked (solo.blank r member).1 (solo.blank r member).2.1

/-- Without stacks the sorted records are the log. -/
theorem Solo.merged (solo : Solo prof tid log) :
    prof.mergedLog.map MprofileRecord.unfiled = log := by
  have sorter : SortedLog prof.records prof.mergedLog :=
    ⟨sorted_mergedLog solo.fresh, (List.perm_insertionSort _ _).map _⟩
  have unfiled : log.map MprofileRecord.unfiled = log := by
    refine (List.map_congr_left (fun mpr member => ?_)).trans (List.map_id _)
    rw [MprofileRecord.unfiled, ← (solo.blank mpr member).2.2]
    rfl
  have increasing : OrderedTree.Sorted MprofileRecord.mprId log := by
    refine List.pairwise_map.mp ?_
    rw [solo.ids]
    exact List.pairwise_lt_range'
  refine (sorter.eq_of_perm ?_ increasing).trans unfiled
  rw [unfiled, ← solo.records]

/-- The deltas that are saved are those of the log. -/
theorem Solo.savedDeltas (solo : Solo prof tid log)
    (saved : mprofileSave copyBlock linkChains prof = .ok doc) :
    doc.allocations.map MprofileRecord.mprDelta = log.map MprofileRecord.mprDelta := by
  rcases mprofileSave_saved solo.fresh saved with ⟨sorter, filed, bare⟩
  calc doc.allocations.map MprofileRecord.mprDelta
      = (doc.allocations.map MprofileRecord.bare).map MprofileRecord.mprDelta := by
        rw [List.map_map]
        rfl
    _ = (sorter.map MprofileRecord.unfiled).map MprofileRecord.mprDelta := by
        rw [bare, List.map_map, List.map_map]
        rfl
    _ = log.map MprofileRecord.mprDelta := by rw [filed, solo.merged]

end Saved

end Mprofile
end OsslScripts
