import OsslScripts.Mprofile.LeakReport
import OsslScripts.Mprofile.NamedBlocks

namespace OsslScripts
namespace Mprofile

open Foundation

/-!
# The counters and the log

The same operations are made under the counting hooks and under the hooks of a
tracing family.  Both processes follow one ledger (`Mirrors`): the counters are
the sums of its changes (`SumsOf`), and its changes are the deltas of the log.
What the reader computes from the log is therefore what the counters say.
-/

/-- An operation, and what the environment answers in either process. -/
structure ModeOp where
  op : BlockOp
  counted : Answer
  logged : Answer

/-- The process that counts and the one that logs, and `ms_current` as it was after each
operation that was logged. -/
structure BothModes where
  counted : OpState
  logged : OpState
  currents : List UInt64

def BothModes.init : BothModes := ⟨OpState.init, OpState.init, []⟩

/-- One operation in both processes.  It is logged if it takes an id. -/
def bothNext (family : Family) (tid : Nat) (s : BothModes) (l : ModeOp) :
    Except (Stop HookFault) BothModes :=
  match opNext .stats tid s.counted (l.op, l.counted),
      opNext family tid s.logged (l.op, l.logged) with
  | .ok counted, .ok logged =>
      .ok ⟨counted, logged,
        if logged.world.prof.mprId = s.logged.world.prof.mprId then s.currents
        else s.currents ++ [counted.world.ms.msCurrent]⟩
  | .error stop, _ => .error stop
  | _, .error stop => .error stop

/-- The operation as the ledger takes it. -/
def ModeOp.step (l : ModeOp) : BlockOp × Bool := (l.op, l.op.fails l.counted)

/-- The profiler gets its memory, only a block that is resized may be refused, and the same
operations fail in both processes. -/
structure ModeOp.Alike (l : ModeOp) : Prop where
  granted : l.logged.Grants
  provided : l.op.Provided l.counted ∧ l.op.Provided l.logged
  fails : l.op.fails l.counted = l.op.fails l.logged

instance (l : ModeOp) : Decidable l.Alike :=
  decidable_of_iff (l.logged.Grants ∧ (l.op.Provided l.counted ∧ l.op.Provided l.logged) ∧
      l.op.fails l.counted = l.op.fails l.logged)
    ⟨fun parts => ⟨parts.1, parts.2.1, parts.2.2⟩,
      fun alike => ⟨alike.granted, alike.provided, alike.fails⟩⟩

/-- The counters say what the reader computes. -/
structure CountersAgree (ms : Memstats) (currents : List UInt64) (profile : MProfile) : Prop where
  current : profile.memRecords.map MemRecord.memCurrent = currents.map (fun c => (c.toNat : Int))
  allocated : profile.getTotalMem = ms.msTotalAllocated.toNat
  released : -(((profile.memRecords.map MemRecord.mr).map MprofileRecord.mprDelta).filter
    (fun delta => delta < 0)).sum = ms.msTotalReleased.toNat
  peak : profile.memRecords ≠ [] ->
    Exists fun mr => profile.getMemPeak = some mr ∧ mr.memCurrent = ms.msMax.toNat

/-! ## What is counted -/

/-- The change that is counted. -/
def Counted.change : Counted -> Int
  | .nothing => 0
  | .alloc sz => sz.toNat
  | .free sz => -(sz.toNat : Int)
  | .realloc origSz sz => (sz.toNat : Int) - origSz.toNat

/-- The counters are the sums of the changes. -/
structure SumsOf (ms : Memstats) (changes : List Int) : Prop where
  current : (ms.msCurrent.toNat : Int) = changes.sum
  allocated : (ms.msTotalAllocated.toNat : Int) = (changes.map increase).sum
  released : (ms.msTotalReleased.toNat : Int) = (changes.map decrease).sum
  peak : (ms.msMax.toNat : Int) = peakTotal changes

section Counters

variable {ms : Memstats} {changes : List Int}

theorem sumsOf_init : SumsOf World.init.ms [] := ⟨rfl, rfl, rfl, rfl⟩

/-- Sums over one more change. -/
theorem sum_map_concat (f : Int -> Int) (change : Int) :
    ((changes ++ [change]).map f).sum = (changes.map f).sum + f change := by
  rw [List.map_append, List.sum_append, List.map_singleton, List.sum_singleton]

/-- The current size grows. -/
theorem SumsOf.grow (counts : SumsOf ms changes) (delta : UInt64)
    (small : (changes.map increase).sum + delta.toNat < 2 ^ 63) :
    SumsOf ({ ms with msTotalAllocated := ms.msTotalAllocated + delta }.updateAlloc delta)
      (changes ++ [(delta.toNat : Int)]) := by
  have sound := sum_le_increases changes
  have isCurrent := counts.current
  have isAllocated := counts.allocated
  have current : ((ms.msCurrent + delta).toNat : Int) = changes.sum + delta.toNat := by
    rw [UInt64.toNat_add]
    omega
  have larger : increase delta.toNat = delta.toNat := if_neg (by omega)
  have nothing : decrease delta.toNat = 0 := if_neg (by omega)
  refine ⟨?_, ?_, ?_, ?_⟩
  · rw [List.sum_append, List.sum_singleton]
    exact current
  · rw [sum_map_concat, larger]
    change ((ms.msTotalAllocated + delta).toNat : Int) = _
    rw [UInt64.toNat_add]
    omega
  · rw [sum_map_concat, nothing, Int.add_zero]
    exact counts.released
  · rw [peakTotal_concat, ← counts.peak, ← current]
    change ((if ms.msMax < ms.msCurrent + delta then ms.msCurrent + delta
      else ms.msMax : UInt64).toNat : Int) = _
    by_cases higher : ms.msMax < ms.msCurrent + delta
    · have less := UInt64.lt_iff_toNat_lt.mp higher
      rw [if_pos higher]
      omega
    · have atMost := UInt64.le_iff_toNat_le.mp (UInt64.not_lt.mp higher)
      rw [if_neg higher]
      omega

/-- The current size shrinks. -/
theorem SumsOf.shrink (counts : SumsOf ms changes) (delta : UInt64)
    (small : (changes.map increase).sum < 2 ^ 63) (enough : (delta.toNat : Int) ≤ changes.sum) :
    SumsOf ({ ms with msTotalReleased := ms.msTotalReleased + delta }.updateRelease delta)
      (changes ++ [-(delta.toNat : Int)]) := by
  have parts := sum_eq_increases changes
  have isCurrent := counts.current
  have isReleased := counts.released
  have nothing : increase (-(delta.toNat : Int)) = 0 := by
    unfold increase
    split_ifs <;> omega
  have taken : decrease (-(delta.toNat : Int)) = delta.toNat := by
    unfold decrease
    split_ifs <;> omega
  refine ⟨?_, ?_, ?_, ?_⟩
  · rw [List.sum_append, List.sum_singleton]
    change ((ms.msCurrent - delta).toNat : Int) = _
    have word := delta.toNat_lt
    rw [UInt64.toNat_sub]
    omega
  · rw [sum_map_concat, nothing, Int.add_zero]
    exact counts.allocated
  · rw [sum_map_concat, taken]
    change ((ms.msTotalReleased + delta).toNat : Int) = _
    rw [UInt64.toNat_add]
    omega
  · have highest := sum_le_peakTotal changes
    rw [peakTotal_concat, ← counts.peak]
    change (ms.msMax.toNat : Int) = _
    have isPeak := counts.peak
    omega

/-- The counters after what is counted. -/
theorem SumsOf.count (counts : SumsOf ms changes) (counted : Counted)
    (small : ((changes ++ [counted.change]).map increase).sum < 2 ^ 63)
    (positive : 0 ≤ (changes ++ [counted.change]).sum) :
    SumsOf (ms.count counted) (changes ++ [counted.change]) := by
  have highest := sum_le_peakTotal changes
  rw [sum_map_concat] at small
  rw [List.sum_append, List.sum_singleton] at positive
  cases counted with
  | nothing =>
      refine ⟨?_, ?_, ?_, ?_⟩
      · rw [List.sum_append, List.sum_singleton, Counted.change, Int.add_zero]
        exact counts.current
      · rw [sum_map_concat]
        exact counts.allocated.trans (Int.add_zero _).symm
      · rw [sum_map_concat]
        exact counts.released.trans (Int.add_zero _).symm
      · rw [peakTotal_concat, Counted.change, Int.add_zero, Int.max_eq_left highest]
        exact counts.peak
  | alloc sz =>
      have added : SumsOf { ms with msAllocs := ms.msAllocs + 1 } changes :=
        ⟨counts.current, counts.allocated, counts.released, counts.peak⟩
      refine added.grow sz ?_
      have larger : increase (Counted.alloc sz).change = sz.toNat :=
        if_neg (Int.not_lt.mpr (Int.natCast_nonneg _))
      rwa [larger] at small
  | free sz =>
      have freed : SumsOf { ms with msFree := ms.msFree + 1 } changes :=
        ⟨counts.current, counts.allocated, counts.released, counts.peak⟩
      have nonneg : 0 ≤ increase (Counted.free sz).change := by
        unfold increase
        split_ifs <;> omega
      refine freed.shrink sz (by omega) ?_
      have isChange : (Counted.free sz).change = -(sz.toNat : Int) := rfl
      omega
  | realloc origSz sz =>
      have resized : SumsOf { ms with msReallocs := ms.msReallocs + 1 } changes :=
        ⟨counts.current, counts.allocated, counts.released, counts.peak⟩
      have isChange : (Counted.realloc origSz sz).change = (sz.toNat : Int) - origSz.toNat := rfl
      have nonneg : 0 ≤ increase (Counted.realloc origSz sz).change := by
        unfold increase
        split_ifs <;> omega
      rw [Memstats.count]
      by_cases shrinks : origSz > sz
      · have less := UInt64.lt_iff_toNat_lt.mp shrinks
        have difference := UInt64.toNat_sub_of_le _ _ (UInt64.le_of_lt shrinks)
        have same : (Counted.realloc origSz sz).change = -((origSz - sz).toNat : Int) := by omega
        rw [if_pos shrinks, same]
        exact resized.shrink (origSz - sz) (by omega) (by omega)
      · have atMost := UInt64.le_iff_toNat_le.mp (UInt64.not_lt.mp shrinks)
        have difference := UInt64.toNat_sub_of_le _ _ (UInt64.not_lt.mp shrinks)
        have same : (Counted.realloc origSz sz).change = ((sz - origSz).toNat : Int) := by omega
        have larger : increase (Counted.realloc origSz sz).change = (sz - origSz).toNat := by
          rw [same]
          exact if_neg (by omega)
        rw [if_neg shrinks, same]
        exact resized.grow (sz - origSz) (by omega)

end Counters

/-! ## A call -/

section Calls

variable {heap : UInt64 -> Option Block} {answer : Answer} {call : Call} {out : TracedCall}
  {m : MeasuredCall}

/-- A counting hook leaves the blocks as a tracing hook would. -/
theorem measured_traced (measured : call.measured heap answer = .ok m) :
    Exists fun out => call.traced heap answer = .ok out ∧ out.heap = m.heap ∧
      forall (tag : Nat) held, call.settle tag out.rv held = call.settle tag m.rv held := by
  have effect := sameEffect heap call answer
  rw [measured] at effect
  cases ran : call.traced heap answer with
  | error fault => rw [ran] at effect; exact effect.elim
  | ok out =>
      rw [ran] at effect
      refine ⟨out, rfl, effect.1, fun tag held => ?_⟩
      cases call with
      | malloc sz => rw [effect.2.mpr trivial]
      | free b => rfl
      | realloc b sz =>
          by_cases noSize : sz = 0
          · rw [Call.settle, Call.settle, if_pos noSize, if_pos noSize]
          · rw [effect.2.mpr (fun impossible => absurd impossible noSize)]

/-- The change of a block that ends, or of the null pointer. -/
theorem released_change {b sz : UInt64} (read : argumentSize heap b = .ok sz)
    (small : sz.toNat < 2 ^ 63) :
    toSsize (sz * -1) = (if b = 0 then Counted.nothing else .free sz).change := by
  rw [(toSsize_neg_iff sz).mpr (Nat.le_of_lt small)]
  by_cases null : b = 0
  · subst null
    cases read
    rfl
  · rw [if_neg null]
    rfl

/-- A counting hook counts the change that a tracing hook logs, and nothing if none is logged. -/
theorem measured_change (outcome : TracedOutcome heap answer call out)
    (measured : call.measured heap answer = .ok m) (asked : call.asked.toNat < 2 ^ 63)
    (argument : forall sz, argumentSize heap call.argument = .ok sz -> sz.toNat < 2 ^ 63)
    (provided : forall sz, call = .malloc sz -> sz ≠ 0 -> answer.ptr ≠ 0) :
    out.logged.toList.map MprofileRecord.mprDelta = [m.counted.change] ∨
      out.logged.toList.map MprofileRecord.mprDelta = [] ∧ m.counted = .nothing := by
  cases outcome with
  | @refused sz heap' taken =>
      have noSize : sz = 0 := by
        by_contra isSize
        exact provided sz rfl isSize (malloc_result taken).symm
      rw [Call.measured, taken] at measured
      cases measured
      subst noSize
      exact Or.inl rfl
  | @made sz mh middle heap' taken isBlock stored =>
      rw [Call.measured, taken] at measured
      simp only [ok_bind, if_neg isBlock, stored, pure_ok] at measured
      cases measured
      exact Or.inl (congrArg (fun d => [d]) (toSsize_small asked))
  | @freed b sz heap' read released =>
      rw [Call.measured, read] at measured
      simp only [ok_bind, released, pure_ok] at measured
      cases measured
      exact Or.inl (congrArg (fun d => [d]) (released_change read (argument sz read)))
  | @ended b sz q heap' read taken =>
      rw [Call.measured, read] at measured
      have request : reallocSize 0 = 0 := rfl
      simp only [ok_bind, request, taken, if_pos, pure_ok] at measured
      cases measured
      exact Or.inl (congrArg (fun d => [d]) (released_change read (argument sz read)))
  | @kept b sz origSz heap' isSize read taken =>
      rw [Call.measured, read] at measured
      have request : reallocSize sz = sz + sizeofMemhdr := if_pos isSize
      simp only [ok_bind, request, taken, if_neg isSize, if_pos, pure_ok] at measured
      cases measured
      exact Or.inr ⟨rfl, rfl⟩
  | @resized b sz origSz mh middle heap' isSize read taken isBlock stored =>
      rw [Call.measured, read] at measured
      have request : reallocSize sz = sz + sizeofMemhdr := if_pos isSize
      simp only [ok_bind, request, taken, if_neg isSize, if_neg isBlock, stored,
        pure_ok] at measured
      cases measured
      by_cases null : b = 0
      · simp only [if_pos null]
        exact Or.inl (congrArg (fun d => [d]) (toSsize_small asked))
      · have exact :=
          (toSsize_sub_iff sz origSz asked).mpr (by have upTo := argument origSz read; omega)
        simp only [if_neg null]
        exact Or.inl (congrArg (fun d => [d]) exact)

/-- What a call of a counting hook leaves. -/
theorem madeCall_stats {tid : Nat} {w w' : World} {rv : UInt64}
    (made : makeCall .stats tid w (call, answer) = .ok (w', rv)) :
    Exists fun m => call.measured w.heap answer = .ok m ∧ w'.heap = m.heap ∧
      w'.ms = w.ms.count m.counted ∧ rv = m.rv := by
  rw [makeCall, run_hook_stats] at made
  cases measured : call.measured w.heap answer with
  | error fault => rw [measured] at made; cases made
  | ok m =>
      rw [measured] at made
      cases made
      exact ⟨m, rfl, rfl, rfl, rfl⟩

/-- A call of a counting hook goes wrong as that of a tracing hook would. -/
theorem madeCall_stats_fault {tid : Nat} {w : World} {fault : HookFault}
    (failed : makeCall .stats tid w (call, answer) = .error fault) :
    call.traced w.heap answer = .error fault := by
  rw [makeCall, run_hook_stats] at failed
  have effect := sameEffect w.heap call answer
  cases measured : call.measured w.heap answer with
  | ok m => rw [measured] at failed; cases failed
  | error other =>
      rw [measured] at failed effect
      cases failed
      cases ran : call.traced w.heap answer with
      | ok out => rw [ran] at effect; exact effect.elim
      | error another =>
          rw [ran] at effect
          exact congrArg Except.error effect

end Calls

/-! ## The two processes -/

/-- The process of the counting hooks follows the ledger. -/
structure Counting (s : OpState) (ledger : Ledger) : Prop where
  tracked : Tracked s.world.heap s.held s.count ledger
  counts : SumsOf s.world.ms ledger.changes

/-- The process of the tracing hooks follows the ledger. -/
structure Tracing (tid : Nat) (s : OpState) (ledger : Ledger) : Prop where
  tracked : Tracked s.world.heap s.held s.count ledger
  logs : Exists fun log =>
    Solo s.world.prof tid log ∧ log.map MprofileRecord.mprDelta = ledger.changes

/-- Both of them, and `ms_current` followed the running totals. -/
structure Mirrors (tid : Nat) (s : BothModes) (ledger : Ledger) : Prop where
  counting : Counting s.counted ledger
  tracing : Tracing tid s.logged ledger
  currents : s.currents.map (fun c => (c.toNat : Int)) = runningTotals 0 ledger.changes

section Steps

variable {family : Family} {tid : Nat} {s s' : OpState} {l : BlockOp × Answer} {ledger : Ledger}

theorem tracked_init : Tracked World.init.heap [] 0 Ledger.init :=
  ⟨holding_init, ledger_sound_init, rfl, rfl⟩

theorem Counting.next (counting : Counting s ledger) (provided : l.1.Provided l.2)
    (small : ledger.asked + l.1.size < 2 ^ 63) (stepped : opNext .stats tid s l = .ok s') :
    Exists fun ledger' => ledger.next (l.1, l.1.fails l.2) = .ok ledger' ∧ Counting s' ledger' := by
  rcases opNext_ok stepped with ⟨call, isCall, rv, made, held, count⟩
  rcases madeCall_stats made with ⟨m, measured, heap, ms, rfl⟩
  rcases measured_traced measured with ⟨out, ran, sameHeap, sameHeld⟩
  have outcome := traced_outcome ran
  rcases counting.tracked.step isCall provided small outcome with
    ⟨ledger', isNext, tracked, changes⟩
  refine ⟨ledger', isNext, ?_, ?_⟩
  · rw [heap, held, count, ← sameHeap, ← sameHeld]
    exact tracked
  · have asked : call.asked.toNat < 2 ^ 63 := by
      rw [call_asked isCall]
      omega
    have asks : ledger'.asked = ledger.asked + l.1.size := Ledger.next_asked isNext
    have grown := tracked.sound.grown
    have positive : 0 ≤ ledger'.changes.sum := by
      rw [tracked.sound.total]
      exact sum_sizes_nonneg _
    rw [ms]
    rcases measured_change outcome measured asked (fun sz read => by
      have upTo := counting.tracked.argument_le isCall read
      omega) (fun sz isMalloc => provided_malloc (isMalloc ▸ isCall) provided) with
        one | ⟨none, nothing⟩
    · rw [one] at changes
      rw [changes] at grown positive ⊢
      exact counting.counts.count m.counted (by omega) positive
    · rw [changes, none, List.append_nil, nothing]
      exact counting.counts

/-- Every change has its id. -/
theorem Tracing.ids (tracing : Tracing tid s ledger) :
    ledger.changes.length = s.world.prof.mprId := by
  rcases tracing.logs with ⟨log, solo, deltas⟩
  rw [← deltas, List.length_map, solo.length]

theorem Tracing.next (traced : family ≠ .stats) (tracing : Tracing tid s ledger)
    (granted : l.2.Grants)
    (provided : l.1.Provided l.2) (small : ledger.asked + l.1.size < 2 ^ 63)
    (stepped : opNext family tid s l = .ok s') :
    Exists fun ledger' => ledger.next (l.1, l.1.fails l.2) = .ok ledger' ∧
      Tracing tid s' ledger' := by
  rcases opNext_ok stepped with ⟨call, isCall, rv, made, held, count⟩
  rcases tracing.logs with ⟨log, solo, deltas⟩
  rcases solo.madeCall traced made with ⟨out, ran, sameHeap, rfl, soloAfter⟩
  rcases tracing.tracked.step isCall provided small (traced_outcome ran) with
    ⟨ledger', isNext, tracked, changes⟩
  refine ⟨ledger', isNext, ?_, _, soloAfter, ?_⟩
  · rw [sameHeap, held, count]
    exact tracked
  · rw [List.map_append, deltas, changes, TracedCall.records, if_pos granted.2, List.map_map]
    rfl

/-- An operation that the ledger allows goes wrong only if an answer is none that libc may give. -/
theorem Counting.stops (counting : Counting s ledger) {failed : Bool} {ledger' : Ledger}
    (allowed : ledger.next (l.1, failed) = .ok ledger') (small : ledger.asked + l.1.size < 2 ^ 63)
    {stop : Stop HookFault} (stopped : opNext .stats tid s l = .error stop) :
    stop = .fault .notLibc := by
  rcases counting.tracked.has_call allowed with ⟨call, isCall⟩
  rcases opNext_error isCall stopped with ⟨fault, failed, rfl⟩
  rw [counting.tracked.holding.traced_fault (counting.tracked.legal isCall)
    (fits_of_small (by rw [call_asked isCall]; omega)) (madeCall_stats_fault failed)]

theorem Tracing.stops (traced : family ≠ .stats) (tracing : Tracing tid s ledger)
    (granted : l.2.Grants)
    {failed : Bool} {ledger' : Ledger} (allowed : ledger.next (l.1, failed) = .ok ledger')
    (small : ledger.asked + l.1.size < 2 ^ 63) {stop : Stop HookFault}
    (stopped : opNext family tid s l = .error stop) : stop = .fault .notLibc := by
  rcases tracing.tracked.has_call allowed with ⟨call, isCall⟩
  rcases tracing.logs with ⟨log, solo, -⟩
  rcases opNext_error isCall stopped with ⟨fault, failed, rfl⟩
  rcases solo.madeCall_fault traced granted failed with failed' | notLibc
  · rw [tracing.tracked.holding.traced_fault (tracing.tracked.legal isCall)
      (fits_of_small (by rw [call_asked isCall]; omega)) failed']
  · rw [notLibc]

end Steps

section Runs

variable {family : Family} {tid : Nat} {s s' : BothModes} {l : ModeOp} {ledger : Ledger}

theorem mirrors_init (tid : Nat) : Mirrors tid BothModes.init Ledger.init :=
  ⟨⟨tracked_init, sumsOf_init⟩, ⟨tracked_init, [], solo_init tid, rfl⟩, rfl⟩

theorem bothNext_ok (stepped : bothNext family tid s l = .ok s') :
    opNext .stats tid s.counted (l.op, l.counted) = .ok s'.counted ∧
      opNext family tid s.logged (l.op, l.logged) = .ok s'.logged ∧
      s'.currents = if s'.logged.world.prof.mprId = s.logged.world.prof.mprId then s.currents
        else s.currents ++ [s'.counted.world.ms.msCurrent] := by
  unfold bothNext at stepped
  cases counted : opNext .stats tid s.counted (l.op, l.counted) with
  | error stop => rw [counted] at stepped; cases stepped
  | ok one =>
      cases logged : opNext family tid s.logged (l.op, l.logged) with
      | error stop => rw [counted, logged] at stepped; cases stepped
      | ok other =>
          rw [counted, logged] at stepped
          cases stepped
          exact ⟨rfl, rfl, rfl⟩

/-- Both processes do what the ledger does. -/
theorem Mirrors.next (traced : family ≠ .stats) (mirrors : Mirrors tid s ledger) (alike : l.Alike)
    (small : ledger.asked + l.op.size < 2 ^ 63) (stepped : bothNext family tid s l = .ok s') :
    Exists fun ledger' => ledger.next l.step = .ok ledger' ∧ Mirrors tid s' ledger' := by
  rcases bothNext_ok stepped with ⟨counted, logged, currents⟩
  rcases mirrors.counting.next alike.provided.1 small counted with ⟨ledger', isNext, counting⟩
  rcases mirrors.tracing.next traced alike.granted alike.provided.2 small logged with
    ⟨other, isOther, tracing⟩
  have same : other = ledger' := by
    simp only [← alike.fails] at isOther
    exact Except.ok.inj (isOther.symm.trans isNext)
  subst same
  refine ⟨other, isNext, counting, tracing, ?_⟩
  have ids := mirrors.tracing.ids
  have ids' := tracing.ids
  have current := counting.counts.current
  rcases Ledger.next_after isNext with ⟨blocks, changes, rfl, atMost⟩
  simp only [Ledger.after, List.length_append] at ids' current ⊢
  cases changes with
  | nil =>
      have unlogged : s'.logged.world.prof.mprId = s.logged.world.prof.mprId := by
        rw [← ids, ← ids']
        rfl
      rw [currents, if_pos unlogged, List.append_nil]
      exact mirrors.currents
  | cons change rest =>
      have one : rest = [] :=
        List.length_eq_zero_iff.mp (Nat.le_zero.mp (Nat.le_of_succ_le_succ atMost))
      subst one
      have isLogged : s'.logged.world.prof.mprId ≠ s.logged.world.prof.mprId := by
        rw [← ids, ← ids']
        exact Nat.succ_ne_self _
      rw [currents, if_neg isLogged, List.map_append, List.map_singleton, mirrors.currents, current,
        runningTotals_concat, List.sum_append, List.sum_singleton]

/-- The processes follow the ledger, which allows the operations that are left. -/
structure Following (tid : Nat) (s : BothModes) (ledger : Ledger) (left : List ModeOp) : Prop where
  mirrors : Mirrors tid s ledger
  legal : Exists fun final => exec Ledger.next ledger (left.map ModeOp.step) = .ok final
  alike : forall l, l ∈ left -> l.Alike
  small : ledger.asked + (left.map (fun l => l.op.size)).sum < 2 ^ 63

variable {left : List ModeOp}

/-- What an operation asks for fits next to what was asked for before. -/
theorem Following.room (following : Following tid s ledger (l :: left)) :
    ledger.asked + l.op.size < 2 ^ 63 := by
  have small := following.small
  rw [List.map_cons, List.sum_cons] at small
  omega

theorem Following.next (traced : family ≠ .stats) (following : Following tid s ledger (l :: left))
    (stepped : bothNext family tid s l = .ok s') :
    Exists fun ledger' => ledger.next l.step = .ok ledger' ∧ Following tid s' ledger' left := by
  rcases following.mirrors.next traced (following.alike l List.mem_cons_self) following.room
      stepped with
    ⟨ledger', isNext, mirrors⟩
  refine ⟨ledger', isNext, mirrors, ?_,
    fun other member => following.alike other (List.mem_cons_of_mem l member), ?_⟩
  · rcases following.legal with ⟨final, executed⟩
    rcases exec_cons_ok executed with ⟨middle, isMiddle, rest⟩
    rw [isNext] at isMiddle
    cases isMiddle
    exact ⟨final, rest⟩
  · have small := following.small
    have asks : ledger'.asked = ledger.asked + l.op.size := Ledger.next_asked isNext
    rw [List.map_cons, List.sum_cons] at small
    omega

theorem Following.stops (traced : family ≠ .stats) (following : Following tid s ledger (l :: left))
    {stop : Stop HookFault} (stopped : bothNext family tid s l = .error stop) :
    stop = .fault .notLibc := by
  rcases following.legal with ⟨final, executed⟩
  rcases exec_cons_ok executed with ⟨middle, allowed, -⟩
  unfold bothNext at stopped
  cases counted : opNext .stats tid s.counted (l.op, l.counted) with
  | error reason =>
      rw [counted] at stopped
      cases stopped
      exact following.mirrors.counting.stops allowed following.room counted
  | ok one =>
      cases logged : opNext family tid s.logged (l.op, l.logged) with
      | ok other => rw [counted, logged] at stopped; cases stopped
      | error reason =>
          rw [counted, logged] at stopped
          cases stopped
          have granted := (following.alike l List.mem_cons_self).granted
          exact following.mirrors.tracing.stops traced granted allowed following.room logged

end Runs

/-! ## What the reader computes -/

section Readers

variable {doc : Document} {ms : Memstats} {changes : List Int} {currents : List UInt64}

theorem map_memCurrent_calcCurrent (total : Int) (log : List MprofileRecord) :
    (MProfile.calcCurrent total log).map MemRecord.memCurrent =
      runningTotals total (log.map MprofileRecord.mprDelta) := by
  induction log generalizing total with
  | nil => rfl
  | cons mr rest inductionHypothesis =>
      rw [MProfile.calcCurrent, List.map_cons, List.map_cons, runningTotals, inductionHypothesis]

theorem firstMax_memCurrent (best : MemRecord) (rest : List MemRecord) :
    (MProfile.firstMax best rest).memCurrent = (rest.map MemRecord.memCurrent).foldl max
      best.memCurrent := by
  induction rest generalizing best with
  | nil => rfl
  | cons mr rest inductionHypothesis =>
      rw [MProfile.firstMax, inductionHypothesis, List.map_cons, List.foldl_cons]
      congr 1
      split_ifs with higher
      · exact (Int.max_eq_right (Int.le_of_lt higher)).symm
      · exact (Int.max_eq_left (Int.not_lt.mp higher)).symm

/-- The reader finds in the log what the counters say. -/
theorem SumsOf.agree (counts : SumsOf ms changes)
    (positive : forall total, total ∈ runningTotals 0 changes -> 0 ≤ total)
    (followed : currents.map (fun c => (c.toNat : Int)) = runningTotals 0 changes)
    (deltas : doc.allocations.map MprofileRecord.mprDelta = changes) :
    CountersAgree ms currents (MProfile.ofDocument doc) := by
  have records : (MProfile.ofDocument doc).memRecords.map MemRecord.mr = doc.allocations :=
    MProfile.map_mr_calcCurrent 0 doc.allocations
  have totals : (MProfile.ofDocument doc).memRecords.map MemRecord.memCurrent =
      runningTotals 0 changes := by
    rw [← deltas]
    exact map_memCurrent_calcCurrent 0 doc.allocations
  refine ⟨totals.trans followed.symm, ?_, ?_, fun some => ?_⟩
  · rw [MProfile.getTotalMem, records, counts.allocated, ← deltas, List.map_map]
    rfl
  · rw [records, deltas, counts.released, decreases_eq_negatives]
  · cases isRecords : (MProfile.ofDocument doc).memRecords with
    | nil => exact absurd isRecords some
    | cons mr rest =>
        refine ⟨MProfile.firstMax mr rest, by rw [MProfile.getMemPeak, isRecords], ?_⟩
        rw [isRecords, List.map_cons] at totals
        have first := positive mr.memCurrent (totals ▸ List.mem_cons_self)
        rw [firstMax_memCurrent, counts.peak, peakTotal, ← totals, List.foldl_cons,
          Int.max_eq_right first]

end Readers

/-- The counters of mode 1 say what the reader computes from the log of mode 2: `ms_current`
is `mem_current` after each operation that is logged, and the totals and the peak are the same. -/
theorem counters_agree (family : Family) (traced : family ≠ .stats) (tid : Nat) (ops : List ModeOp)
    (legal : Exists fun ledger => exec Ledger.next Ledger.init (ops.map ModeOp.step) = .ok ledger)
    (alike : forall l, l ∈ ops -> l.Alike) (small : (ops.map (fun l => l.op.size)).sum < 2 ^ 63) :
    (forall stop, exec (bothNext family tid) BothModes.init ops = .error stop ->
      stop = .fault .notLibc) ∧
    forall s, exec (bothNext family tid) BothModes.init ops = .ok s ->
      forall copyBlock linkChains doc, mprofileSave copyBlock linkChains s.logged.world.prof =
        .ok doc ->
        CountersAgree s.counted.world.ms s.currents (MProfile.ofDocument doc) := by
  have start : Following tid BothModes.init Ledger.init ops :=
    ⟨mirrors_init tid, legal,
      alike, by rw [show Ledger.init.asked = 0 from rfl, Nat.zero_add]; exact small⟩
  constructor
  · intro stop stopped
    refine exec_stops (fun s left => Exists fun ledger => Following tid s ledger left)
      (fun stop => stop = .fault .notLibc) ?_ ?_ ⟨Ledger.init, start⟩ stopped
    · rintro s l left s' ⟨ledger, following⟩ stepped
      rcases following.next traced stepped with ⟨ledger', -, onward⟩
      exact ⟨ledger', onward⟩
    · rintro s l left stop ⟨ledger, following⟩ failed
      exact following.stops traced failed
  · intro s executed copyBlock linkChains doc saved
    rcases exec_simulates ModeOp.step (Following tid)
      (fun s ledger l left s' following stepped => following.next traced stepped) start
          executed with
      ⟨ledger, -, following⟩
    have mirrors := following.mirrors
    rcases mirrors.tracing.logs with ⟨log, solo, deltas⟩
    exact mirrors.counting.counts.agree mirrors.counting.tracked.sound.positive mirrors.currents
      ((solo.savedDeltas saved).trans deltas)

/-- A block moves, shrinks, keeps its size and cannot grow, an empty block is refused, a
second block is made by `realloc`, and both are released. -/
def mixedOps : List ModeOp :=
  [⟨.malloc 8, answering 4096, answering 8192⟩,
    ⟨.realloc (some 0) 100, answering 12288, answering 4096⟩,
    ⟨.realloc (some 0) 30, answering 12288, answering 4096⟩,
    ⟨.realloc (some 0) 30, answering 12288, answering 16384⟩,
    ⟨.realloc (some 0) 500, answering 0, answering 0⟩, ⟨.malloc 0, answering 0, answering 0⟩,
    ⟨.realloc none 5, answering 4096, answering 8192⟩, ⟨.free none, answering 0, answering 0⟩,
    ⟨.realloc (some 0) 0, answering 0, answering 0⟩, ⟨.realloc none 0, answering 0, answering 0⟩,
    ⟨.free (some 6), answering 0, answering 0⟩]

theorem counters_agree_mixedOps : Exists fun s => Exists fun doc =>
    exec (bothNext .trace 0) BothModes.init mixedOps = .ok s ∧
      s.currents = [8, 100, 30, 30, 30, 35, 35, 5, 5, 0] ∧ s.counted.world.ms.msMax = 100 ∧
      mprofileSave (fun _ => none) true s.logged.world.prof = .ok doc ∧
      CountersAgree s.counted.world.ms s.currents (MProfile.ofDocument doc) := by
  have reached : Exists fun s => exec (bothNext .trace 0) BothModes.init mixedOps = .ok s ∧
      s.currents = [8, 100, 30, 30, 30, 35, 35, 5, 5, 0] ∧ s.counted.world.ms.msMax = 100 ∧
      (mprofileSave (fun _ => none) true s.logged.world.prof).toOption.isSome = true :=
    reaches_of_check (by decide +kernel)
  have legal : Exists fun ledger =>
      exec Ledger.next Ledger.init (mixedOps.map ModeOp.step) = .ok ledger ∧
      ledger.blocks = [] :=
    reaches_of_check (by decide +kernel)
  rcases reached with ⟨s, executed, currents, highest, document⟩
  rcases legal with ⟨ledger, isLegal, -⟩
  cases saved : mprofileSave (fun _ => none) true s.logged.world.prof with
  | error fault => rw [saved] at document; cases document
  | ok doc =>
      have agree :=
        counters_agree .trace (by decide) 0 mixedOps ⟨ledger, isLegal⟩ (by decide +kernel)
        (by decide +kernel)
      exact ⟨s, doc, executed, currents, highest, saved, agree.2 s executed _ _ doc saved⟩

end Mprofile
end OsslScripts
