import OsslScripts.Foundation.Pool
import OsslScripts.Foundation.Traces

namespace OsslScripts
namespace Foundation

/-!
# The calls of a run

What the threads of a pool do is scattered over the labels of a run.  The call
log keeps every event in the order of the run, with the call that it belongs to,
and the value of each call that has returned.  Every finished call has performed
its program (`CallLog.Faithful`), so that a statement about all traces of a program
is one about all calls of every run.
-/

namespace Machine

variable (M : Machine) {α : Type}

/-- The events that settling performs. -/
def settleTrace (env : M.Env) : M.Program α -> M.State -> List (Event M)
  | .ret _, _ => []
  | .op o next, s =>
      if M.silent o then
        match M.exec o env s with
        | .ok (s', r) => ⟨o, r⟩ :: settleTrace env (next r) s'
        | .error _ => []
      else []
  | .spin l next, s => if M.again l then [] else settleTrace env next s

/-- The events that one scheduled step performs. -/
def stepTrace (env : M.Env) : M.Program α -> M.State -> List (Event M)
  | .ret _, _ => []
  | .op o next, s =>
      match M.exec o env s with
      | .ok (s', r) => ⟨o, r⟩ :: M.settleTrace env (next r) s'
      | .error _ => []
  | .spin l next, s =>
      if M.again l then
        let after := M.body l s
        M.settleTrace env (.spin after.2 next) after.1
      else M.settleTrace env next s

end Machine

section Programs

variable {M : Machine} {α : Type} {env : M.Env} {program middle rest : M.Program α}
  {first second trace : List (Event M)} {s s' : M.State}

/-- From the program to the rest of it, by these events. -/
def Unfolds (program : M.Program α) (trace : List (Event M)) (rest : M.Program α) : Prop :=
  forall later value, Performs rest later value -> Performs program (trace ++ later) value

theorem unfolds_refl (program : M.Program α) : Unfolds program [] program :=
  fun _ _ performs => performs

theorem Unfolds.trans (unfolds : Unfolds program first middle)
    (onward : Unfolds middle second rest) :
    Unfolds program (first ++ second) rest := by
  intro later value performs
  rw [List.append_assoc]
  exact unfolds _ value (onward later value performs)

theorem Unfolds.op {o : M.Op} {next : M.Res o -> M.Program α} {r : M.Res o}
    (unfolds : Unfolds (next r) trace rest) :
    Unfolds (.op o next) (⟨o, r⟩ :: trace) rest :=
  fun later value performs => Performs.op (unfolds later value performs)

theorem Unfolds.spin {l : M.Loop} {next : M.Program α} (unfolds : Unfolds next trace rest) :
    Unfolds (.spin l next) trace rest :=
  fun later value performs => Performs.spin (unfolds later value performs)

/-- The iterations of a loop leave no events. -/
theorem unfolds_turn (l l' : M.Loop) (next : M.Program α) :
    Unfolds (.spin l next) [] (.spin l' next) := by
  intro later value performs
  cases performs with
  | spin onward => exact Performs.spin onward

theorem Unfolds.performs {value : α} (unfolds : Unfolds program trace (.ret value)) :
    Performs program trace value := by
  have performs := unfolds [] value (Performs.ret value)
  rwa [List.append_nil] at performs

/-- Settling performs silent operations. -/
theorem settle_unfolds :
    forall {program : M.Program α} {s : M.State}, M.settle env program s = .ok (s', rest) ->
    Unfolds program (M.settleTrace env program s) rest ∧
      forall event, event ∈ M.settleTrace env program s -> M.silent event.1 = true := by
  intro program
  induction program with
  | ret value =>
      intro s settled
      cases settled
      exact ⟨unfolds_refl _, fun event member => (by cases member)⟩
  | op o next inductionHypothesis =>
      intro s settled
      rw [Machine.settle] at settled
      rw [Machine.settleTrace]
      cases quiet : M.silent o with
      | false =>
          rw [quiet] at settled
          cases settled
          exact ⟨unfolds_refl _, fun event member => (by cases member)⟩
      | true =>
          rw [quiet] at settled
          simp only [if_true] at settled ⊢
          cases executed : M.exec o env s with
          | error fault => rw [executed] at settled; cases settled
          | ok result =>
              rw [executed] at settled
              have onward := inductionHypothesis result.2 settled
              refine ⟨onward.1.op, fun event member => ?_⟩
              rcases List.mem_cons.mp member with rfl | later
              · exact quiet
              · exact onward.2 event later
  | spin l next inductionHypothesis =>
      intro s settled
      rw [Machine.settle] at settled
      rw [Machine.settleTrace]
      cases test : M.again l with
      | true =>
          rw [test] at settled
          cases settled
          exact ⟨unfolds_refl _, fun event member => (by cases member)⟩
      | false =>
          rw [test] at settled
          have onward := inductionHypothesis settled
          exact ⟨onward.1.spin, onward.2⟩

/-- A scheduled step performs the operation at the head, and then silent ones. -/
theorem step_unfolds (stepped : M.step env program s = .ok (s', rest)) :
    Unfolds program (M.stepTrace env program s) rest ∧
      forall event, event ∈ M.stepTrace env program s -> M.silent event.1 = true ∨
        (Protocol.head program = some event.1 ∧ Exists fun s'' =>
          M.exec event.1 env s = .ok (s'', event.2)) := by
  cases program with
  | ret value =>
      cases stepped
      exact ⟨unfolds_refl _, fun event member => (by cases member)⟩
  | op o next =>
      rw [Machine.step] at stepped
      rw [Machine.stepTrace]
      cases executed : M.exec o env s with
      | error fault => rw [executed] at stepped; cases stepped
      | ok result =>
          rw [executed] at stepped
          have onward := settle_unfolds stepped
          refine ⟨onward.1.op, fun event member => ?_⟩
          rcases List.mem_cons.mp member with rfl | later
          · exact Or.inr ⟨rfl, result.1, executed⟩
          · exact Or.inl (onward.2 event later)
  | spin l next =>
      rw [Machine.step] at stepped
      rw [Machine.stepTrace]
      cases test : M.again l with
      | true =>
          rw [test] at stepped
          have onward := settle_unfolds stepped
          exact ⟨(unfolds_turn l _ next).trans onward.1,
            fun event member => Or.inl (onward.2 event member)⟩
      | false =>
          rw [test] at stepped
          have onward := settle_unfolds stepped
          exact ⟨onward.1.spin, fun event member => Or.inl (onward.2 event member)⟩

end Programs

/-! ## The log -/

/-- An event, the thread that performed it, and the number of its call in that thread. -/
structure Happening (M : Machine) (Thread : Type) where
  thread : Thread
  call : Nat
  event : Event M

/-- A call that has returned. -/
structure FinishedCall (Thread Call α : Type) where
  thread : Thread
  number : Nat
  call : Call
  value : α

/-- How many calls each thread has made, all events, and the calls that have returned. -/
structure CallLog (M : Machine) (Thread Call α : Type) where
  calls : Thread -> Nat
  events : List (Happening M Thread)
  finished : List (FinishedCall Thread Call α)

namespace CallLog

variable {M : Machine} {Thread Call α : Type} {C : Client Thread Call α} [DecidableEq Thread]

def empty : CallLog M Thread Call α := ⟨fun _ => 0, [], []⟩

/-- The events of a call. -/
def trace (log : CallLog M Thread Call α) (t : Thread) (number : Nat) : List (Event M) :=
  (log.events.filter (fun happening => decide (happening.thread = t ∧ happening.call = number))).map
    Happening.event

/-- A thread makes another call. -/
def start (log : CallLog M Thread Call α) (t : Thread) : CallLog M Thread Call α :=
  { log with calls := Function.update log.calls t (log.calls t + 1) }

/-- The last call of a thread performs events. -/
def perform (log : CallLog M Thread Call α) (t : Thread) (events : List (Event M)) :
    CallLog M Thread Call α :=
  { log with events := log.events ++ events.map (fun event => ⟨t, log.calls t, event⟩) }

/-- The last call of a thread has this rest of its program left. -/
def land (log : CallLog M Thread Call α) (t : Thread) (k : Call) :
    M.Program α -> CallLog M Thread Call α
  | .ret value => { log with finished := log.finished ++ [⟨t, log.calls t, k, value⟩] }
  | _ => log

/-- What a label adds to the log. -/
def note (prog : Thread -> Call -> M.Program α) (log : CallLog M Thread Call α) (pool : Pool M C) :
    PoolLabel Thread Call M.Env -> Pool M C -> CallLog M Thread Call α
  | .call t k env, _ =>
      match M.settle env (prog t k) pool.shared with
      | .ok (_, rest) =>
        ((log.start t).perform t (M.settleTrace env (prog t k) pool.shared)).land t k rest
      | .error _ => log
  | .step t env, _ =>
      match pool.thread t with
      | none => log
      | some (k, program) =>
          match M.step env program pool.shared with
          | .ok (_, rest) => (log.perform t (M.stepTrace env program pool.shared)).land t k rest
          | .error _ => log

/-- The pool next to the log of its calls. -/
abbrev next (prog : Thread -> Call -> M.Program α) :
    Pool M C × CallLog M Thread Call α -> PoolLabel Thread Call M.Env ->
      Except (Stop M.Fault) (Pool M C × CallLog M Thread Call α) :=
  withHistory (Pool.next prog) (note prog)

section Traces

variable {log : CallLog M Thread Call α} {t u : Thread} {n : Nat} {events : List (Event M)}
  {k : Call}

theorem trace_start : (log.start t).trace u n = log.trace u n := rfl

omit [DecidableEq Thread] in
theorem events_land {rest : M.Program α} : (log.land t k rest).events = log.events := by
  cases rest <;> rfl

theorem trace_land {rest : M.Program α} : (log.land t k rest).trace u n = log.trace u n := by
  rw [trace, trace, events_land]

theorem trace_perform :
    (log.perform t events).trace t (log.calls t) = log.trace t (log.calls t) ++ events := by
  rw [trace, trace, perform, List.filter_append, List.map_append]
  congr 1
  rw [List.filter_eq_self.mpr, List.map_map]
  · exact List.map_id events
  · intro happening member
    rcases List.mem_map.mp member with ⟨event, -, rfl⟩
    exact decide_eq_true ⟨rfl, rfl⟩

/-- The other calls have performed nothing. -/
theorem trace_perform_of_ne (other : ¬ (u = t ∧ n = log.calls t)) :
    (log.perform t events).trace u n = log.trace u n := by
  have outside : forall happening : Happening M Thread,
      happening ∈ events.map (fun event => ⟨t, log.calls t, event⟩) ->
        ¬ (decide (happening.thread = u ∧ happening.call = n) = true) := by
    intro happening member
    rcases List.mem_map.mp member with ⟨event, -, rfl⟩
    exact fun same => other ⟨(of_decide_eq_true same).1.symm, (of_decide_eq_true same).2.symm⟩
  rw [trace, trace, perform, List.filter_append, List.filter_eq_nil_iff.mpr outside,
    List.append_nil]

end Traces

/-- Where the threads are in their calls. -/
abbrev Progress (M : Machine) (Thread Call α : Type) : Type := Thread -> Option (Call × M.Program α)

/-- The log tells what the programs do, and each event of a call is as described. -/
structure Faithful (prog : Thread -> Call -> M.Program α) (fact : Call -> Event M -> Prop)
    (threads : Progress M Thread Call α) (log : CallLog M Thread Call α) : Prop where
  running : forall t k program, threads t = some (k, program) ->
    Unfolds (prog t k) (log.trace t (log.calls t)) program ∧
      forall event, event ∈ log.trace t (log.calls t) -> fact k event
  finished : forall done, done ∈ log.finished ->
    Performs (prog done.thread done.call) (log.trace done.thread done.number) done.value ∧
      forall event, event ∈ log.trace done.thread done.number -> fact done.call event
  /-- Nothing happens outside of the calls that were made. -/
  made : forall happening, happening ∈ log.events -> happening.call ≤ log.calls happening.thread
  earlier : forall done, done ∈ log.finished -> done.number ≤ log.calls done.thread ∧
    (done.number = log.calls done.thread -> threads done.thread = none)
  /-- A call that was made has returned, or it is in progress. -/
  complete : forall t n, 1 ≤ n -> n ≤ log.calls t -> (n = log.calls t ∧ threads t ≠ none) ∨
    Exists fun done => done ∈ log.finished ∧ done.thread = t ∧ done.number = n

variable {prog : Thread -> Call -> M.Program α} {fact : Call -> Event M -> Prop}
  {threads : Progress M Thread Call α}
  {log : CallLog M Thread Call α} {t : Thread} {k : Call} {events : List (Event M)}
  {program rest : M.Program α}

theorem faithful_empty : Faithful prog fact (fun _ => none) (empty : CallLog M Thread Call α) where
  running := fun _ _ _ impossible => by cases impossible
  finished := fun _ member => by cases member
  made := fun _ member => by cases member
  earlier := fun _ member => by cases member
  complete := fun _ _ positive none => absurd (Nat.le_trans positive none) (Nat.not_succ_le_zero 0)

/-- An idle thread makes a call. -/
theorem Faithful.start (faithful : Faithful prog fact threads log) (idle : threads t = none)
    (k : Call) :
    Faithful prog fact (Function.update threads t (some (k, prog t k))) (log.start t) := by
  have calls_self : (log.start t).calls t = log.calls t + 1 := Function.update_self t _ _
  have calls_other : forall u, u ≠ t -> (log.start t).calls u = log.calls u :=
    fun u other => Function.update_of_ne other _ _
  have none_yet : log.trace t (log.calls t + 1) = [] := by
    rw [trace, List.map_eq_nil_iff, List.filter_eq_nil_iff]
    intro happening member same
    have isLast := of_decide_eq_true same
    have before := faithful.made happening member
    rw [isLast.1, isLast.2] at before
    exact Nat.not_succ_le_self _ before
  refine ⟨fun u k' program busy => ?_, faithful.finished, fun happening member => ?_,
    fun done member => ?_,
    fun u n positive within => ?_⟩
  · rw [trace_start]
    by_cases here : u = t
    · subst here
      rw [Function.update_self] at busy
      cases busy
      rw [calls_self, none_yet]
      exact ⟨unfolds_refl _, fun event impossible => by cases impossible⟩
    · rw [Function.update_of_ne here] at busy
      rw [calls_other u here]
      exact faithful.running u k' program busy
  · have before := faithful.made happening member
    by_cases here : happening.thread = t
    · rw [here, calls_self]
      rw [here] at before
      exact Nat.le_succ_of_le before
    · rw [calls_other _ here]
      exact before
  · have before := faithful.earlier done member
    by_cases here : done.thread = t
    · rw [here, calls_self]
      rw [here] at before
      exact ⟨Nat.le_succ_of_le before.1, fun same => absurd before.1 (by omega)⟩
    · rw [calls_other _ here, Function.update_of_ne here]
      exact before
  · by_cases here : u = t
    · subst here
      rw [calls_self] at within ⊢
      rw [Function.update_self]
      by_cases last : n = log.calls u + 1
      · exact Or.inl ⟨last, Option.some_ne_none _⟩
      · rcases faithful.complete u n positive (by omega) with ⟨-, busy⟩ | returned
        · exact absurd idle busy
        · exact Or.inr returned
    · rw [calls_other u here] at within ⊢
      rw [Function.update_of_ne here]
      exact faithful.complete u n positive within

/-- A call performs events. -/
theorem Faithful.perform (faithful : Faithful prog fact threads log)
    (busy : threads t = some (k, program))
    (unfolds : Unfolds program events rest) (facts : forall event, event ∈ events -> fact k event) :
    Faithful prog fact (Function.update threads t (some (k, rest))) (log.perform t events) := by
  have sameCalls : (log.perform t events).calls = log.calls := rfl
  -- the calls that have returned are others
  have returned : forall done, done ∈ log.finished ->
      ¬ (done.thread = t ∧ done.number = log.calls t) := by
    rintro done member ⟨same, last⟩
    have idle := (faithful.earlier done member).2
    rw [same] at idle
    rw [idle last] at busy
    cases busy
  refine ⟨fun u k' program' busy' => ?_, fun done member => ?_, fun happening member => ?_,
    fun done member => ?_,
    fun u n positive within => ?_⟩
  · rw [sameCalls]
    by_cases here : u = t
    · subst here
      rw [Function.update_self] at busy'
      cases busy'
      rw [trace_perform]
      have before := faithful.running u k program busy
      refine ⟨before.1.trans unfolds, fun event member => ?_⟩
      rcases List.mem_append.mp member with earlier | now
      · exact before.2 event earlier
      · exact facts event now
    · rw [Function.update_of_ne here] at busy'
      rw [trace_perform_of_ne (fun same => here same.1)]
      exact faithful.running u k' program' busy'
  · rw [trace_perform_of_ne (returned done member)]
    exact faithful.finished done member
  · rcases List.mem_append.mp member with before | isNew
    · exact faithful.made happening before
    · rcases List.mem_map.mp isNew with ⟨event, -, rfl⟩
      exact Nat.le_refl _
  · refine ⟨(faithful.earlier done member).1, fun last => ?_⟩
    have different : done.thread ≠ t := by
      intro same
      rw [same] at last
      exact returned done member ⟨same, last⟩
    rw [Function.update_of_ne different]
    exact (faithful.earlier done member).2 last
  · rcases faithful.complete u n positive within with ⟨last, inProgress⟩ | done
    · refine Or.inl ⟨last, ?_⟩
      by_cases here : u = t
      · subst here
        rw [Function.update_self]
        exact Option.some_ne_none _
      · rw [Function.update_of_ne here]
        exact inProgress
    · exact Or.inr done

/-- A call returns. -/
theorem Faithful.finish {value : α} (faithful : Faithful prog fact threads log)
    (busy : threads t = some (k, .ret value)) :
    Faithful prog fact (Function.update threads t none)
      (log.land t k (.ret value : M.Program α)) := by
  have own := faithful.running t k _ busy
  refine ⟨fun u k' program' busy' => ?_, fun done member => ?_, faithful.made,
    fun done member => ?_,
    fun u n positive within => ?_⟩
  · by_cases here : u = t
    · subst here
      rw [Function.update_self] at busy'
      cases busy'
    · rw [Function.update_of_ne here] at busy'
      exact faithful.running u k' program' busy'
  · rw [trace_land]
    rcases List.mem_append.mp member with before | isNew
    · exact faithful.finished done before
    · rw [List.mem_singleton.mp isNew]
      exact ⟨own.1.performs, own.2⟩
  · rcases List.mem_append.mp member with before | isNew
    · refine ⟨(faithful.earlier done before).1, fun last => ?_⟩
      by_cases here : done.thread = t
      · rw [here, Function.update_self]
      · rw [Function.update_of_ne here]
        exact (faithful.earlier done before).2 last
    · rw [List.mem_singleton.mp isNew]
      exact ⟨Nat.le_refl _, fun _ => Function.update_self t _ _⟩
  · have widen : (Exists fun done => done ∈ log.finished ∧ done.thread = u ∧ done.number = n) ->
        Exists fun done => done ∈ log.finished ++ [⟨t, log.calls t, k, value⟩] ∧ done.thread = u ∧
            done.number = n :=
      fun ⟨done, member, same⟩ => ⟨done, List.mem_append_left _ member, same⟩
    rcases faithful.complete u n positive within with ⟨last, inProgress⟩ | done
    · by_cases here : u = t
      · subst here
        exact Or.inr ⟨_, List.mem_append_right _ (List.mem_singleton_self _), rfl, last.symm⟩
      · rw [Function.update_of_ne here]
        exact Or.inl ⟨last, inProgress⟩
    · exact Or.inr (widen done)

/-- A call is left with this rest of its program. -/
theorem Faithful.land {pool : Pool M C} (client : C.State) (s : M.State)
    (faithful : Faithful prog fact (Function.update pool.thread t (some (k, rest))) log) :
    Faithful prog fact (pool.land client t k (s, rest)).thread (log.land t k rest) := by
  cases rest with
  | ret value =>
      have returned := faithful.finish (Function.update_self t _ _)
      rw [Function.update_idem] at returned
      exact returned
  | op o tail => exact faithful
  | spin l tail => exact faithful

/-- A label keeps the log faithful, if the facts hold of silent events, and of the operation
that the label performs first. -/
theorem Faithful.next {pool pool' : Pool M C} (faithful : Faithful prog fact pool.thread log)
    {l : PoolLabel Thread Call M.Env}
    (silent : forall k event, M.silent event.1 = true -> fact k event)
    (first : forall t env k program, l = .step t env -> pool.thread t = some (k, program) ->
      forall event, Protocol.head program = some event.1 ->
        (Exists fun s => M.exec event.1 env pool.shared = .ok (s, event.2)) -> fact k event)
    (stepped : pool.next prog l = .ok pool') :
    Faithful prog fact pool'.thread (note prog log pool l pool') := by
  cases l with
  | call t k env =>
      rw [Pool.next] at stepped
      rw [note]
      cases free : pool.thread t with
      | some entry => rw [free] at stepped; cases stepped
      | none =>
          cases claimed : C.start t k pool.client with
          | none => rw [free, claimed] at stepped; cases stepped
          | some client =>
              rw [free, claimed] at stepped
              cases settled : M.settle env (prog t k) pool.shared with
              | error fault => rw [settled] at stepped; cases stepped
              | ok result =>
                  rw [settled] at stepped
                  cases stepped
                  have performed := settle_unfolds settled
                  have onward :=
                    (faithful.start free k).perform (Function.update_self t _ _) performed.1
                    (fun event member => silent k event (performed.2 event member))
                  rw [Function.update_idem] at onward
                  exact onward.land client result.1
  | step t env =>
      rw [Pool.next] at stepped
      rw [note]
      cases busy : pool.thread t with
      | none => rw [busy] at stepped; cases stepped
      | some entry =>
          rcases entry with ⟨k, program⟩
          rw [busy] at stepped
          simp only at stepped ⊢
          cases performed : M.step env program pool.shared with
          | error fault => rw [performed] at stepped; cases stepped
          | ok result =>
              rw [performed] at stepped
              cases stepped
              have unfolds := step_unfolds performed
              refine (faithful.perform busy unfolds.1 (fun event member => ?_)).land pool.client
                result.1
              rcases unfolds.2 event member with quiet | ⟨isHead, executed⟩
              · exact silent k event quiet
              · exact first t env k program rfl busy event isHead executed

end CallLog

end Foundation
end OsslScripts
