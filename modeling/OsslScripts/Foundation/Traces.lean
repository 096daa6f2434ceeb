import OsslScripts.Foundation.Protocol

namespace OsslScripts
namespace Foundation

/-!
# Traces of programs

The operations that a program performs up to its end, with the results that it
was handed, are a trace.  Which traces a program has depends on its text alone:
no machine restricts the results, so a trace may contain results which no
execution of the machine gives.  Runs of the machine have traces
(`Machine.run_performs`), and a protocol that the program follows is kept along
every trace whose results fit (`Protocol.Follows.along`).
-/

/-- An operation and its result. -/
abbrev Event (M : Machine) : Type := Sigma M.Res

/-- The program has this trace and ends with this value.  Loops leave no events. -/
inductive Performs {M : Machine} {α : Type} : M.Program α -> List (Event M) -> α -> Prop
  | ret (value : α) : Performs (.ret value) [] value
  | op {o : M.Op} {next : M.Res o -> M.Program α} {r : M.Res o} {trace : List (Event M)} {value : α}
      (rest : Performs (next r) trace value) : Performs (.op o next) (⟨o, r⟩ :: trace) value
  | spin {l : M.Loop} {next : M.Program α} {trace : List (Event M)} {value : α}
      (rest : Performs next trace value) : Performs (.spin l next) trace value

section Traces

variable {M : Machine} {α β : Type}

/-- The rule for sequencing. -/
theorem Performs.bind {program : M.Program α} {rest : α -> M.Program β}
    {first second : List (Event M)}
    {middle : α} {value : β} (performs : Performs program first middle)
    (onward : Performs (rest middle) second value) :
    Performs (program.bind rest) (first ++ second) value := by
  induction performs with
  | ret middle => exact onward
  | op _ inductionHypothesis => exact Performs.op (inductionHypothesis onward)
  | spin _ inductionHypothesis => exact Performs.spin (inductionHypothesis onward)

/-- A run that ends has a trace. -/
theorem Machine.run_performs {fuel : Nat} {env : M.Env} {program : M.Program α} :
    forall {s s' : M.State} {value : α}, M.run fuel env program s = .ok (s', value) ->
      Exists fun trace => Performs program trace value := by
  induction program with
  | ret value =>
      intro s s' value' ran
      cases ran
      exact ⟨[], Performs.ret value⟩
  | op o next inductionHypothesis =>
      intro s s' value ran
      rw [Machine.run_op] at ran
      cases executed : M.exec o env s with
      | error fault =>
          rw [executed] at ran
          cases ran
      | ok result =>
          rw [executed] at ran
          rcases inductionHypothesis result.2 ran with ⟨trace, performs⟩
          exact ⟨⟨o, result.2⟩ :: trace, Performs.op performs⟩
  | spin l next inductionHypothesis =>
      intro s s' value ran
      rw [Machine.run] at ran
      cases iterated : M.spinRun fuel l s with
      | none =>
          rw [iterated] at ran
          cases ran
      | some after =>
          rw [iterated] at ran
          rcases inductionHypothesis ran with ⟨trace, performs⟩
          exact ⟨trace, Performs.spin performs⟩

namespace Protocol

variable {Ghost : Type}

/-- Every result of the trace is one that the protocol allows to rely on. -/
def FitsAll (P : Protocol M Ghost) : Ghost -> List (Event M) -> Prop
  | _, [] => True
  | g, event :: rest => P.fits g event.1 event.2 ∧ FitsAll P (P.after g event.1 event.2) rest

/-- Every operation of the trace may be performed, and the last ghost value is as described. -/
def Along (P : Protocol M Ghost) (ends : Ghost -> Prop) : Ghost -> List (Event M) -> Prop
  | g, [] => ends g
  | g, event :: rest => P.may g event.1 ∧ Along P ends (P.after g event.1 event.2) rest

theorem FitsAll.of_forall {P : Protocol M Ghost} {trace : List (Event M)}
    (fits : forall g event, event ∈ trace -> P.fits g event.1 event.2) :
    forall g, P.FitsAll g trace := by
  induction trace with
  | nil => exact fun _ => trivial
  | cons event rest inductionHypothesis =>
      intro g
      exact ⟨fits g event List.mem_cons_self,
        inductionHypothesis (fun g later member => fits g later (List.mem_cons_of_mem _ member)) _⟩

/-- A program keeps to its protocol along its traces. -/
theorem Follows.along {P : Protocol M Ghost} {ends : Ghost -> α -> Prop} {program : M.Program α}
    {trace : List (Event M)} {value : α} (performs : Performs program trace value)
    (leave : forall g, P.leave g = g) : forall {g : Ghost}, P.Follows ends program g ->
      P.FitsAll g trace -> P.Along (fun g' => ends g' value) g trace := by
  induction performs with
  | ret value =>
      intro g follows _
      exact follows
  | @op o next r trace value _ inductionHypothesis =>
      intro g follows fits
      exact ⟨follows.1, inductionHypothesis (follows.2 r fits.1) fits.2⟩
  | @spin l next trace value _ inductionHypothesis =>
      intro g follows fits
      have onward := follows.2
      rw [leave g] at onward
      exact inductionHypothesis onward fits

/-- What holds of every operation that may be performed holds along a trace. -/
theorem Along.forall_event {P : Protocol M Ghost} {ends : Ghost -> Prop} {fact : M.Op -> Prop}
    (entails : forall g o, P.may g o -> fact o) {trace : List (Event M)} :
    forall {g : Ghost}, P.Along ends g trace -> forall event, event ∈ trace -> fact event.1 := by
  induction trace with
  | nil =>
      intro g _ event impossible
      cases impossible
  | cons head rest inductionHypothesis =>
      intro g along event member
      rcases List.mem_cons.mp member with rfl | later
      · exact entails g event.1 along.1
      · exact inductionHypothesis along.2 event later

end Protocol

end Traces

/-! ## Replies -/

section Replies

variable {M : Machine} {α β : Type} (reply : (o : M.Op) -> Option (M.Res o))

/-- The trace of a program whose operations are answered by a fixed reply, as
long as there is one. -/
def replayWith : M.Program α -> Option (List (Event M) × α)
  | .ret value => some ([], value)
  | .op o next =>
      match reply o with
      | none => none
      | some r => (replayWith (next r)).map (fun run => (⟨o, r⟩ :: run.1, run.2))
  | .spin _ next => replayWith next

variable {reply}

/-- A replayed trace is one of the program, and all its results are replies. -/
theorem replayWith_performs {program : M.Program α} :
    forall {trace : List (Event M)} {value : α}, replayWith reply program = some (trace, value) ->
      Performs program trace value ∧ forall event, event ∈ trace ->
        reply event.1 = some event.2 := by
  induction program with
  | ret value =>
      intro trace value' replayed
      cases replayed
      exact ⟨Performs.ret value, fun event impossible => by cases impossible⟩
  | op o next inductionHypothesis =>
      intro trace value replayed
      rw [replayWith] at replayed
      cases answered : reply o with
      | none =>
          rw [answered] at replayed
          cases replayed
      | some r =>
          rw [answered] at replayed
          rcases Option.map_eq_some_iff.mp replayed with ⟨⟨rest, ended⟩, onward, same⟩
          cases same
          rcases inductionHypothesis r onward with ⟨performs, replies⟩
          refine ⟨Performs.op performs, fun event member => ?_⟩
          rcases List.mem_cons.mp member with rfl | later
          · exact answered
          · exact replies event later
  | spin l next inductionHypothesis =>
      intro trace value replayed
      rcases inductionHypothesis replayed with ⟨performs, replies⟩
      exact ⟨Performs.spin performs, replies⟩

/-- The rule for sequencing. -/
theorem replayWith_bind {program : M.Program α} {rest : α -> M.Program β}
    {trace later : List (Event M)}
    {middle : α} {value : β} (first : replayWith reply program = some (trace, middle))
    (second : replayWith reply (rest middle) = some (later, value)) :
    replayWith reply (program.bind rest) = some (trace ++ later, value) := by
  induction program generalizing trace with
  | ret value =>
      cases first
      exact second
  | op o next inductionHypothesis =>
      rw [replayWith] at first
      rw [Prog.op_bind, replayWith]
      cases answered : reply o with
      | none =>
          rw [answered] at first
          cases first
      | some r =>
          rw [answered] at first
          rcases Option.map_eq_some_iff.mp first with ⟨⟨tail, ended⟩, onward, same⟩
          cases same
          simp only [inductionHypothesis r onward, Option.map_some, List.cons_append]
  | spin l next inductionHypothesis => exact inductionHypothesis first

end Replies

end Foundation
end OsslScripts
