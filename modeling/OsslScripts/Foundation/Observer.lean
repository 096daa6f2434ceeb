import OsslScripts.Foundation.Pool

namespace OsslScripts
namespace Foundation

/-!
# Observers

An observer is a value that is updated at every operation of a machine, next to
its state, and that no operation reads.  Statements about what happened so far
are statements about an observer.  A sequential run of the observed machine is the
run of the machine (`Machine.observed_run`), and a protocol is followed by the
observed program when it is followed by the program itself.
-/

variable {M : Machine} {Seen : Type}

/-- The machine next to an observer. -/
@[reducible] def Machine.observed (M : Machine) (note : Seen -> M.Op -> M.State -> Seen) :
    Machine where
  Op := M.Op
  Res := M.Res
  Loop := M.Loop
  State := M.State × Seen
  Env := M.Env
  Fault := M.Fault
  exec := fun o env s =>
    match M.exec o env s.1 with
    | .ok (s', r) => .ok ((s', note s.2 o s.1), r)
    | .error fault => .error fault
  again := M.again
  body := fun l s => (((M.body l s.1).1, s.2), (M.body l s.1).2)
  silent := M.silent
  stuck := M.stuck

variable {note : Seen -> M.Op -> M.State -> Seen}

theorem Machine.observed_exec {o : M.Op} {env : M.Env} {s s' : M.State × Seen} {r : M.Res o}
    (executed : (M.observed note).exec o env s = .ok (s', r)) :
    M.exec o env s.1 = .ok (s'.1, r) ∧ s'.2 = note s.2 o s.1 := by
  cases inner : M.exec o env s.1 with
  | error fault => simp only [inner] at executed; cases executed
  | ok result => simp only [inner] at executed; cases executed; exact ⟨rfl, rfl⟩

section Programs

variable {α : Type}

theorem Machine.observed_spinRun {fuel : Nat} : forall {l : M.Loop} {s : M.State} {seen : Seen},
    (M.observed note).spinRun fuel l (s, seen) = (M.spinRun fuel l s).map
      (fun s' => (s', seen)) := by
  induction fuel with
  | zero =>
      intro l s seen
      rw [Machine.spinRun, Machine.spinRun]
      cases M.again l with
      | true => rfl
      | false => rfl
  | succ fuel inductionHypothesis =>
      intro l s seen
      rw [Machine.spinRun, Machine.spinRun]
      cases M.again l with
      | true => exact inductionHypothesis
      | false => rfl

/-- What the program text says about the observer holds at the end of a run. -/
theorem Machine.observed_run {P : Protocol M Seen} {final : Seen} {env : M.Env} {fuel : Nat}
    (notes : forall seen o r s, P.after seen o r = note seen o s)
    (relies : forall seen o r, P.fits seen o r) (leaves : forall seen, P.leave seen = seen)
    {program : M.Program α} : forall {seen : Seen} (s : M.State),
      P.Follows (fun seen' _ => seen' = final) program seen ->
        (M.observed note).run fuel env program (s, seen) =
          (M.run fuel env program s).map (fun result => ((result.1, final), result.2)) := by
  induction program with
  | ret value =>
      intro seen s follows
      have same : seen = final := follows
      subst same
      rfl
  | op o next inductionHypothesis =>
      intro seen s follows
      rw [Machine.run_op, Machine.run_op]
      cases executed : M.exec o env s with
      | error fault => simp only [executed]; rfl
      | ok result =>
          simp only [executed]
          have rest := follows.2 result.2 (relies seen o result.2)
          rw [notes seen o result.2 s] at rest
          exact inductionHypothesis result.2 result.1 rest
  | spin l next inductionHypothesis =>
      intro seen s follows
      have rest := follows.2
      rw [leaves] at rest
      rw [Machine.run, Machine.run, Machine.observed_spinRun]
      cases M.spinRun fuel l s with
      | none => rfl
      | some s' => exact inductionHypothesis s' rest

end Programs

/-! ## Protocols -/

/-- A protocol does not see the observer. -/
def Protocol.observed {Ghost : Type} (P : Protocol M Ghost)
    (note : Seen -> M.Op -> M.State -> Seen) :
    Protocol (M.observed note) Ghost :=
  ⟨P.may, P.fits, P.after, P.loops, P.leave⟩

theorem Protocol.Follows.observed {Ghost α : Type} {P : Protocol M Ghost}
    {ends : Ghost -> α -> Prop}
    {program : M.Program α} {g : Ghost} (follows : P.Follows ends program g) :
    (P.observed note).Follows ends program g := by
  induction program generalizing g with
  | ret value => exact follows
  | op o next inductionHypothesis =>
      exact ⟨follows.1, fun r fits => inductionHypothesis r (follows.2 r fits)⟩
  | spin l next inductionHypothesis => exact ⟨follows.1, inductionHypothesis follows.2⟩

end Foundation
end OsslScripts
