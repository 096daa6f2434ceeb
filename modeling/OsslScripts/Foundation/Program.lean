import Mathlib.Logic.Function.Basic

namespace OsslScripts
namespace Foundation

/-!
# Resumption programs over shared state

A procedure that several threads run at the same time is represented by the
tree of its remaining operations.  Each operation acts on a shared state and
hands its result to the rest of the program, so the same tree can be read in
two ways: run to its end by one thread alone (`Prog.run`), or advanced by one
shared operation at a time between the operations of other threads
(`Prog.step`).

An unbounded retry loop is a node of its own, since a program tree is finite.
Its body is one atomic operation on the loop's local variables and the shared
state; the loop test reads the local variables only.

Operations which no other thread can observe are called silent.  A scheduled
step performs one operation that is not silent and then every silent one that
follows it (`Prog.settle`).
-/

/-- The operations of a program: their results, their loops, and their effect. -/
structure Machine where
  Op : Type
  Res : Op -> Type
  Loop : Type
  State : Type
  /-- What the environment decides at one operation. -/
  Env : Type
  Fault : Type
  exec : (o : Op) -> Env -> State -> Except Fault (State × Res o)
  /-- The loop test, on the local variables of the loop. -/
  again : Loop -> Bool
  /-- One iteration of the loop body. -/
  body : Loop -> State -> State × Loop
  silent : Op -> Bool
  /-- Reported by a sequential run whose loop outlives its fuel. -/
  stuck : Fault

inductive Prog (Op : Type) (Res : Op -> Type) (Loop : Type) (α : Type) : Type where
  | ret (value : α)
  | op (o : Op) (next : Res o -> Prog Op Res Loop α)
  | spin (l : Loop) (next : Prog Op Res Loop α)

namespace Prog

variable {Op : Type} {Res : Op -> Type} {Loop α β γ : Type}

def bind (program : Prog Op Res Loop α) (rest : α -> Prog Op Res Loop β) : Prog Op Res Loop β :=
  match program with
  | .ret value => rest value
  | .op o next => .op o (fun r => (next r).bind rest)
  | .spin l next => .spin l (next.bind rest)

instance : Monad (Prog Op Res Loop) where
  pure := .ret
  bind := bind

@[simp] theorem pure_def (value : α) : (pure value : Prog Op Res Loop α) = .ret value := rfl

@[simp] theorem bind_def (program : Prog Op Res Loop α) (rest : α -> Prog Op Res Loop β) :
    program >>= rest = program.bind rest := rfl

@[simp] theorem ret_bind (value : α) (rest : α -> Prog Op Res Loop β) :
    (Prog.ret value : Prog Op Res Loop α).bind rest = rest value := rfl

@[simp] theorem op_bind (o : Op) (next : Res o -> Prog Op Res Loop α)
    (rest : α -> Prog Op Res Loop β) :
    (Prog.op o next).bind rest = .op o (fun r => (next r).bind rest) := rfl

@[simp] theorem spin_bind (l : Loop) (next : Prog Op Res Loop α)
    (rest : α -> Prog Op Res Loop β) :
    (Prog.spin l next).bind rest = .spin l (next.bind rest) := rfl

end Prog

/-- The programs of a machine. -/
abbrev Machine.Program (M : Machine) (α : Type) : Type := Prog M.Op M.Res M.Loop α

section Semantics

variable (M : Machine) {α β : Type}

/-- Iterate a loop alone until its test fails, within the given fuel. -/
def Machine.spinRun : Nat -> M.Loop -> M.State -> Option M.State
  | 0, l, s => if M.again l then none else some s
  | fuel + 1, l, s =>
      if M.again l then
        let next := M.body l s
        Machine.spinRun fuel next.2 next.1
      else some s

/-- Run a program to its end with no other thread in between. -/
def Machine.run (fuel : Nat) (env : M.Env) : M.Program α -> M.State -> Except M.Fault (M.State × α)
  | .ret value, s => .ok (s, value)
  | .op o next, s =>
      match M.exec o env s with
      | .ok (s', r) => Machine.run fuel env (next r) s'
      | .error fault => .error fault
  | .spin l next, s =>
      match M.spinRun fuel l s with
      | some s' => Machine.run fuel env next s'
      | none => .error M.stuck

/-- Perform the silent operations at the front of a program, and leave a
loop whose test fails. -/
def Machine.settle (env : M.Env) : M.Program α -> M.State -> Except M.Fault (M.State × M.Program α)
  | .ret value, s => .ok (s, .ret value)
  | .op o next, s =>
      if M.silent o then
        match M.exec o env s with
        | .ok (s', r) => Machine.settle env (next r) s'
        | .error fault => .error fault
      else .ok (s, .op o next)
  | .spin l next, s => if M.again l then .ok (s, .spin l next) else Machine.settle env next s

/-- One scheduled step: one operation or loop iteration, then settle. -/
def Machine.step (env : M.Env) : M.Program α -> M.State -> Except M.Fault (M.State × M.Program α)
  | .ret value, s => .ok (s, .ret value)
  | .op o next, s =>
      match M.exec o env s with
      | .ok (s', r) => M.settle env (next r) s'
      | .error fault => .error fault
  | .spin l next, s =>
      if M.again l then
        let after := M.body l s
        M.settle env (.spin after.2 next) after.1
      else M.settle env next s

@[simp] theorem Machine.run_ret (fuel : Nat) (env : M.Env) (value : α) (s : M.State) :
    M.run fuel env (.ret value : M.Program α) s = .ok (s, value) := rfl

theorem Machine.run_op (fuel : Nat) (env : M.Env) (o : M.Op) (next : M.Res o -> M.Program α)
    (s : M.State) :
    M.run fuel env (.op o next) s =
      match M.exec o env s with
      | .ok (s', r) => M.run fuel env (next r) s'
      | .error fault => .error fault := by
  rw [Machine.run]

/-- Sequencing two programs runs one after the other. -/
theorem Machine.run_bind (fuel : Nat) (env : M.Env) (program : M.Program α)
    (rest : α -> M.Program β) (s : M.State) :
    M.run fuel env (program.bind rest) s =
      match M.run fuel env program s with
      | .ok (s', value) => M.run fuel env (rest value) s'
      | .error fault => .error fault := by
  induction program generalizing s with
  | ret value => rfl
  | op o next inductionHypothesis =>
      simp only [Prog.op_bind, Machine.run_op]
      cases executed : M.exec o env s with
      | error fault => rfl
      | ok result => exact inductionHypothesis result.2 result.1
  | spin l next inductionHypothesis =>
      simp only [Prog.spin_bind, Machine.run]
      cases M.spinRun fuel l s with
      | none => rfl
      | some s' => exact inductionHypothesis s'

/-! ## Facts about the state alone -/

variable {M} {kept : M.State -> Prop} {env : M.Env}

/-- What every operation keeps, settling keeps. -/
theorem Machine.settle_keeps
    (keeps : forall o s s' r, kept s -> M.exec o env s = .ok (s', r) -> kept s')
    {program rest : M.Program α} : forall {s s' : M.State}, kept s ->
      M.settle env program s = .ok (s', rest) -> kept s' := by
  induction program with
  | ret value =>
      intro s s' holds settled
      cases settled
      exact holds
  | op o next inductionHypothesis =>
      intro s s' holds settled
      rw [Machine.settle] at settled
      cases quiet : M.silent o with
      | false =>
          rw [quiet] at settled
          cases settled
          exact holds
      | true =>
          rw [quiet] at settled
          simp only [if_true] at settled
          cases executed : M.exec o env s with
          | error fault => rw [executed] at settled; cases settled
          | ok result =>
              rw [executed] at settled
              exact inductionHypothesis result.2
                (keeps o s result.1 result.2 holds executed) settled
  | spin l next inductionHypothesis =>
      intro s s' holds settled
      rw [Machine.settle] at settled
      cases test : M.again l with
      | true => rw [test] at settled; cases settled; exact holds
      | false => rw [test] at settled; exact inductionHypothesis holds settled

/-- What every operation and every loop iteration keeps, a step keeps. -/
theorem Machine.step_keeps
    (keeps : forall o s s' r, kept s -> M.exec o env s = .ok (s', r) -> kept s')
    (iterates : forall l s, kept s -> kept (M.body l s).1) {program rest : M.Program α}
    {s s' : M.State} (holds : kept s) (stepped : M.step env program s = .ok (s', rest)) :
    kept s' := by
  cases program with
  | ret value => cases stepped; exact holds
  | op o next =>
      rw [Machine.step] at stepped
      cases executed : M.exec o env s with
      | error fault => rw [executed] at stepped; cases stepped
      | ok result =>
          rw [executed] at stepped
          exact Machine.settle_keeps keeps (keeps o s result.1 result.2 holds executed) stepped
  | spin l next =>
      rw [Machine.step] at stepped
      cases test : M.again l with
      | true =>
          rw [test] at stepped
          exact Machine.settle_keeps keeps (iterates l s holds) stepped
      | false => rw [test] at stepped; exact Machine.settle_keeps keeps holds stepped

end Semantics

end Foundation
end OsslScripts
