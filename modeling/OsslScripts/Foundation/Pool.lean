import OsslScripts.Foundation.Protocol
import OsslScripts.Foundation.Transition

namespace OsslScripts
namespace Foundation

/-!
# Thread pools

Any number of threads call the procedures of a library.  A configuration holds
the shared state, the state of the client (what the callers own and may pass to
the library), and for each thread the call in progress with the rest of its
program.  A label either starts a call on an idle thread or performs one step
of a busy one, in any order.

`Discipline` collects what has to be shown once for every call: the protocol
is sound, a call can take up its protocol, and a returning call gives back what
it holds.  `next_sound` then keeps the pool invariant over every label.
-/

/-- What the callers own, and how calls claim it and give it back. -/
structure Client (Thread Call α : Type) where
  State : Type
  /-- Claim what the call needs; `none` when the caller may not make the call. -/
  start : Thread -> Call -> State -> Option State
  finish : Thread -> Call -> α -> State -> State

/-- Why a label cannot be taken: it is not enabled, or the step goes wrong. -/
inductive Stop (Fault : Type) where
  | disabled
  | fault (f : Fault)
deriving DecidableEq, Repr

inductive PoolLabel (Thread Call Env : Type) where
  | call (t : Thread) (k : Call) (env : Env)
  | step (t : Thread) (env : Env)

/-- What the environment decides during the label. -/
def PoolLabel.env {Thread Call Env : Type} : PoolLabel Thread Call Env -> Env
  | .call _ _ env => env
  | .step _ env => env

structure Pool (M : Machine) {Thread Call α : Type} (C : Client Thread Call α) where
  shared : M.State
  client : C.State
  thread : Thread -> Option (Call × M.Program α)

namespace Pool

variable {M : Machine} {Call α Thread : Type} {C : Client Thread Call α} [DecidableEq Thread]

/-- Store the rest of a program after a step, or finish the call. -/
def land (pool : Pool M C) (client : C.State) (t : Thread) (k : Call) :
    M.State × M.Program α -> Pool M C
  | (s, .ret value) =>
      ⟨s, C.finish t k value client, Function.update pool.thread t none⟩
  | (s, rest) => ⟨s, client, Function.update pool.thread t (some (k, rest))⟩

def next (prog : Thread -> Call -> M.Program α) (pool : Pool M C) :
    PoolLabel Thread Call M.Env -> Except (Stop M.Fault) (Pool M C)
  | .call t k env =>
      match pool.thread t, C.start t k pool.client with
      | none, some client =>
          match M.settle env (prog t k) pool.shared with
          | .ok result => .ok (pool.land client t k result)
          | .error f => .error (.fault f)
      | _, _ => .error .disabled
  | .step t env =>
      match pool.thread t with
      | none => .error .disabled
      | some (k, program) =>
          match M.step env program pool.shared with
          | .ok result => .ok (pool.land pool.client t k result)
          | .error f => .error (.fault f)

/-- No call is in progress. -/
def Quiescent (pool : Pool M C) : Prop :=
  forall t, pool.thread t = none

/-- The operation that a thread performs at its next step. -/
def headOf (pool : Pool M C) (t : Thread) : Option M.Op :=
  match pool.thread t with
  | none => none
  | some (_, program) => Protocol.head program

variable {Ghost : Type}

/-- The obligations of a library whose calls follow a protocol, where the
environment decides as permitted. -/
structure Discipline (permits : M.Env -> Prop) (prog : Thread -> Call -> M.Program α)
    (P : Call -> Protocol M Ghost) (ends : Call -> Ghost -> α -> Prop) (idle : Ghost)
    (I : C.State -> M.State -> (Thread -> Ghost) -> Prop) : Prop where
  silentSound : forall k client env t o, permits env -> M.silent o = true ->
    (P k).OpSound (I client) env t o
  bodySound : forall k client t, (P k).BodySound (I client) t
  leaveSound : forall k client t, (P k).LeaveSound (I client) t
  start : forall k client client' s gs t, C.start t k client = some client' ->
    I client s gs -> gs t = idle ->
    Exists fun g => I client' s (Function.update gs t g) ∧ (P k).Follows (ends k) (prog t k) g
  finish : forall k value client s gs t, I client s gs -> ends k (gs t) value ->
    I (C.finish t k value client) s (Function.update gs t idle)

/-- A busy thread is settled inside a program that follows its protocol. -/
def ThreadOk (P : Call -> Protocol M Ghost) (ends : Call -> Ghost -> α -> Prop) (idle : Ghost)
    (g : Ghost) :
    Option (Call × M.Program α) -> Prop
  | none => g = idle
  | some (k, program) =>
      (P k).Follows (ends k) program g ∧ Protocol.Settled program ∧
        forall value, program ≠ .ret value

/-- The pool invariant with its ghost values exposed. -/
structure Holds (P : Call -> Protocol M Ghost) (ends : Call -> Ghost -> α -> Prop) (idle : Ghost)
    (I : C.State -> M.State -> (Thread -> Ghost) -> Prop) (pool : Pool M C)
    (gs : Thread -> Ghost) : Prop where
  invariant : I pool.client pool.shared gs
  threads : forall t, ThreadOk P ends idle (gs t) (pool.thread t)

variable {permits : M.Env -> Prop} {prog : Thread -> Call -> M.Program α}
  {P : Call -> Protocol M Ghost} {ends : Call -> Ghost -> α -> Prop} {idle : Ghost}
  {I : C.State -> M.State -> (Thread -> Ghost) -> Prop}

/-- Landing keeps the pool invariant: the other threads are where they were. -/
theorem land_holds (discipline : Discipline permits prog P ends idle I) {pool : Pool M C}
    {client : C.State} {t : Thread} {k : Call} {s : M.State} {rest : M.Program α}
    {gs : Thread -> Ghost} {g : Ghost}
    (threads : forall t, ThreadOk P ends idle (gs t) (pool.thread t))
    (follows : (P k).Follows (ends k) rest g) (atRest : Protocol.Settled rest)
    (invariant : I client s (Function.update gs t g)) :
    Exists fun gs' => Holds P ends idle I (pool.land client t k (s, rest)) gs' := by
  have others : forall (g' : Ghost) (entry : Option (Call × M.Program α)),
      ThreadOk P ends idle g' entry -> forall u, ThreadOk P ends idle (Function.update gs t g' u)
        (Function.update pool.thread t entry u) := by
    intro g' entry fits u
    by_cases same : u = t
    · subst u
      rw [Function.update_self, Function.update_self]
      exact fits
    · rw [Function.update_of_ne same, Function.update_of_ne same]
      exact threads u
  cases rest with
  | ret value =>
      have final := discipline.finish k value client s _ t invariant
        (by rw [Function.update_self]; exact follows)
      rw [Function.update_idem] at final
      exact ⟨Function.update gs t idle, final, others idle none rfl⟩
  | op o tail =>
      exact ⟨Function.update gs t g, invariant, others g (some (k, .op o tail))
        ⟨follows, atRest, fun value impossible => by cases impossible⟩⟩
  | spin l tail =>
      exact ⟨Function.update gs t g, invariant, others g (some (k, .spin l tail))
        ⟨follows, atRest, fun value impossible => by cases impossible⟩⟩

/-- Soundness of the operation which a label performs first. -/
def LabelSound (P : Call -> Protocol M Ghost) (I : C.State -> M.State -> (Thread -> Ghost) -> Prop)
    (pool : Pool M C) (gs : Thread -> Ghost) : PoolLabel Thread Call M.Env -> Prop
  | .call _ _ _ => True
  | .step t env => forall k program o, pool.thread t = some (k, program) ->
      Protocol.head program = some o -> (P k).OpSoundAt (I pool.client) env t o pool.shared gs

/-- Every label keeps the pool invariant, if the operation it performs is sound here. -/
theorem next_sound (discipline : Discipline permits prog P ends idle I) {pool pool' : Pool M C}
    {gs : Thread -> Ghost} {l : PoolLabel Thread Call M.Env} (holds : Holds P ends idle I pool gs)
    (decided : permits l.env) (sound : LabelSound P I pool gs l)
    (stepped : pool.next prog l = .ok pool') :
    Exists fun gs' => Holds P ends idle I pool' gs' := by
  cases l with
  | call t k env =>
      rw [next] at stepped
      cases free : pool.thread t with
      | some entry => rw [free] at stepped; cases stepped
      | none =>
          cases claimed : C.start t k pool.client with
          | none => rw [free, claimed] at stepped; cases stepped
          | some client =>
              rw [free, claimed] at stepped
              cases settled : M.settle env (prog t k) pool.shared with
              | error f => rw [settled] at stepped; cases stepped
              | ok result =>
                  rw [settled] at stepped
                  cases stepped
                  have atIdle : gs t = idle := by
                    have own := holds.threads t
                    rw [free] at own
                    exact own
                  rcases discipline.start k pool.client client pool.shared gs t claimed
                    holds.invariant atIdle with ⟨g, claimedInvariant, follows⟩
                  rcases Protocol.settle_sound
                    (fun o => discipline.silentSound k client env t o decided)
                    (discipline.leaveSound k client t) (prog t k) pool.shared result.1 result.2 _
                    claimedInvariant (by rw [Function.update_self]; exact follows) settled with
                    ⟨g', followsRest, atRest, final⟩
                  rw [Function.update_idem] at final
                  exact land_holds discipline holds.threads followsRest atRest final
  | step t env =>
      rw [next] at stepped
      cases busy : pool.thread t with
      | none => rw [busy] at stepped; cases stepped
      | some entry =>
          rcases entry with ⟨k, program⟩
          rw [busy] at stepped
          simp only at stepped
          have own := holds.threads t
          rw [busy] at own
          cases performed : M.step env program pool.shared with
          | error f => rw [performed] at stepped; cases stepped
          | ok result =>
              rw [performed] at stepped
              cases stepped
              rcases Protocol.step_sound
                (fun o => discipline.silentSound k pool.client env t o decided)
                (discipline.bodySound k pool.client t) (discipline.leaveSound k pool.client t)
                program holds.invariant
                (fun o here => sound k program o busy here)
                own.1 performed with ⟨g, followsRest, atRest, final⟩
              exact land_holds discipline holds.threads followsRest atRest final

/-- A step whose operation establishes the invariant of the pool, which need not
hold beforehand. -/
theorem next_op_sound (discipline : Discipline permits prog P ends idle I) {pool pool' : Pool M C}
    {gs : Thread -> Ghost} {t : Thread} {env : M.Env} {k : Call} {o : M.Op}
    {rest : M.Res o -> M.Program α}
    (threads : forall u, ThreadOk P ends idle (gs u) (pool.thread u)) (decided : permits env)
    (busy : pool.thread t = some (k, .op o rest))
    (sound : (P k).OpSoundAt (I pool.client) env t o pool.shared gs)
    (stepped : pool.next prog (.step t env) = .ok pool') :
    Exists fun gs' => Holds P ends idle I pool' gs' := by
  have own := threads t
  rw [busy] at own
  rw [next, busy] at stepped
  simp only at stepped
  cases performed : M.step env (.op o rest) pool.shared with
  | error fault => rw [performed] at stepped; cases stepped
  | ok result =>
      rw [performed] at stepped
      cases stepped
      rcases Protocol.step_op_sound (fun o => discipline.silentSound k pool.client env t o decided)
        (discipline.leaveSound k pool.client t) sound own.1 performed with
        ⟨g, followsRest, atRest, final⟩
      exact land_holds discipline threads followsRest atRest final

/-- A fact about the shared state alone, kept by every operation and iteration. -/
theorem next_keeps (kept : M.State -> Prop) (allowed : M.Env -> Prop)
    (keeps : forall env, allowed env -> forall o s s' r, kept s -> M.exec o env s = .ok (s', r) ->
      kept s')
    (iterates : forall l s, kept s -> kept (M.body l s).1) {pool pool' : Pool M C}
    {l : PoolLabel Thread Call M.Env} (holds : kept pool.shared) (decided : allowed l.env)
    (stepped : pool.next prog l = .ok pool') : kept pool'.shared := by
  have landed : forall (client : C.State) t k (result : M.State × M.Program α), kept result.1 ->
      kept (pool.land client t k result).shared := by
    rintro client t k ⟨s, rest⟩ keptHere
    cases rest <;> exact keptHere
  cases l with
  | call t k env =>
      rw [next] at stepped
      cases free : pool.thread t with
      | some entry => rw [free] at stepped; cases stepped
      | none =>
          cases claimed : C.start t k pool.client with
          | none => rw [free, claimed] at stepped; cases stepped
          | some client =>
              rw [free, claimed] at stepped
              simp only at stepped
              cases settled : M.settle env (prog t k) pool.shared with
              | error fault => rw [settled] at stepped; cases stepped
              | ok result =>
                  rw [settled] at stepped
                  cases stepped
                  exact landed client t k result
                    (Machine.settle_keeps (keeps env decided) holds settled)
  | step t env =>
      rw [next] at stepped
      cases busy : pool.thread t with
      | none => rw [busy] at stepped; cases stepped
      | some entry =>
          rcases entry with ⟨k, program⟩
          rw [busy] at stepped
          simp only at stepped
          cases performed : M.step env program pool.shared with
          | error fault => rw [performed] at stepped; cases stepped
          | ok result =>
              rw [performed] at stepped
              cases stepped
              exact landed pool.client t k result
                (Machine.step_keeps (keeps env decided) iterates holds performed)

/-- The calls in progress are calls that were started. -/
theorem next_calls {fine : Call -> Prop} {pool pool' : Pool M C} {l : PoolLabel Thread Call M.Env}
    (running : forall t k program, pool.thread t = some (k, program) -> fine k)
    (started : forall t k env, l = .call t k env -> fine k)
    (stepped : pool.next prog l = .ok pool') :
    forall t k program, pool'.thread t = some (k, program) -> fine k := by
  have landed : forall client t k s (rest : M.Program α), fine k ->
      forall u k' program, (pool.land client t k (s, rest)).thread u = some (k', program) ->
          fine k' := by
    intro client t k s rest isFine u k' program busy
    have cases : Function.update pool.thread t none u = some (k', program) ∨
        Function.update pool.thread t (some (k, rest)) u = some (k', program) := by
      cases rest with
      | ret value => exact Or.inl busy
      | op o tail => exact Or.inr busy
      | spin l tail => exact Or.inr busy
    by_cases same : u = t
    · subst same
      rw [Function.update_self, Function.update_self] at cases
      rcases cases with impossible | here
      · cases impossible
      · cases here
        exact isFine
    · rw [Function.update_of_ne same, Function.update_of_ne same, or_self] at cases
      exact running u k' program cases
  cases l with
  | call t k env =>
      rw [next] at stepped
      cases free : pool.thread t with
      | some entry => rw [free] at stepped; cases stepped
      | none =>
          cases claimed : C.start t k pool.client with
          | none => rw [free, claimed] at stepped; cases stepped
          | some client =>
              rw [free, claimed] at stepped
              simp only at stepped
              cases settled : M.settle env (prog t k) pool.shared with
              | error fault => rw [settled] at stepped; cases stepped
              | ok result =>
                  rw [settled] at stepped
                  cases stepped
                  exact landed client t k result.1 result.2 (started t k env rfl)
  | step t env =>
      rw [next] at stepped
      cases busy : pool.thread t with
      | none => rw [busy] at stepped; cases stepped
      | some entry =>
          rcases entry with ⟨k, program⟩
          rw [busy] at stepped
          simp only at stepped
          cases performed : M.step env program pool.shared with
          | error fault => rw [performed] at stepped; cases stepped
          | ok result =>
              rw [performed] at stepped
              cases stepped
              exact landed pool.client t k result.1 result.2 (running t k program busy)

/-! ## Faults -/

variable {allowed : M.Fault -> Prop}

/-- Safety of the operation which a label performs first. -/
def LabelSafe (P : Call -> Protocol M Ghost) (allowed : M.Fault -> Prop) (pool : Pool M C)
    (gs : Thread -> Ghost) : PoolLabel Thread Call M.Env -> Prop
  | .call _ _ _ => True
  | .step t env => forall k program o, pool.thread t = some (k, program) ->
      Protocol.head program = some o -> (P k).OpSafeAt allowed env t o pool.shared gs

/-- A label fails in the allowed ways only. -/
theorem next_safe (discipline : Discipline permits prog P ends idle I)
    (silentSafe : forall k client env (t : Thread) o, M.silent o = true -> forall s gs,
      I client s gs -> (P k).OpSafeAt allowed env t o s gs)
    {pool : Pool M C} {gs : Thread -> Ghost} {l : PoolLabel Thread Call M.Env} {fault : M.Fault}
    (holds : Holds P ends idle I pool gs) (decided : permits l.env)
    (sound : LabelSound P I pool gs l)
    (safe : LabelSafe P allowed pool gs l) (stepped : pool.next prog l = .error (.fault fault)) :
    allowed fault := by
  cases l with
  | call t k env =>
      rw [next] at stepped
      cases free : pool.thread t with
      | some entry => rw [free] at stepped; cases stepped
      | none =>
          cases claimed : C.start t k pool.client with
          | none => rw [free, claimed] at stepped; cases stepped
          | some client =>
              rw [free, claimed] at stepped
              cases settled : M.settle env (prog t k) pool.shared with
              | ok result => rw [settled] at stepped; cases stepped
              | error reason =>
                  rw [settled] at stepped
                  cases stepped
                  have atIdle : gs t = idle := by
                    have own := holds.threads t
                    rw [free] at own
                    exact own
                  rcases discipline.start k pool.client client pool.shared gs t claimed
                    holds.invariant atIdle with ⟨g, claimedInvariant, follows⟩
                  exact Protocol.settle_safe
                    (fun o => discipline.silentSound k client env t o decided)
                    (fun o quiet => silentSafe k client env t o quiet)
                    (discipline.leaveSound k client t)
                    (prog t k) pool.shared _ fault claimedInvariant
                    (by rw [Function.update_self]; exact follows) settled
  | step t env =>
      rw [next] at stepped
      cases busy : pool.thread t with
      | none => rw [busy] at stepped; cases stepped
      | some entry =>
          rcases entry with ⟨k, program⟩
          rw [busy] at stepped
          simp only at stepped
          have own := holds.threads t
          rw [busy] at own
          cases performed : M.step env program pool.shared with
          | ok result => rw [performed] at stepped; cases stepped
          | error reason =>
              rw [performed] at stepped
              cases stepped
              exact Protocol.step_safe
                (fun o => discipline.silentSound k pool.client env t o decided)
                (fun o quiet => silentSafe k pool.client env t o quiet)
                (discipline.bodySound k pool.client t)
                (discipline.leaveSound k pool.client t) program
                holds.invariant (fun o here => sound k program o busy here)
                (fun o here => safe k program o busy here) own.1 performed

end Pool
end Foundation
end OsslScripts
