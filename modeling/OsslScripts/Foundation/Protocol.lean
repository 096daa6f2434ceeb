import OsslScripts.Foundation.Program

namespace OsslScripts
namespace Foundation

/-!
# Protocols for interleaved programs

A protocol gives every thread a private ghost value and says which operations
the thread may perform while it holds that value, and which value it holds
afterwards.  That a program follows its protocol is a property of the program
text alone, by recursion on the tree.  That a protocol is safe is a property of
its operations alone: each of them keeps an invariant of the shared state and
of all ghost values.  `step_sound` puts the two together for one scheduled step
of one thread, while the other threads keep their ghost values.
-/

/-- The discipline of one thread. -/
structure Protocol (M : Machine) (Ghost : Type) where
  /-- The operation may be performed under this ghost value. -/
  may : Ghost -> M.Op -> Prop
  /-- What the thread may rely on about the operation's result. -/
  fits : Ghost -> (o : M.Op) -> M.Res o -> Prop
  /-- The ghost value after the operation. -/
  after : Ghost -> (o : M.Op) -> M.Res o -> Ghost
  /-- The loop invariant, on the loop's local variables. -/
  loops : Ghost -> M.Loop -> Prop
  /-- The ghost value after leaving a loop. -/
  leave : Ghost -> Ghost

namespace Protocol

variable {M : Machine} {Ghost α β : Type} {Thread : Type} [DecidableEq Thread]

/-- The program keeps to the protocol, whatever the results it is handed, and
ends with a ghost value and a result that are related by `ends`. -/
def Follows (P : Protocol M Ghost) (ends : Ghost -> α -> Prop) : M.Program α -> Ghost -> Prop
  | .ret value, g => ends g value
  | .op o next, g => P.may g o ∧ forall r, P.fits g o r -> Follows P ends (next r) (P.after g o r)
  | .spin l next, g => P.loops g l ∧ Follows P ends next (P.leave g)

/-- The rule for sequencing. -/
theorem Follows.bind {P : Protocol M Ghost} {middle : Ghost -> α -> Prop}
    {ends : Ghost -> β -> Prop}
    {program : M.Program α} {rest : α -> M.Program β} {g : Ghost}
    (first : P.Follows middle program g)
    (second : forall g' value, middle g' value -> P.Follows ends (rest value) g') :
    P.Follows ends (program.bind rest) g := by
  induction program generalizing g with
  | ret value => exact second g value first
  | op o next inductionHypothesis =>
      exact ⟨first.1, fun r fits => inductionHypothesis r (first.2 r fits)⟩
  | spin l next inductionHypothesis => exact ⟨first.1, inductionHypothesis first.2⟩

/-- The rule of consequence. -/
theorem Follows.weaken {P : Protocol M Ghost} {ends ends' : Ghost -> α -> Prop}
    {program : M.Program α} {g : Ghost} (follows : P.Follows ends program g)
    (weaker : forall g' value, ends g' value -> ends' g' value) : P.Follows ends' program g := by
  induction program generalizing g with
  | ret value => exact weaker g value follows
  | op o next inductionHypothesis =>
      exact ⟨follows.1, fun r fits => inductionHypothesis r (follows.2 r fits)⟩
  | spin l next inductionHypothesis => exact ⟨follows.1, inductionHypothesis follows.2⟩

/-- The program has come to rest: no silent operation and no loop exit is due. -/
def Settled : M.Program α -> Prop
  | .ret _ => True
  | .op o _ => M.silent o = false
  | .spin l _ => M.again l = true

/-- From this state, one operation of thread `t` establishes the invariant
again and tells the truth about its result. -/
def OpSoundAt (P : Protocol M Ghost) (I : M.State -> (Thread -> Ghost) -> Prop)
    (env : M.Env) (t : Thread) (o : M.Op) (s : M.State) (gs : Thread -> Ghost) : Prop :=
  forall s' r, P.may (gs t) o -> M.exec o env s = .ok (s', r) ->
    P.fits (gs t) o r ∧ I s' (Function.update gs t (P.after (gs t) o r))

/-- The operation is sound wherever the invariant holds. -/
def OpSound (P : Protocol M Ghost) (I : M.State -> (Thread -> Ghost) -> Prop)
    (env : M.Env) (t : Thread) (o : M.Op) : Prop :=
  forall s gs, I s gs -> P.OpSoundAt I env t o s gs

/-- Loop iterations keep the invariant and the loop invariant. -/
def BodySound (P : Protocol M Ghost) (I : M.State -> (Thread -> Ghost) -> Prop)
    (t : Thread) : Prop :=
  forall s gs l, I s gs -> P.loops (gs t) l -> M.again l = true ->
    I (M.body l s).1 gs ∧ P.loops (gs t) (M.body l s).2

/-- Leaving a loop keeps the invariant. -/
def LeaveSound (P : Protocol M Ghost) (I : M.State -> (Thread -> Ghost) -> Prop)
    (t : Thread) : Prop :=
  forall s gs l, I s gs -> P.loops (gs t) l -> M.again l = false ->
    I s (Function.update gs t (P.leave (gs t)))

variable {P : Protocol M Ghost} {I : M.State -> (Thread -> Ghost) -> Prop}
  {ends : Ghost -> α -> Prop} {env : M.Env} {t : Thread}

/-- Settling follows the program text through its silent operations. -/
theorem settle_sound (silentSound : forall o, M.silent o = true -> P.OpSound I env t o)
    (leaveSound : P.LeaveSound I t) (program : M.Program α) :
    forall s s' rest gs, I s gs -> P.Follows ends program (gs t) ->
      M.settle env program s = .ok (s', rest) ->
      Exists fun g => P.Follows ends rest g ∧ Settled rest ∧ I s' (Function.update gs t g) := by
  induction program with
  | ret value =>
      intro s s' rest gs invariant follows settled
      cases settled
      exact ⟨gs t, follows, trivial, by rwa [Function.update_eq_self]⟩
  | op o next inductionHypothesis =>
      intro s s' rest gs invariant follows settled
      rw [Machine.settle] at settled
      cases quiet : M.silent o with
      | false =>
          rw [quiet] at settled
          cases settled
          exact ⟨gs t, follows, quiet, by rwa [Function.update_eq_self]⟩
      | true =>
          rw [quiet] at settled
          simp only [if_true] at settled
          cases executed : M.exec o env s with
          | error fault => rw [executed] at settled; cases settled
          | ok result =>
              rw [executed] at settled
              have kept := silentSound o quiet s gs invariant result.1 result.2 follows.1 executed
              have onward := follows.2 result.2 kept.1
              rcases inductionHypothesis result.2 result.1 s' rest
                (Function.update gs t (P.after (gs t) o result.2)) kept.2
                (by rwa [Function.update_self]) settled with ⟨g, followsRest, atRest, final⟩
              rw [Function.update_idem] at final
              exact ⟨g, followsRest, atRest, final⟩
  | spin l next inductionHypothesis =>
      intro s s' rest gs invariant follows settled
      rw [Machine.settle] at settled
      cases test : M.again l with
      | true =>
          rw [test] at settled
          cases settled
          exact ⟨gs t, follows, test, by rwa [Function.update_eq_self]⟩
      | false =>
          rw [test] at settled
          have kept := leaveSound s gs l invariant follows.1 test
          rcases inductionHypothesis s s' rest (Function.update gs t (P.leave (gs t))) kept
            (by rw [Function.update_self]; exact follows.2) settled with
            ⟨g, followsRest, atRest, final⟩
          rw [Function.update_idem] at final
          exact ⟨g, followsRest, atRest, final⟩

/-- The operation a program performs next, if it is not in a loop. -/
def head : M.Program α -> Option M.Op
  | .ret _ => none
  | .op o _ => some o
  | .spin _ _ => none

/-- One scheduled step whose operation establishes the invariant.  The invariant
is not asked for beforehand, so it may speak of what the operation has done. -/
theorem step_op_sound (silentSound : forall o, M.silent o = true -> P.OpSound I env t o)
    (leaveSound : P.LeaveSound I t) {o : M.Op} {next : M.Res o -> M.Program α}
    {s s' : M.State} {rest : M.Program α} {gs : Thread -> Ghost}
    (sound : P.OpSoundAt I env t o s gs)
    (follows : P.Follows ends (.op o next) (gs t))
    (stepped : M.step env (.op o next) s = .ok (s', rest)) :
    Exists fun g => P.Follows ends rest g ∧ Settled rest ∧ I s' (Function.update gs t g) := by
  simp only [Machine.step] at stepped
  cases executed : M.exec o env s with
  | error fault => rw [executed] at stepped; cases stepped
  | ok result =>
      rw [executed] at stepped
      have kept := sound result.1 result.2 follows.1 executed
      rcases settle_sound silentSound leaveSound (next result.2) result.1 s' rest
        (Function.update gs t (P.after (gs t) o result.2)) kept.2
        (by rw [Function.update_self]; exact follows.2 result.2 kept.1) stepped with
        ⟨g, followsRest, atRest, final⟩
      rw [Function.update_idem] at final
      exact ⟨g, followsRest, atRest, final⟩

/-- One scheduled step of a program which follows its protocol.  Soundness of
the operation at its head is asked for this state alone, so that a condition on
the schedule can enter there. -/
theorem step_sound (silentSound : forall o, M.silent o = true -> P.OpSound I env t o)
    (bodySound : P.BodySound I t) (leaveSound : P.LeaveSound I t) (program : M.Program α)
    {s s' : M.State} {rest : M.Program α} {gs : Thread -> Ghost} (invariant : I s gs)
    (headSound : forall o, head program = some o -> P.OpSoundAt I env t o s gs)
    (follows : P.Follows ends program (gs t)) (stepped : M.step env program s = .ok (s', rest)) :
    Exists fun g => P.Follows ends rest g ∧ Settled rest ∧ I s' (Function.update gs t g) := by
  cases program with
  | ret value =>
      cases stepped
      exact ⟨gs t, follows, trivial, by rwa [Function.update_eq_self]⟩
  | op o next => exact step_op_sound silentSound leaveSound (headSound o rfl) follows stepped
  | spin l next =>
      simp only [Machine.step] at stepped
      cases test : M.again l with
      | false =>
          rw [test] at stepped
          have kept := leaveSound s gs l invariant follows.1 test
          rcases settle_sound silentSound leaveSound next s s' rest
            (Function.update gs t (P.leave (gs t))) kept
            (by rw [Function.update_self]; exact follows.2) stepped with
            ⟨g, followsRest, atRest, final⟩
          rw [Function.update_idem] at final
          exact ⟨g, followsRest, atRest, final⟩
      | true =>
          rw [test] at stepped
          have kept := bodySound s gs l invariant follows.1 test
          exact settle_sound silentSound leaveSound (.spin (M.body l s).2 next) (M.body l s).1
            s' rest gs kept.1 ⟨kept.2, follows.2⟩ stepped

/-! ## Two protocols side by side -/

/-- Keep to two protocols at once. -/
def prod {Ghost' : Type} (P : Protocol M Ghost) (Q : Protocol M Ghost') :
    Protocol M (Ghost × Ghost') where
  may := fun g o => P.may g.1 o ∧ Q.may g.2 o
  fits := fun g o r => P.fits g.1 o r ∧ Q.fits g.2 o r
  after := fun g o r => (P.after g.1 o r, Q.after g.2 o r)
  loops := fun g l => P.loops g.1 l ∧ Q.loops g.2 l
  leave := fun g => (P.leave g.1, Q.leave g.2)

theorem Follows.prod {Ghost' : Type} {Q : Protocol M Ghost'} {ends' : Ghost' -> α -> Prop}
    {program : M.Program α} {g : Ghost} {g' : Ghost'} (first : P.Follows ends program g)
    (second : Q.Follows ends' program g') :
    (P.prod Q).Follows (fun both value => ends both.1 value ∧ ends' both.2 value) program
      (g, g') := by
  induction program generalizing g g' with
  | ret value => exact ⟨first, second⟩
  | op o next inductionHypothesis =>
      exact ⟨⟨first.1, second.1⟩, fun r fits =>
        inductionHypothesis r (first.2 r fits.1) (second.2 r fits.2)⟩
  | spin l next inductionHypothesis =>
      exact ⟨⟨first.1, second.1⟩, inductionHypothesis first.2 second.2⟩

/-- The first ghost values after one thread has changed its pair. -/
theorem update_fst {Ghost' : Type} (gs : Thread -> Ghost × Ghost') (t : Thread)
    (g : Ghost × Ghost') :
    (fun u => (Function.update gs t g u).1) = Function.update (fun u => (gs u).1) t g.1 := by
  funext u
  exact Function.apply_update (fun _ both => both.1) gs t g u

theorem update_snd {Ghost' : Type} (gs : Thread -> Ghost × Ghost') (t : Thread)
    (g : Ghost × Ghost') :
    (fun u => (Function.update gs t g u).2) = Function.update (fun u => (gs u).2) t g.2 := by
  funext u
  exact Function.apply_update (fun _ both => both.2) gs t g u

/-! ## Faults -/

/-- From this state, one operation of thread `t` fails in the allowed ways only. -/
def OpSafeAt (P : Protocol M Ghost) (allowed : M.Fault -> Prop) (env : M.Env) (t : Thread)
    (o : M.Op) (s : M.State) (gs : Thread -> Ghost) : Prop :=
  forall fault, P.may (gs t) o -> M.exec o env s = .error fault -> allowed fault

variable {allowed : M.Fault -> Prop}

/-- Settling fails in the allowed ways only. -/
theorem settle_safe (silentSound : forall o, M.silent o = true -> P.OpSound I env t o)
    (silentSafe : forall o, M.silent o = true -> forall s gs, I s gs ->
      P.OpSafeAt allowed env t o s gs)
    (leaveSound : P.LeaveSound I t) (program : M.Program α) :
    forall s gs fault, I s gs -> P.Follows ends program (gs t) ->
      M.settle env program s = .error fault -> allowed fault := by
  induction program with
  | ret value =>
      intro s gs fault invariant follows settled
      cases settled
  | op o next inductionHypothesis =>
      intro s gs fault invariant follows settled
      rw [Machine.settle] at settled
      cases quiet : M.silent o with
      | false => rw [quiet] at settled; cases settled
      | true =>
          rw [quiet] at settled
          simp only [if_true] at settled
          cases executed : M.exec o env s with
          | error reason =>
              rw [executed] at settled
              cases settled
              exact silentSafe o quiet s gs invariant fault follows.1 executed
          | ok result =>
              rw [executed] at settled
              have kept := silentSound o quiet s gs invariant result.1 result.2 follows.1 executed
              exact inductionHypothesis result.2 result.1 _ fault kept.2
                (by rw [Function.update_self]; exact follows.2 result.2 kept.1) settled
  | spin l next inductionHypothesis =>
      intro s gs fault invariant follows settled
      rw [Machine.settle] at settled
      cases test : M.again l with
      | true => rw [test] at settled; cases settled
      | false =>
          rw [test] at settled
          exact inductionHypothesis s _ fault (leaveSound s gs l invariant follows.1 test)
            (by rw [Function.update_self]; exact follows.2) settled

/-- One scheduled step fails in the allowed ways only. -/
theorem step_safe (silentSound : forall o, M.silent o = true -> P.OpSound I env t o)
    (silentSafe : forall o, M.silent o = true -> forall s gs, I s gs ->
      P.OpSafeAt allowed env t o s gs)
    (bodySound : P.BodySound I t) (leaveSound : P.LeaveSound I t) (program : M.Program α)
    {s : M.State} {gs : Thread -> Ghost} {fault : M.Fault} (invariant : I s gs)
    (headSound : forall o, head program = some o -> P.OpSoundAt I env t o s gs)
    (headSafe : forall o, head program = some o -> P.OpSafeAt allowed env t o s gs)
    (follows : P.Follows ends program (gs t)) (stepped : M.step env program s = .error fault) :
    allowed fault := by
  cases program with
  | ret value => cases stepped
  | op o next =>
      simp only [Machine.step] at stepped
      cases executed : M.exec o env s with
      | error reason =>
          rw [executed] at stepped
          cases stepped
          exact headSafe o rfl fault follows.1 executed
      | ok result =>
          rw [executed] at stepped
          have kept := headSound o rfl result.1 result.2 follows.1 executed
          exact settle_safe silentSound silentSafe leaveSound (next result.2) result.1
            _ fault kept.2
            (by rw [Function.update_self]; exact follows.2 result.2 kept.1) stepped
  | spin l next =>
      simp only [Machine.step] at stepped
      cases test : M.again l with
      | false =>
          rw [test] at stepped
          exact settle_safe silentSound silentSafe leaveSound next s _ fault
            (leaveSound s gs l invariant follows.1 test)
            (by rw [Function.update_self]; exact follows.2) stepped
      | true =>
          rw [test] at stepped
          have kept := bodySound s gs l invariant follows.1 test
          exact settle_safe silentSound silentSafe leaveSound (.spin (M.body l s).2 next)
            (M.body l s).1 gs fault kept.1 ⟨kept.2, follows.2⟩ stepped

/-! ## Programs that a protocol does not look at -/

/-- The program performs operations of one kind only. -/
def Uses (kind : M.Op -> Prop) : M.Program α -> Prop
  | .ret _ => True
  | .op o next => kind o ∧ forall r, Uses kind (next r)
  | .spin _ next => Uses kind next

theorem Uses.bind {kind : M.Op -> Prop} {program : M.Program α} {rest : α -> M.Program β}
    (first : Uses kind program) (second : forall value, Uses kind (rest value)) :
    Uses kind (program.bind rest) := by
  induction program with
  | ret value => exact second value
  | op o next inductionHypothesis => exact ⟨first.1, fun r => inductionHypothesis r (first.2 r)⟩
  | spin l next inductionHypothesis => exact inductionHypothesis first

/-- Operations that may always be performed and change no ghost value do not
matter, and neither do loops without an invariant. -/
theorem Follows.of_neutral {kind : M.Op -> Prop} (g : Ghost)
    (may : forall o, kind o -> P.may g o) (after : forall o r, kind o -> P.after g o r = g)
    (loops : forall l, P.loops g l) (leave : P.leave g = g) {program : M.Program α}
    (uses : Uses kind program) : P.Follows (fun g' _ => g' = g) program g := by
  induction program with
  | ret value => rfl
  | op o next inductionHypothesis =>
      refine ⟨may o uses.1, fun r _ => ?_⟩
      rw [after o r uses.1]
      exact inductionHypothesis r (uses.2 r)
  | spin l next inductionHypothesis =>
      refine ⟨loops l, ?_⟩
      rw [leave]
      exact inductionHypothesis uses

end Protocol
end Foundation
end OsslScripts
