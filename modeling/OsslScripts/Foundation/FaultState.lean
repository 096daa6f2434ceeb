import Mathlib.Data.List.Basic

namespace OsslScripts
namespace Foundation

/-!
# Programs that change a state and may stop

`Runs m s value s'` says that the program `m` returns in the state `s`, what it
returns, and the state that it leaves.  A larger store runs a program on one of its
parts with `focus`.
-/

variable {σ τ ε ε' α β : Type}

/-- The program returns this value and this state. -/
def Runs (m : StateT σ (Except ε) α) (s : σ) (value : α) (s' : σ) : Prop := m s = .ok (value, s')

/-- The program stops. -/
def Stops (m : StateT σ (Except ε) α) (s : σ) (stop : ε) : Prop := m s = .error stop

section Rules

variable {m : StateT σ (Except ε) α} {next : α -> StateT σ (Except ε) β} {s s' s'' : σ} {value : α}
  {result : β}
  {stop : ε}

theorem runs_pure (value : α) (s : σ) : Runs (pure value : StateT σ (Except ε) α) s value s := rfl

theorem Runs.bind (first : Runs m s value s') (onward : Runs (next value) s' result s'') :
    Runs (m >>= next) s result s'' := by
  rw [Runs] at first onward ⊢
  change Except.bind (m s) (fun both => next both.1 both.2) = _
  rw [first]
  exact onward

theorem Runs.then_stops (first : Runs m s value s') (onward : Stops (next value) s' stop) :
    Stops (m >>= next) s stop := by
  rw [Runs] at first
  rw [Stops] at onward ⊢
  change Except.bind (m s) (fun both => next both.1 both.2) = _
  rw [first]
  exact onward

theorem Stops.bind (stops : Stops m s stop) : Stops (m >>= next) s stop := by
  rw [Stops] at stops ⊢
  change Except.bind (m s) (fun both => next both.1 both.2) = _
  rw [stops]
  rfl

theorem runs_map (f : α -> β) (ran : Runs m s value s') : Runs (f <$> m) s (f value) s' := by
  rw [Runs] at ran ⊢
  change Except.bind (m s) (fun both => .ok (f both.1, both.2)) = _
  rw [ran]
  rfl

theorem runs_get (s : σ) : Runs (get : StateT σ (Except ε) σ) s s s := rfl

theorem runs_modify (change : σ -> σ) (s : σ) :
    Runs (modify change : StateT σ (Except ε) PUnit) s () (change s) := rfl

end Rules

/-- Run a program on a part of a larger store. -/
def focus (part : τ -> σ) (put : τ -> σ -> τ) (wrap : ε -> ε') (m : StateT σ (Except ε) α) :
    StateT τ (Except ε') α := fun store =>
  match m (part store) with
  | .ok both => .ok (both.1, put store both.2)
  | .error stop => .error (wrap stop)

theorem runs_focus {part : τ -> σ} {put : τ -> σ -> τ} {wrap : ε -> ε'} {m : StateT σ (Except ε) α}
    {store : τ}
    {value : α} {s' : σ} (ran : Runs m (part store) value s') :
    Runs (focus part put wrap m) store value (put store s') := by
  rw [Runs] at ran ⊢
  rw [focus, ran]

theorem stops_focus {part : τ -> σ} {put : τ -> σ -> τ} {wrap : ε -> ε'} {m : StateT σ (Except ε) α}
    {store : τ}
    {stop : ε} (stops : Stops m (part store) stop) :
    Stops (focus part put wrap m) store (wrap stop) := by
  rw [Stops] at stops ⊢
  rw [focus, stops]

end Foundation
end OsslScripts
