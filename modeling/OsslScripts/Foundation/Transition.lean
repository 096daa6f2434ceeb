namespace OsslScripts
namespace Foundation

/-!
# Runs of a deterministic labelled system

A system is a partial step function: the label carries every choice of the
scheduler and of the environment.  A run is the fold of its labels.  The
invariant rule, its version for runs whose steps meet a side condition, and
the rule for a state that no step can repair are stated once here.  A history
variable is added from outside, so that the step function itself stays the
one that the modelled code determines.
-/

variable {State Label Stop : Type}

/-- Execute the labels one after the other. -/
def exec (next : State -> Label -> Except Stop State) : State -> List Label -> Except Stop State
  | s, [] => .ok s
  | s, l :: ls =>
      match next s l with
      | .ok s' => exec next s' ls
      | .error stop => .error stop

/-- Every step that the labels take meets the condition in the state before it. -/
def Meets (next : State -> Label -> Except Stop State) (condition : State -> Label -> Prop) :
    State -> List Label -> Prop
  | _, [] => True
  | s, l :: ls =>
      condition s l ∧ forall s', next s l = .ok s' -> Meets next condition s' ls

/-- A condition on the labels alone. -/
theorem meets_of_forall {next : State -> Label -> Except Stop State} {fine : Label -> Prop}
    {s : State}
    {ls : List Label} (all : forall l, l ∈ ls -> fine l) : Meets next (fun _ l => fine l) s ls := by
  induction ls generalizing s with
  | nil => trivial
  | cons l ls inductionHypothesis =>
      exact ⟨all l List.mem_cons_self,
        fun s' _ =>
          inductionHypothesis (fun other member => all other (List.mem_cons_of_mem l member))⟩

/-- The executable test of `Meets`. -/
def meetsCheck (next : State -> Label -> Except Stop State) (condition : State -> Label -> Prop)
    [forall s l, Decidable (condition s l)] : State -> List Label -> Bool
  | _, [] => true
  | s, l :: ls =>
      decide (condition s l) &&
        match next s l with
        | .ok s' => meetsCheck next condition s' ls
        | .error _ => true

variable {next : State -> Label -> Except Stop State} {condition : State -> Label -> Prop}

theorem meets_of_check [forall s l, Decidable (condition s l)] {s : State} {ls : List Label}
    (checked : meetsCheck next condition s ls = true) : Meets next condition s ls := by
  induction ls generalizing s with
  | nil => trivial
  | cons l ls inductionHypothesis =>
      rw [meetsCheck, Bool.and_eq_true, decide_eq_true_eq] at checked
      refine ⟨checked.1, fun s' stepped => ?_⟩
      have rest := checked.2
      rw [stepped] at rest
      exact inductionHypothesis rest

/-- The executable test that a run ends in a state with a property. -/
def reachesCheck (next : State -> Label -> Except Stop State) (property : State -> Prop)
    [DecidablePred property] (s : State) (ls : List Label) : Bool :=
  match exec next s ls with
  | .ok s' => decide (property s')
  | .error _ => false

theorem reaches_of_check {property : State -> Prop} [DecidablePred property] {s : State}
    {ls : List Label} (checked : reachesCheck next property s ls = true) :
    Exists fun s' => exec next s ls = .ok s' ∧ property s' := by
  unfold reachesCheck at checked
  cases executed : exec next s ls with
  | error stop => rw [executed] at checked; cases checked
  | ok s' => rw [executed] at checked; exact ⟨s', rfl, of_decide_eq_true checked⟩

theorem exec_cons_ok {s s'' : State} {l : Label} {ls : List Label}
    (executed : exec next s (l :: ls) = .ok s'') :
    Exists fun s' => next s l = .ok s' ∧ exec next s' ls = .ok s'' := by
  rw [exec] at executed
  cases stepped : next s l with
  | error stop => rw [stepped] at executed; cases executed
  | ok s' => rw [stepped] at executed; exact ⟨s', rfl, executed⟩

theorem exec_append (s : State) (first second : List Label) :
    exec next s (first ++ second) =
      match exec next s first with
      | .ok s' => exec next s' second
      | .error stop => .error stop := by
  induction first generalizing s with
  | nil => rfl
  | cons l ls inductionHypothesis =>
      rw [List.cons_append, exec, exec]
      cases next s l with
      | error stop => rfl
      | ok s' => exact inductionHypothesis s'

/-- The invariant rule: what each permitted step keeps, each such run keeps. -/
theorem exec_invariant (invariant : State -> Prop)
    (kept : forall s l s', invariant s -> condition s l -> next s l = .ok s' -> invariant s')
    {s s' : State} {ls : List Label} (holds : invariant s) (meets : Meets next condition s ls)
    (executed : exec next s ls = .ok s') : invariant s' := by
  induction ls generalizing s with
  | nil => cases executed; exact holds
  | cons l ls inductionHypothesis =>
      rcases exec_cons_ok executed with ⟨middle, stepped, rest⟩
      exact inductionHypothesis (kept s l middle holds meets.1 stepped)
        (meets.2 middle stepped) rest

/-- The invariant rule for runs without a side condition. -/
theorem exec_invariant_all (invariant : State -> Prop)
    (kept : forall s l s', invariant s -> next s l = .ok s' -> invariant s')
    {s s' : State} {ls : List Label} (holds : invariant s)
    (executed : exec next s ls = .ok s') : invariant s' := by
  induction ls generalizing s with
  | nil => cases executed; exact holds
  | cons l ls inductionHypothesis =>
      rcases exec_cons_ok executed with ⟨middle, stepped, rest⟩
      exact inductionHypothesis (kept s l middle holds stepped) rest

/-- Two conditions on the steps of a run. -/
theorem Meets.and {other : State -> Label -> Prop} {s : State} {ls : List Label}
    (first : Meets next condition s ls) (second : Meets next other s ls) :
    Meets next (fun s l => condition s l ∧ other s l) s ls := by
  induction ls generalizing s with
  | nil => trivial
  | cons l ls inductionHypothesis =>
      exact ⟨⟨first.1, second.1⟩, fun s' stepped =>
        inductionHypothesis (first.2 s' stepped) (second.2 s' stepped)⟩

/-- A condition on the steps of two runs, the second one after the first one. -/
theorem meets_append {s : State} {first second : List Label} :
    Meets next condition s (first ++ second) ↔
      Meets next condition s first ∧
        forall s', exec next s first = .ok s' -> Meets next condition s' second := by
  induction first generalizing s with
  | nil =>
      constructor
      · exact fun meets => ⟨trivial, fun s' same => Except.ok.inj same ▸ meets⟩
      · exact fun parts => parts.2 s rfl
  | cons l ls inductionHypothesis =>
      rw [List.cons_append, Meets, Meets]
      constructor
      · rintro ⟨met, rest⟩
        refine ⟨⟨met, fun s' stepped => (inductionHypothesis.mp (rest s' stepped)).1⟩,
          fun s' executed => ?_⟩
        rcases exec_cons_ok executed with ⟨middle, stepped, onward⟩
        exact (inductionHypothesis.mp (rest middle stepped)).2 s' onward
      · rintro ⟨⟨met, rest⟩, onward⟩
        refine ⟨met, fun s' stepped =>
          inductionHypothesis.mpr ⟨rest s' stepped, fun s'' executed => ?_⟩⟩
        apply onward s''
        rw [exec, stepped]
        exact executed

/-- If each step is taken exactly under the condition, then so is the whole run.
The invariant may speak of the labels that are left. -/
theorem exec_ok_iff (invariant : State -> List Label -> Prop)
    (steps : forall s l ls, invariant s (l :: ls) ->
      ((Exists fun s' => next s l = .ok s') ↔ condition s l) ∧
        forall s', next s l = .ok s' -> invariant s' ls)
    {s : State} {ls : List Label} (holds : invariant s ls) :
    (Exists fun s' => exec next s ls = .ok s') ↔ Meets next condition s ls := by
  induction ls generalizing s with
  | nil => exact ⟨fun _ => trivial, fun _ => ⟨s, rfl⟩⟩
  | cons l ls inductionHypothesis =>
      have here := steps s l ls holds
      constructor
      · rintro ⟨final, executed⟩
        rcases exec_cons_ok executed with ⟨middle, stepped, rest⟩
        refine ⟨here.1.mp ⟨middle, stepped⟩, fun s' same => ?_⟩
        rw [stepped] at same
        cases same
        exact (inductionHypothesis (here.2 middle stepped)).mp ⟨final, rest⟩
      · rintro ⟨met, onward⟩
        rcases here.1.mpr met with ⟨middle, stepped⟩
        rcases (inductionHypothesis (here.2 middle stepped)).mpr (onward middle stepped) with
          ⟨final, rest⟩
        exact ⟨final, by rw [exec, stepped]; exact rest⟩

/-- A run stops as one of its steps does, in a state of the invariant.  The invariant may
speak of the labels that are left. -/
theorem exec_stops (invariant : State -> List Label -> Prop) (allowed : Stop -> Prop)
    (kept : forall s l ls s', invariant s (l :: ls) -> next s l = .ok s' -> invariant s' ls)
    (stops : forall s l ls stop, invariant s (l :: ls) -> next s l = .error stop -> allowed stop)
    {s : State} {ls : List Label} {stop : Stop} (holds : invariant s ls)
    (stopped : exec next s ls = .error stop) : allowed stop := by
  induction ls generalizing s with
  | nil => cases stopped
  | cons l ls inductionHypothesis =>
      rw [exec] at stopped
      cases stepped : next s l with
      | error reason =>
          rw [stepped] at stopped
          cases stopped
          exact stops s l ls stop holds stepped
      | ok middle =>
          rw [stepped] at stopped
          exact inductionHypothesis (kept s l ls middle holds stepped) stopped

/-- A run whose steps meet the condition stops as one of them does. -/
theorem exec_stops_of_meets (invariant : State -> Prop) (allowed : Stop -> Prop)
    (kept : forall s l s', invariant s -> condition s l -> next s l = .ok s' -> invariant s')
    (stops : forall s l stop, invariant s -> condition s l -> next s l = .error stop ->
      allowed stop)
    {s : State} {ls : List Label} {stop : Stop} (holds : invariant s)
    (meets : Meets next condition s ls)
    (stopped : exec next s ls = .error stop) : allowed stop := by
  refine exec_stops (fun s ls => invariant s ∧ Meets next condition s ls) allowed ?_ ?_
    ⟨holds, meets⟩ stopped
  · rintro s l ls s' ⟨here, met⟩ stepped
    exact ⟨kept s l s' here met.1 stepped, met.2 s' stepped⟩
  · rintro s l ls stop ⟨here, met⟩ failed
    exact stops s l stop here met.1 failed

/-- A stop that no permitted step reaches from the invariant is never reached. -/
theorem exec_never (invariant : State -> Prop) (stop : Stop)
    (kept : forall s l s', invariant s -> condition s l -> next s l = .ok s' -> invariant s')
    (avoided : forall s l, invariant s -> condition s l -> next s l ≠ .error stop)
    {s : State} {ls : List Label} (holds : invariant s) (meets : Meets next condition s ls) :
    exec next s ls ≠ .error stop := by
  intro stopped
  refine exec_stops_of_meets invariant (fun reason => reason ≠ stop) kept ?_ holds meets stopped rfl
  rintro s l reason here met failed rfl
  exact avoided s l here met failed

/-- If each step of a system has a counterpart in another one, then so has each run. -/
theorem exec_simulates {State' Label' Stop' : Type}
    {next' : State' -> Label' -> Except Stop' State'}
    (translate : Label -> Label') (relation : State -> State' -> List Label -> Prop)
    (follows : forall s t l ls s', relation s t (l :: ls) -> next s l = .ok s' ->
      Exists fun t' => next' t (translate l) = .ok t' ∧ relation s' t' ls)
    {s s' : State} {t : State'} {ls : List Label} (related : relation s t ls)
    (executed : exec next s ls = .ok s') :
    Exists fun t' => exec next' t (ls.map translate) = .ok t' ∧ relation s' t' [] := by
  induction ls generalizing s t with
  | nil =>
      cases executed
      exact ⟨t, rfl, related⟩
  | cons l ls inductionHypothesis =>
      rcases exec_cons_ok executed with ⟨middle, stepped, rest⟩
      rcases follows s t l ls middle related stepped with ⟨middle', stepped', onward⟩
      rcases inductionHypothesis onward rest with ⟨t', executed', final⟩
      refine ⟨t', ?_, final⟩
      rw [List.map_cons, exec, stepped']
      exact executed'

/-! ## History variables -/

variable {History : Type}

/-- Run a system next to a value computed from the steps taken so far. -/
def withHistory (next : State -> Label -> Except Stop State)
    (note : History -> State -> Label -> State -> History) :
    State × History -> Label -> Except Stop (State × History)
  | (s, history), l =>
      match next s l with
      | .ok s' => .ok (s', note history s l s')
      | .error stop => .error stop

variable {note : History -> State -> Label -> State -> History}

theorem withHistory_ok {s : State} {history : History} {l : Label} {result : State × History}
    (stepped : withHistory next note (s, history) l = .ok result) :
    next s l = .ok result.1 ∧ result.2 = note history s l result.1 := by
  rw [withHistory] at stepped
  cases inner : next s l with
  | error stop => rw [inner] at stepped; cases stepped
  | ok s' => rw [inner] at stepped; cases stepped; exact ⟨rfl, rfl⟩

theorem withHistory_error {s : State} {history : History} {l : Label} {stop : Stop}
    (failed : withHistory next note (s, history) l = .error stop) : next s l = .error stop := by
  rw [withHistory] at failed
  cases inner : next s l with
  | error reason => rw [inner] at failed; cases failed; rfl
  | ok s' => rw [inner] at failed; cases failed

/-- A condition on the steps does not see the history variable. -/
theorem meets_withHistory {s : State} {history : History} {ls : List Label}
    (meets : Meets next condition s ls) :
    Meets (withHistory next note) (fun both l => condition both.1 l) (s, history) ls := by
  induction ls generalizing s history with
  | nil => trivial
  | cons l ls inductionHypothesis =>
      refine ⟨meets.1, fun both stepped => ?_⟩
      exact inductionHypothesis (meets.2 both.1 (withHistory_ok stepped).1)

end Foundation
end OsslScripts
