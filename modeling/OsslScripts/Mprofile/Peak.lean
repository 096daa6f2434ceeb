import OsslScripts.Foundation.Pool
import OsslScripts.Mprofile.Hooks

namespace OsslScripts
namespace Mprofile

open Foundation

/-!
# The lock-free peak

Threads call `update_alloc` and `update_release` in any interleaving of their
atomic operations.  A thread is at one of five stages (`Stage`), and a step
of the pool is a step of one stage next to the two counters (`PeakMove`).
Everything else is shown of the stages.

That the loop is correct rests on `ms_max` never decreasing: the local `max`
of a loop is a value that `ms_max` had, so that a loop which leaves knows that
`ms_max` has reached its `current`, and a second exchange of the same loop
would have to find `ms_max` below a value that it was raised to.
-/

/-- The two procedures that move `ms_current`. -/
inductive PeakCall where
  | alloc (delta : UInt64)
  | release (delta : UInt64)
deriving DecidableEq, Repr

def peakProgram : PeakCall -> HookM Unit
  | .alloc delta => updateAlloc delta
  | .release delta => updateRelease delta

/-- Any thread may make any call. -/
def anyCall (Thread : Type) : Client Thread PeakCall Unit where
  State := Unit
  start := fun _ _ _ => some ()
  finish := fun _ _ _ _ => ()

abbrev PeakPool (Thread : Type) : Type := Pool hookMachine (anyCall Thread)

section Pools

variable {Thread : Type} [DecidableEq Thread]

def PeakPool.init (Thread : Type) : PeakPool Thread :=
  ⟨World.init, (), fun _ => none⟩

abbrev PeakPool.next : PeakPool Thread -> PoolLabel Thread PeakCall Answer ->
    Except (Stop HookFault) (PeakPool Thread) :=
  Pool.next (fun _ k => peakProgram k)

omit [DecidableEq Thread] in
/-- The shared counters. -/
abbrev PeakPool.msCurrent (pool : PeakPool Thread) : UInt64 := pool.shared.ms.msCurrent

abbrev PeakPool.msMax (pool : PeakPool Thread) : UInt64 := pool.shared.ms.msMax

/-- The running total stays in the range of `ms_current`. -/
def HookOp.InRange (current : UInt64) : HookOp -> Prop
  | .addFetch _ delta => current.toNat + delta.toNat < 2 ^ 64
  | .subFetch _ delta => delta.toNat ≤ current.toNat
  | _ => True

instance (current : UInt64) (o : HookOp) : Decidable (o.InRange current) := by
  apply @HookOp.casesOn (fun o => Decidable (o.InRange current)) o <;>
    intros <;> dsimp only [HookOp.InRange] <;> infer_instance

def InRange (pool : PeakPool Thread) : PoolLabel Thread PeakCall Answer -> Prop
  | .call _ _ _ => True
  | .step t _ => forall o, o ∈ pool.headOf t -> o.InRange pool.msCurrent

instance (pool : PeakPool Thread) : (l : PoolLabel Thread PeakCall Answer) ->
    Decidable (InRange pool l)
  | .call _ _ _ => instDecidableTrue
  | .step t _ =>
      inferInstanceAs (Decidable (forall o, o ∈ pool.headOf t -> o.InRange pool.msCurrent))

/-- The loop that the thread is in, with its local variables. -/
def PeakPool.loop (pool : PeakPool Thread) (t : Thread) : Option PeakLoop :=
  match pool.thread t with
  | some (_, .spin l _) => some l
  | _ => none

/-- The thread is between its add-fetch and the exit of its loop. -/
def PeakPool.Raising (pool : PeakPool Thread) (t : Thread) : Prop :=
  pool.headOf t = some .loadMax ∨ pool.loop t ≠ none

/-- What happened so far: the values that `ms_current` has held, and for each
thread the successful exchanges of its latest loop. -/
structure PeakHistory (Thread : Type) where
  held : List UInt64
  won : Thread -> Nat

def PeakHistory.init (Thread : Type) : PeakHistory Thread := ⟨[0], fun _ => 0⟩

/-- The compare-exchange that a step of this thread performs, if it is in its
loop, succeeds. -/
def PeakPool.wins (pool : PeakPool Thread) (t : Thread) : Bool :=
  match pool.loop t with
  | some l => pool.msMax = l.max
  | none => false

def PeakHistory.note (history : PeakHistory Thread) (pool : PeakPool Thread)
    (l : PoolLabel Thread PeakCall Answer) (pool' : PeakPool Thread) : PeakHistory Thread where
  held := pool'.msCurrent :: history.held
  won :=
    match l with
    | .call t _ _ => Function.update history.won t 0
    | .step t _ =>
      if pool.wins t then Function.update history.won t (history.won t + 1) else history.won

end Pools

/-! ## Stages -/

/-- Where a thread is in its call. -/
inductive Stage where
  | idle
  | adding (delta : UInt64)
  | loading (current : UInt64)
  | racing (l : PeakLoop)
  | releasing (delta : UInt64)

/-- The call and the rest of the program at a stage. -/
def Stage.At : Stage -> Option (PeakCall × HookM Unit) -> Prop
  | .idle, entry => entry = none
  | .adding delta, entry => entry = some (.alloc delta, updateAlloc delta)
  | .loading current, entry => Exists fun delta =>
      entry = some (.alloc delta, .op .loadMax (fun max => raisePeak ⟨current, max⟩))
  | .racing l, entry =>
    l.max < l.current ∧ Exists fun delta => entry = some (.alloc delta, raisePeak l)
  | .releasing delta, entry => entry = some (.release delta, updateRelease delta)

/-- A loop as it is left or entered: it goes on if its test holds. -/
def Stage.loopOrIdle (l : PeakLoop) : Stage := if l.max < l.current then .racing l else .idle

/-- One move of one thread: the stage before, the counters before and after,
and the stage after. -/
inductive PeakMove : Stage -> UInt64 × UInt64 -> UInt64 × UInt64 -> Stage -> Prop where
  | add (delta current max : UInt64) :
      PeakMove (.adding delta) (current, max) (current + delta, max) (.loading (current + delta))
  | load (mine current max : UInt64) :
      PeakMove (.loading mine) (current, max) (current, max) (Stage.loopOrIdle ⟨mine, max⟩)
  | win (mine current max : UInt64) (higher : max < mine) :
      PeakMove (.racing ⟨mine, max⟩) (current, max) (current, mine) (.racing ⟨mine, max⟩)
  | lose (mine stale current max : UInt64) (higher : stale < mine) (changed : max ≠ stale) :
      PeakMove (.racing ⟨mine, stale⟩) (current, max) (current, max) (Stage.loopOrIdle ⟨mine, max⟩)
  | release (delta current max : UInt64) :
      PeakMove (.releasing delta) (current, max) (current - delta, max) .idle

/-- The stage at which a call starts. -/
def PeakCall.stage : PeakCall -> Stage
  | .alloc delta => .adding delta
  | .release delta => .releasing delta

section Moves

variable {Thread : Type} [DecidableEq Thread] {pool pool' : PeakPool Thread}
  {stages : Thread -> Stage}

/-- Every thread of the pool is at its stage. -/
def StagesAt (pool : PeakPool Thread) (stages : Thread -> Stage) : Prop :=
  forall t, (stages t).At (pool.thread t)

theorem StagesAt.update (stagesAt : StagesAt pool stages) {t : Thread} {stage : Stage}
    {entry : Option (PeakCall × HookM Unit)}
    (same : pool'.thread = Function.update pool.thread t entry)
    (isAt : stage.At entry) : StagesAt pool' (Function.update stages t stage) := by
  intro u
  rw [same]
  by_cases here : u = t
  · subst here
    rw [Function.update_self, Function.update_self]
    exact isAt
  · rw [Function.update_of_ne here, Function.update_of_ne here]
    exact stagesAt u

variable (pool) in
/-- Settling at a loop leaves it if its test fails. -/
theorem land_loop (client : Unit) (t : Thread) (delta : UInt64) (env : Answer) (w : World)
    (l : PeakLoop) : Exists fun result => hookMachine.settle env (raisePeak l) w = .ok result ∧
      (pool.land client t (.alloc delta) result).shared = w ∧ Exists fun entry =>
        (pool.land client t (.alloc delta) result).thread = Function.update pool.thread t entry ∧
          (Stage.loopOrIdle l).At entry := by
  by_cases test : l.max < l.current
  · refine ⟨(w, raisePeak l), if_pos (decide_eq_true test), rfl, some (.alloc delta, raisePeak l),
      rfl, ?_⟩
    rw [Stage.loopOrIdle, if_pos test]
    exact ⟨test, delta, rfl⟩
  · refine ⟨(w, .ret ()), if_neg (by rw [decide_eq_true_iff]; exact test), rfl, none, rfl, ?_⟩
    rw [Stage.loopOrIdle, if_neg test]
    rfl

/-- A step moves one thread from its stage. -/
theorem step_move {t : Thread} {env : Answer} (stagesAt : StagesAt pool stages)
    (stepped : pool.next (.step t env) = .ok pool') :
    Exists fun stage =>
      PeakMove (stages t) (pool.msCurrent, pool.msMax) (pool'.msCurrent, pool'.msMax)
      stage ∧ StagesAt pool' (Function.update stages t stage) := by
  have mine := stagesAt t
  rw [PeakPool.next, Pool.next] at stepped
  cases stage : stages t with
  | idle =>
      rw [stage] at mine
      have free : pool.thread t = none := mine
      rw [free] at stepped
      cases stepped
  | adding delta =>
      rw [stage] at mine
      have busy : pool.thread t = some (.alloc delta, updateAlloc delta) := mine
      rw [busy] at stepped
      cases stepped
      exact ⟨_, .add delta _ _, stagesAt.update rfl ⟨delta, rfl⟩⟩
  | loading current =>
      rw [stage] at mine
      rcases mine with ⟨delta, busy⟩
      rw [busy] at stepped
      rcases land_loop pool pool.client t delta env pool.shared ⟨current, pool.msMax⟩ with
        ⟨result, settled, same, entry, landed, isAt⟩
      have performed : hookMachine.step env (.op .loadMax (fun max => raisePeak ⟨current, max⟩))
          pool.shared = .ok result := settled
      simp only [performed] at stepped
      cases stepped
      refine ⟨_, ?_, stagesAt.update landed isAt⟩
      simp only [PeakPool.msCurrent, PeakPool.msMax, same]
      exact .load current _ _
  | racing l =>
      rw [stage] at mine
      rcases mine with ⟨test, delta, busy⟩
      rw [busy] at stepped
      rcases land_loop pool pool.client t delta env (comparePeak l pool.shared).1
        (comparePeak l pool.shared).2 with ⟨result, settled, same, entry, landed, isAt⟩
      have performed : hookMachine.step env (raisePeak l) pool.shared = .ok result := by
        rw [raisePeak, Machine.step, if_pos (decide_eq_true test)]
        exact settled
      simp only [performed] at stepped
      cases stepped
      refine ⟨_, ?_, stagesAt.update landed isAt⟩
      simp only [PeakPool.msCurrent, PeakPool.msMax, same]
      rcases l with ⟨current, stale⟩
      unfold comparePeak
      by_cases found : pool.shared.ms.msMax = stale
      · rw [if_pos found, found, Stage.loopOrIdle, if_pos test]
        exact .win current _ _ test
      · rw [if_neg found]
        exact .lose current stale _ _ test found
  | releasing delta =>
      rw [stage] at mine
      have busy : pool.thread t = some (.release delta, updateRelease delta) := mine
      rw [busy] at stepped
      cases stepped
      exact ⟨_, .release delta _ _, stagesAt.update rfl rfl⟩

/-- A call starts at its stage. -/
theorem call_move {t : Thread} {k : PeakCall} {env : Answer} (stagesAt : StagesAt pool stages)
    (stepped : pool.next (.call t k env) = .ok pool') :
    stages t = .idle ∧ pool'.shared = pool.shared ∧
      StagesAt pool' (Function.update stages t k.stage) := by
  rw [PeakPool.next, Pool.next] at stepped
  cases busy : pool.thread t with
  | some entry => rw [busy] at stepped; cases stepped
  | none =>
      rw [busy] at stepped
      have idle : stages t = .idle := by
        have mine := stagesAt t
        rw [busy] at mine
        cases stage : stages t with
        | idle => rfl
        | adding delta => rw [stage] at mine; cases mine
        | loading current =>
          rw [stage] at mine; rcases mine with ⟨delta, impossible⟩; cases impossible
        | racing l => rw [stage] at mine; rcases mine with ⟨-, delta, impossible⟩; cases impossible
        | releasing delta => rw [stage] at mine; cases mine
      cases k with
      | alloc delta =>
          cases stepped
          exact ⟨idle, rfl, stagesAt.update rfl rfl⟩
      | release delta =>
          cases stepped
          exact ⟨idle, rfl, stagesAt.update rfl rfl⟩

omit [DecidableEq Thread] in
/-- The loop of a thread, by its stage. -/
theorem StagesAt.loop (stagesAt : StagesAt pool stages) (t : Thread) :
    pool.loop t = match stages t with | .racing l => some l | _ => none := by
  have mine := stagesAt t
  unfold PeakPool.loop
  cases stage : stages t with
  | idle => rw [stage] at mine; rw [show pool.thread t = none from mine]
  | adding delta =>
      rw [stage] at mine
      rw [show pool.thread t = some (.alloc delta, updateAlloc delta) from mine]
      rfl
  | loading current => rw [stage] at mine; rcases mine with ⟨delta, busy⟩; rw [busy]
  | racing l => rw [stage] at mine; rcases mine with ⟨-, delta, busy⟩; rw [busy]; rfl
  | releasing delta =>
      rw [stage] at mine
      rw [show pool.thread t = some (.release delta, updateRelease delta) from mine]
      rfl

end Moves

/-! ## The invariant -/

/-- The value that the thread still has to raise `ms_max` to. -/
def Stage.pending : Stage -> Option UInt64
  | .loading current => some current
  | .racing l => some l.current
  | _ => none

/-- The thread has not reached its loop. -/
def Stage.BeforeLoop : Stage -> Prop
  | .adding _ => True
  | .loading _ => True
  | _ => False

structure PeakInv {Thread : Type} (current max : UInt64) (stages : Thread -> Stage)
    (history : PeakHistory Thread) : Prop where
  currentHeld : current ∈ history.held
  maxHeld : max ∈ history.held
  pendingHeld : forall t c, (stages t).pending = some c -> c ∈ history.held
  /-- A value above `ms_max` is still to be stored by some thread. -/
  covered : forall v, v ∈ history.held ->
    v ≤ max ∨ Exists fun t => Exists fun c => (stages t).pending = some c ∧ v ≤ c
  /-- The local `max` of a loop is a value that `ms_max` had. -/
  stale : forall t l, stages t = .racing l -> l.max ≤ max
  notYet : forall t, (stages t).BeforeLoop -> history.won t = 0
  once : forall t, history.won t ≤ 1
  raised : forall t l, stages t = .racing l -> history.won t = 1 -> l.current ≤ max

section Invariant

variable {Thread : Type} [DecidableEq Thread] {current max current' max' : UInt64}
  {stages : Thread -> Stage} {history history' : PeakHistory Thread}
  {t : Thread} {stage stage' : Stage}

theorem loopOrIdle_cases (l : PeakLoop) :
    (l.max < l.current ∧ Stage.loopOrIdle l = .racing l) ∨
      (l.current ≤ l.max ∧ Stage.loopOrIdle l = .idle) := by
  by_cases test : l.max < l.current
  · exact Or.inl ⟨test, if_pos test⟩
  · exact Or.inr ⟨UInt64.not_lt.mp test, if_neg test⟩

/-- No move lowers `ms_max`. -/
theorem PeakMove.monotone (move : PeakMove stage (current, max) (current', max') stage') :
    max ≤ max' := by
  cases move with
  | win mine _ _ higher => exact UInt64.le_of_lt higher
  | _ => exact UInt64.le_refl max

/-- What one thread does to the invariant. -/
theorem PeakInv.change (inv : PeakInv current max stages history) (t : Thread) (stage' : Stage)
    (higher : max ≤ max') (held : history'.held = current' :: history.held)
    (others : forall u, u ≠ t -> history'.won u = history.won u)
    (stored : max' = max ∨ (stages t).pending = some max')
    (pending : forall c, stage'.pending = some c -> c = current' ∨ (stages t).pending = some c)
    (released : forall c, (stages t).pending = some c -> stage'.pending = some c ∨ c ≤ max')
    (lower : current' ≤ current ∨ stage'.pending = some current')
    (stale : forall l, stage' = .racing l -> l.max ≤ max')
    (notYet : stage'.BeforeLoop -> history'.won t = 0) (once : history'.won t ≤ 1)
    (raised : forall l, stage' = .racing l -> history'.won t = 1 -> l.current ≤ max') :
    PeakInv current' max' (Function.update stages t stage') history' := by
  have kept : forall v, v ∈ history.held -> v ∈ history'.held := by
    intro v member
    rw [held]
    exact List.mem_cons_of_mem current' member
  have covered : forall v, v ∈ history.held -> v ≤ max' ∨ Exists fun u => Exists fun c =>
      (Function.update stages t stage' u).pending = some c ∧ v ≤ c := by
    intro v member
    rcases inv.covered v member with below | ⟨u, c, isPending, below⟩
    · exact Or.inl (UInt64.le_trans below higher)
    · by_cases here : u = t
      · subst here
        rcases released c isPending with still | reached
        · exact Or.inr ⟨u, c, by rw [Function.update_self]; exact still, below⟩
        · exact Or.inl (UInt64.le_trans below reached)
      · exact Or.inr ⟨u, c, by rw [Function.update_of_ne here]; exact isPending, below⟩
  refine ⟨?_, ?_, fun u c isPending => ?_, fun v member => ?_, fun u l isRacing => ?_,
    fun u before => ?_,
    fun u => ?_, fun u l isRacing hasWon => ?_⟩
  · rw [held]
    exact List.mem_cons_self
  · rcases stored with same | isPending
    · rw [same]
      exact kept max inv.maxHeld
    · exact kept max' (inv.pendingHeld t max' isPending)
  · by_cases here : u = t
    · subst here
      rw [Function.update_self] at isPending
      rcases pending c isPending with same | before
      · rw [held, same]
        exact List.mem_cons_self
      · exact kept c (inv.pendingHeld u c before)
    · rw [Function.update_of_ne here] at isPending
      exact kept c (inv.pendingHeld u c isPending)
  · rw [held, List.mem_cons] at member
    rcases member with same | earlier
    · rw [same]
      rcases lower with below | isPending
      · rcases covered current inv.currentHeld with reached | ⟨u, c, isPending, above⟩
        · exact Or.inl (UInt64.le_trans below reached)
        · exact Or.inr ⟨u, c, isPending, UInt64.le_trans below above⟩
      · exact Or.inr ⟨t, current', by rw [Function.update_self]; exact isPending,
          UInt64.le_refl current'⟩
    · exact covered v earlier
  · by_cases here : u = t
    · subst here
      rw [Function.update_self] at isRacing
      exact stale l isRacing
    · rw [Function.update_of_ne here] at isRacing
      exact UInt64.le_trans (inv.stale u l isRacing) higher
  · by_cases here : u = t
    · subst here
      rw [Function.update_self] at before
      exact notYet before
    · rw [Function.update_of_ne here] at before
      rw [others u here]
      exact inv.notYet u before
  · by_cases here : u = t
    · rw [here]
      exact once
    · rw [others u here]
      exact inv.once u
  · by_cases here : u = t
    · subst here
      rw [Function.update_self] at isRacing
      exact raised l isRacing hasWon
    · rw [Function.update_of_ne here] at isRacing
      rw [others u here] at hasWon
      exact UInt64.le_trans (inv.raised u l isRacing hasWon) higher

/-- The successful exchanges of a thread's loop after a move. -/
def wonAfter (stage : Stage) (max : UInt64) (won : Nat) : Nat :=
  match stage with
  | .racing l => if max = l.max then won + 1 else won
  | _ => won

/-- A move in range keeps the invariant. -/
theorem PeakInv.move (inv : PeakInv current max stages history)
    (move : PeakMove (stages t) (current, max) (current', max') stage')
    (inRange : forall delta, stages t = .releasing delta -> delta.toNat ≤ current.toNat)
    (held : history'.held = current' :: history.held)
    (others : forall u, u ≠ t -> history'.won u = history.won u)
    (won : history'.won t = wonAfter (stages t) max (history.won t)) :
    PeakInv current' max' (Function.update stages t stage') history' := by
  have once := inv.once t
  cases stage : stages t with
  | idle => rw [stage] at move; cases move
  | adding delta =>
      rw [stage] at move won
      cases move
      have zero := inv.notYet t (by rw [stage]; trivial)
      refine inv.change t _ (UInt64.le_refl max) held others (Or.inl rfl) (fun c isPending => ?_)
        (fun c isPending => ?_) (Or.inr rfl) (fun l impossible => by cases impossible)
        (fun _ => by rw [won]; exact zero) (by rw [won]; exact once)
        (fun l impossible => by cases impossible)
      · cases isPending
        exact Or.inl rfl
      · rw [stage] at isPending
        cases isPending
  | loading mine =>
      rw [stage] at move won
      cases move
      have zero : history'.won t = 0 := by
        rw [won]
        exact inv.notYet t (by rw [stage]; trivial)
      rcases loopOrIdle_cases ⟨mine, max⟩ with ⟨test, same⟩ | ⟨test, same⟩
      · rw [same]
        refine inv.change t _ (UInt64.le_refl max) held others (Or.inl rfl) (fun c isPending => ?_)
          (fun c isPending => ?_) (Or.inl (UInt64.le_refl _)) (fun l isRacing => ?_) (fun _ => zero)
          (by rw [zero]; exact Nat.zero_le 1) (fun l _ hasWon => ?_)
        · rw [stage]
          exact Or.inr isPending
        · rw [stage] at isPending
          exact Or.inl isPending
        · cases isRacing
          exact UInt64.le_refl max
        · rw [zero] at hasWon
          cases hasWon
      · rw [same]
        refine inv.change t _ (UInt64.le_refl max) held others (Or.inl rfl)
          (fun c impossible => by cases impossible) (fun c isPending => ?_)
          (Or.inl (UInt64.le_refl _)) (fun l impossible => by cases impossible) (fun _ => zero)
          (by rw [zero]; exact Nat.zero_le 1) (fun l impossible => by cases impossible)
        rw [stage] at isPending
        cases isPending
        exact Or.inr test
  | racing l =>
      rw [stage] at move won
      have reached := inv.raised t l stage
      cases move with
      | win mine _ _ higher =>
          rw [wonAfter, if_pos rfl] at won
          -- A second exchange would have to find `ms_max` where the first one left it or higher.
          have zero : history.won t = 0 := by
            by_contra earlier
            have onlyOne : history.won t = 1 := by omega
            exact absurd higher (UInt64.not_lt.mpr (reached onlyOne))
          rw [zero] at won
          refine inv.change t _ (UInt64.le_of_lt higher) held others (Or.inr (by rw [stage]; rfl))
            (fun c isPending => ?_) (fun c isPending => ?_) (Or.inl (UInt64.le_refl _))
            (fun l isRacing => ?_) (fun impossible => impossible.elim) (by rw [won])
            (fun l isRacing _ => ?_)
          · rw [stage]
            exact Or.inr isPending
          · rw [stage] at isPending
            exact Or.inl isPending
          · cases isRacing
            exact UInt64.le_of_lt higher
          · cases isRacing
            exact UInt64.le_refl _
      | lose mine stale _ _ test changed =>
          rw [wonAfter, if_neg changed] at won
          rcases loopOrIdle_cases ⟨mine, max⟩ with ⟨test, same⟩ | ⟨test, same⟩
          · rw [same]
            refine inv.change t _ (UInt64.le_refl max) held others (Or.inl rfl)
              (fun c isPending => ?_)
              (fun c isPending => ?_) (Or.inl (UInt64.le_refl _)) (fun l isRacing => ?_)
              (fun impossible => impossible.elim) (by rw [won]; exact once)
              (fun l isRacing hasWon => ?_)
            · rw [stage]
              exact Or.inr isPending
            · rw [stage] at isPending
              exact Or.inl isPending
            · cases isRacing
              exact UInt64.le_refl max
            · cases isRacing
              rw [won] at hasWon
              exact reached hasWon
          · rw [same]
            refine inv.change t _ (UInt64.le_refl max) held others (Or.inl rfl)
              (fun c impossible => by cases impossible) (fun c isPending => ?_)
              (Or.inl (UInt64.le_refl _)) (fun l impossible => by cases impossible)
              (fun impossible => impossible.elim) (by rw [won]; exact once)
              (fun l impossible => by cases impossible)
            rw [stage] at isPending
            cases isPending
            exact Or.inr test
  | releasing delta =>
      rw [stage] at move won
      cases move
      have below : current - delta ≤ current := by
        rw [UInt64.le_iff_toNat_le, UInt64.toNat_sub_of_le]
        · omega
        · rw [UInt64.le_iff_toNat_le]
          exact inRange delta stage
      refine inv.change t _ (UInt64.le_refl max) held others (Or.inl rfl)
        (fun c impossible => by cases impossible) (fun c isPending => ?_) (Or.inl below)
        (fun l impossible => by cases impossible) (fun impossible => impossible.elim)
        (by rw [won]; exact once) (fun l impossible => by cases impossible)
      rw [stage] at isPending
      cases isPending

/-- A call changes the stage of an idle thread only. -/
theorem PeakInv.start (inv : PeakInv current max stages history) (k : PeakCall)
    (idle : stages t = .idle) (held : history'.held = current :: history.held)
    (others : forall u, u ≠ t -> history'.won u = history.won u) (won : history'.won t = 0) :
    PeakInv current max (Function.update stages t k.stage) history' := by
  refine inv.change t _ (UInt64.le_refl max) held others (Or.inl rfl) (fun c isPending => ?_)
    (fun c isPending => ?_) (Or.inl (UInt64.le_refl current)) (fun l isRacing => ?_) (fun _ => won)
    (by rw [won]; exact Nat.zero_le 1) (fun l isRacing => ?_)
  · cases k <;> cases isPending
  · rw [idle] at isPending
    cases isPending
  · cases k <;> cases isRacing
  · cases k <;> cases isRacing

end Invariant

section Runs

variable {Thread : Type} [DecidableEq Thread] {pool pool' : PeakPool Thread}
  {history : PeakHistory Thread} {l : PoolLabel Thread PeakCall Answer}

/-- The invariant of the pool: some stages fit it and the history. -/
def PeakPool.Exact (pool : PeakPool Thread) (history : PeakHistory Thread) : Prop :=
  Exists fun stages => StagesAt pool stages ∧ PeakInv pool.msCurrent pool.msMax stages history

omit [DecidableEq Thread] in
theorem PeakPool.init_exact : (PeakPool.init Thread).Exact (PeakHistory.init Thread) := by
  refine ⟨fun _ => .idle, fun t => rfl, ?_⟩
  refine ⟨List.mem_cons_self, List.mem_cons_self, fun t c impossible => (by cases impossible),
    fun v member => Or.inl ?_, fun t l impossible => (by cases impossible), fun _ _ => rfl,
    fun t => Nat.zero_le 1, fun t l impossible => by cases impossible⟩
  rw [List.mem_singleton.mp member]
  exact UInt64.le_refl 0

omit [DecidableEq Thread] in
theorem StagesAt.wonAfter {stages : Thread -> Stage} (stagesAt : StagesAt pool stages)
    (t : Thread) :
    (if pool.wins t then history.won t + 1 else history.won t) =
      Mprofile.wonAfter (stages t) pool.msMax (history.won t) := by
  have sameLoop := stagesAt.loop t
  unfold PeakPool.wins Mprofile.wonAfter
  rw [sameLoop]
  cases stages t <;> simp only [Bool.false_eq_true, if_false, decide_eq_true_eq]

/-- Every step keeps the invariant. -/
theorem PeakPool.Exact.next (exact : pool.Exact history) (inRange : InRange pool l)
    (stepped : pool.next l = .ok pool') : pool'.Exact (history.note pool l pool') := by
  rcases exact with ⟨stages, stagesAt, inv⟩
  cases l with
  | call t k env =>
      rcases call_move stagesAt stepped with ⟨idle, same, stagesAt'⟩
      have sameCurrent : pool'.msCurrent = pool.msCurrent := by
        simp only [PeakPool.msCurrent, same]
      have sameMax : pool'.msMax = pool.msMax := by simp only [PeakPool.msMax, same]
      refine ⟨_, stagesAt', ?_⟩
      rw [sameCurrent, sameMax]
      refine inv.start k idle ?_ (fun u other => ?_) ?_
      · rw [PeakHistory.note, sameCurrent]
      · exact Function.update_of_ne other 0 history.won
      · exact Function.update_self t 0 history.won
  | step t env =>
      rcases step_move stagesAt stepped with ⟨stage, move, stagesAt'⟩
      refine ⟨_, stagesAt', inv.move move (fun delta releasing => ?_) rfl (fun u other => ?_) ?_⟩
      · have mine := stagesAt t
        rw [releasing] at mine
        refine inRange (.subFetch .current delta) ?_
        rw [Pool.headOf, show pool.thread t = some (.release delta, updateRelease delta) from mine]
        rfl
      · change (if pool.wins t then Function.update history.won t (history.won t + 1)
          else history.won) u = _
        split_ifs
        · exact Function.update_of_ne other _ _
        · rfl
      · rw [← stagesAt.wonAfter t]
        change (if pool.wins t then Function.update history.won t (history.won t + 1)
          else history.won) t = _
        split_ifs
        · exact Function.update_self t _ _
        · rfl

omit [DecidableEq Thread] in
/-- What holds in every reachable state. -/
theorem PeakPool.Exact.facts (exact : pool.Exact history) :
    pool.msMax ∈ history.held ∧
      ((forall t, ¬ pool.Raising t) -> forall v, v ∈ history.held -> v ≤ pool.msMax) ∧
      forall t, history.won t ≤ 1 := by
  rcases exact with ⟨stages, stagesAt, inv⟩
  refine ⟨inv.maxHeld, fun quiet v member => ?_, inv.once⟩
  rcases inv.covered v member with below | ⟨t, c, isPending, -⟩
  · exact below
  · refine absurd ?_ (quiet t)
    have mine := stagesAt t
    cases stage : stages t with
    | idle => rw [stage] at isPending; cases isPending
    | adding delta => rw [stage] at isPending; cases isPending
    | releasing delta => rw [stage] at isPending; cases isPending
    | loading current =>
        rw [stage] at mine
        rcases mine with ⟨delta, busy⟩
        refine Or.inl ?_
        rw [Pool.headOf, busy]
        rfl
    | racing l =>
        refine Or.inr ?_
        rw [stagesAt.loop t, stage]
        exact Option.some_ne_none l

/-- No step lowers `ms_max`. -/
theorem StagesAt.next {stages : Thread -> Stage} (stagesAt : StagesAt pool stages)
    (stepped : pool.next l = .ok pool') :
    (Exists fun stages' => StagesAt pool' stages') ∧ pool.msMax ≤ pool'.msMax := by
  cases l with
  | call t k env =>
      rcases call_move stagesAt stepped with ⟨-, same, stagesAt'⟩
      refine ⟨⟨_, stagesAt'⟩, ?_⟩
      simp only [PeakPool.msMax, same]
      exact UInt64.le_refl _
  | step t env =>
      rcases step_move stagesAt stepped with ⟨stage, move, stagesAt'⟩
      exact ⟨⟨_, stagesAt'⟩, move.monotone⟩

/-- No run lowers it. -/
theorem StagesAt.exec_monotone {stages : Thread -> Stage} (stagesAt : StagesAt pool stages)
    {more : List (PoolLabel Thread PeakCall Answer)}
    (executed : exec PeakPool.next pool more = .ok pool') : pool.msMax ≤ pool'.msMax := by
  refine (exec_invariant_all
    (fun p : PeakPool Thread => (Exists fun stages => StagesAt p stages) ∧ pool.msMax ≤ p.msMax)
    (fun p label p' holds stepped => ?_) ⟨⟨stages, stagesAt⟩, UInt64.le_refl _⟩ executed).2
  rcases holds with ⟨⟨stages, stagesAt⟩, before⟩
  rcases stagesAt.next stepped with ⟨again, after⟩
  exact ⟨again, UInt64.le_trans before after⟩

/-! ## Leaving the loop -/

/-- The label is a step of this thread. -/
def isStepOf (t : Thread) : PoolLabel Thread PeakCall Answer -> Bool
  | .call _ _ _ => false
  | .step u _ => u = t

/-- The other threads do not change `ms_max`. -/
def Undisturbed (t : Thread) (pool : PeakPool Thread)
    (l : PoolLabel Thread PeakCall Answer) : Prop :=
  isStepOf t l = false -> forall pool', pool.next l = .ok pool' -> pool'.msMax = pool.msMax

/-- How many iterations a loop has left, if nobody else changes `ms_max`: one
that learns `ms_max`, one that stores, and one that learns what it stored. -/
def iterationsLeft (max : UInt64) (l : PeakLoop) : Nat :=
  if max = l.max then 2 else if max < l.current then 3 else 1

/-- An iteration leaves the loop or has fewer of them left. -/
theorem PeakMove.iteration {l : PeakLoop} {current max current' max' : UInt64} {stage : Stage}
    (move : PeakMove (.racing l) (current, max) (current', max') stage) :
    stage = .idle ∨ Exists fun l' => stage = .racing l' ∧
      iterationsLeft max' l' < iterationsLeft max l := by
  cases move with
  | win mine _ _ higher =>
      refine Or.inr ⟨⟨max', max⟩, rfl, ?_⟩
      have different : max' ≠ max := by
        rintro rfl
        exact UInt64.lt_irrefl _ higher
      simp only [iterationsLeft, if_neg different, if_neg (UInt64.lt_irrefl _), if_true]
      omega
  | lose mine stale _ _ test changed =>
      rcases loopOrIdle_cases ⟨mine, max⟩ with ⟨goesOn, same⟩ | ⟨-, same⟩
      · refine Or.inr ⟨⟨mine, max⟩, same, ?_⟩
        simp only [iterationsLeft, if_neg changed, if_pos goesOn, if_true]
        omega
      · exact Or.inl same

/-- A thread in its loop leaves it after as many iterations as it has left. -/
theorem loop_exits {t : Thread} (more : List (PoolLabel Thread PeakCall Answer)) :
    forall (pool pool' : PeakPool Thread) (stages : Thread -> Stage) (l : PeakLoop),
      StagesAt pool stages -> stages t = .racing l ->
      Meets PeakPool.next (Undisturbed t) pool more -> exec PeakPool.next pool more = .ok pool' ->
      iterationsLeft pool.msMax l ≤ more.countP (isStepOf t) ->
        Exists fun early => Exists fun late => Exists fun reached => more = early ++ late ∧
          early.countP (isStepOf t) ≤ iterationsLeft pool.msMax l ∧
          exec PeakPool.next pool early = .ok reached ∧ reached.loop t = none := by
  induction more with
  | nil =>
      intro pool pool' stages l stagesAt racing undisturbed executed enough
      have positive : 1 ≤ iterationsLeft pool.msMax l := by
        unfold iterationsLeft
        split_ifs <;> omega
      rw [List.countP_nil] at enough
      omega
  | cons label more inductionHypothesis =>
      intro pool pool' stages l stagesAt racing undisturbed executed enough
      rcases exec_cons_ok executed with ⟨middle, stepped, rest⟩
      have onward : forall stages' l', StagesAt middle stages' -> stages' t = .racing l' ->
          iterationsLeft middle.msMax l' + (if isStepOf t label then 1 else 0) ≤
            iterationsLeft pool.msMax l ->
          iterationsLeft middle.msMax l' ≤ more.countP (isStepOf t) ->
          Exists fun early => Exists fun late => Exists fun reached =>
            label :: more = early ++ late ∧
            early.countP (isStepOf t) ≤ iterationsLeft pool.msMax l ∧
            exec PeakPool.next pool early = .ok reached ∧ reached.loop t = none := by
        intro stages' l' stagesAt' racing' fewer enough'
        rcases inductionHypothesis middle pool' stages' l' stagesAt' racing'
          (undisturbed.2 middle stepped) rest enough' with
          ⟨early, late, reached, split, few, executedEarly, left⟩
        refine ⟨label :: early, late, reached, by rw [split]; rfl, ?_, ?_, left⟩
        · rw [List.countP_cons]
          omega
        · rw [exec, stepped]
          exact executedEarly
      rw [List.countP_cons] at enough
      cases mine : isStepOf t label with
      | false =>
          have sameMax := undisturbed.1 mine middle stepped
          have elsewhere : Exists fun stages' =>
              StagesAt middle stages' ∧ stages' t = stages t := by
            cases label with
            | call u k env =>
                rcases call_move stagesAt stepped with ⟨idle, -, stagesAt'⟩
                refine ⟨_, stagesAt', Function.update_of_ne ?_ _ _⟩
                rintro rfl
                rw [racing] at idle
                cases idle
            | step u env =>
                rcases step_move stagesAt stepped with ⟨stage, -, stagesAt'⟩
                refine ⟨_, stagesAt', Function.update_of_ne ?_ _ _⟩
                rintro rfl
                exact absurd mine (by rw [isStepOf, decide_eq_true rfl]; decide)
          rcases elsewhere with ⟨stages', stagesAt', same⟩
          rw [mine] at enough
          refine onward stages' l stagesAt' (same.trans racing) ?_ ?_
          · rw [mine, sameMax]
            exact Nat.le_refl _
          · rw [sameMax]
            exact enough
      | true =>
          cases label with
          | call u k env => cases mine
          | step u env =>
              have same : u = t := of_decide_eq_true mine
              subst same
              rcases step_move stagesAt stepped with ⟨stage, move, stagesAt'⟩
              rw [racing] at move
              rw [mine, if_pos rfl] at enough
              rcases move.iteration with idle | ⟨l', races, fewer⟩
              · refine ⟨[.step u env], more, middle, rfl, ?_, ?_, ?_⟩
                · rw [List.countP_singleton, mine, if_pos rfl]
                  unfold iterationsLeft
                  split_ifs <;> omega
                · rw [exec, stepped]
                  rfl
                · rw [stagesAt'.loop u, Function.update_self, idle]
              · refine onward _ l' stagesAt' (by rw [Function.update_self]; exact races) ?_ ?_
                · rw [mine, if_pos rfl]
                  omega
                · omega

end Runs

/-- In every interleaving with the running total in range, `ms_max` is a value
that `ms_current` has held, the largest one when no thread is raising it, and
no loop exchanges it twice.  It never decreases, and a loop that nobody
disturbs is left within three iterations. -/
theorem peak_exact {Thread : Type} [DecidableEq Thread]
    (labels : List (PoolLabel Thread PeakCall Answer))
    (inRange : Meets PeakPool.next InRange (PeakPool.init Thread) labels)
    (pool : PeakPool Thread) (history : PeakHistory Thread)
    (executed : exec (withHistory PeakPool.next PeakHistory.note)
      (PeakPool.init Thread, PeakHistory.init Thread) labels = .ok (pool, history)) :
    (pool.msMax ∈ history.held ∧
      ((forall t, ¬ pool.Raising t) -> forall v, v ∈ history.held -> v ≤ pool.msMax) ∧
      forall t, history.won t ≤ 1) ∧
    forall (more : List (PoolLabel Thread PeakCall Answer)) (pool' : PeakPool Thread),
      exec PeakPool.next pool more = .ok pool' ->
      pool.msMax ≤ pool'.msMax ∧
        forall t, Meets PeakPool.next (Undisturbed t) pool more ->
          3 ≤ more.countP (isStepOf t) ->
          Exists fun early => Exists fun late => Exists fun reached => more = early ++ late ∧
            early.countP (isStepOf t) ≤ 3 ∧ exec PeakPool.next pool early = .ok reached ∧
              reached.loop t = none := by
  have exact : pool.Exact history := exec_invariant
    (fun both : PeakPool Thread × PeakHistory Thread => both.1.Exact both.2)
    (fun both l both' holds met stepped => by
      rcases withHistory_ok stepped with ⟨inner, noted⟩
      rw [noted]
      exact holds.next met inner)
    PeakPool.init_exact (meets_withHistory inRange) executed
  have facts := exact.facts
  rcases exact with ⟨stages, stagesAt, -⟩
  refine ⟨facts, fun more pool' continued => ⟨stagesAt.exec_monotone continued, ?_⟩⟩
  · intro t undisturbed enough
    cases stage : stages t with
    | racing l =>
        have atMost : iterationsLeft pool.msMax l ≤ 3 := by
          unfold iterationsLeft
          split_ifs <;> omega
        rcases loop_exits more pool pool' stages l stagesAt stage undisturbed continued
          (Nat.le_trans atMost enough) with ⟨early, late, reached, split, few, executedEarly, left⟩
        exact ⟨early, late, reached, split, Nat.le_trans few atMost, executedEarly, left⟩
    | _ =>
        refine ⟨[], more, pool, rfl, Nat.zero_le 3, rfl, ?_⟩
        rw [stagesAt.loop t, stage]

/-- A thread in its loop finds `ms_max` raised by another one, which releases again. -/
def racingRun : List (PoolLabel (Fin 2) PeakCall Answer) :=
  let answer := answering 0
  [.call threadA (.alloc 5) answer, .step threadA answer, .step threadA answer,
    .call threadB (.alloc 3) answer,
    .step threadB answer, .step threadB answer, .step threadB answer, .step threadA answer,
    .step threadB answer,
    .call threadB (.release 3) answer, .step threadB answer]

theorem peak_exact_racingRun : Exists fun pool => Exists fun history =>
    exec (withHistory PeakPool.next PeakHistory.note)
        (PeakPool.init (Fin 2), PeakHistory.init (Fin 2)) racingRun = .ok (pool, history) ∧
      pool.msCurrent = 5 ∧ pool.msMax = 8 ∧ forall v, v ∈ history.held -> v ≤ pool.msMax := by
  have reached : Exists fun both =>
      exec (withHistory PeakPool.next PeakHistory.note)
          (PeakPool.init (Fin 2), PeakHistory.init (Fin 2)) racingRun = .ok both ∧
        both.1.msCurrent = 5 ∧ both.1.msMax = 8 ∧ forall t, (both.1.thread t).isNone = true :=
          reaches_of_check (by decide +kernel)
  rcases reached with ⟨⟨pool, history⟩, executed, current, max, idle⟩
  have exact := peak_exact racingRun (meets_of_check (by decide +kernel)) pool history executed
  refine ⟨pool, history, executed, current, max, exact.1.2.1 (fun t raising => ?_)⟩
  have free : pool.thread t = none := Option.isNone_iff_eq_none.mp (idle t)
  rcases raising with loading | racing
  · rw [Pool.headOf, free] at loading
    cases loading
  · exact racing (by rw [PeakPool.loop, free])

end Mprofile
end OsslScripts
