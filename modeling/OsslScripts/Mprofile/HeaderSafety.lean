import OsslScripts.Mprofile.Custody

namespace OsslScripts
namespace Mprofile

open Foundation

/-!
# The corruption check

Threads call the hooks of one family in any interleaving.  As long as libc
grants no request that is too short for a header, which only a request that
wrapped around is, and answers `realloc (p, 0)` with null, every pointer of the
application has its header, and the check of the header never fails.

Both conditions are needed.  A hook that asked for `sz + 16` bytes modulo
`2 ^ 64` writes its header past the end of a short block.  The hooks return
something for a block that `realloc (p, 0)` gives them, but no header is
written for it: the stats hook returns the address behind where a header would
be, and the tracing hooks the pointer that libc has just released.
-/

/-- The calls of one family of hooks by the threads. -/
abbrev HookPool (Thread : Type) [DecidableEq Thread] (usesZeroBlocks : Bool) : Type :=
  Pool hookMachine (application Thread usesZeroBlocks)

/-- The process starts with nothing allocated and no call in progress. -/
def HookPool.init (Thread : Type) [DecidableEq Thread] (usesZeroBlocks : Bool) :
    HookPool Thread usesZeroBlocks :=
  ⟨World.init, Holdings.none, fun _ => none⟩

/-- One step of the threads that call the hooks of a family. -/
abbrev HookPool.next {Thread : Type} [DecidableEq Thread] {usesZeroBlocks : Bool} (family : Family)
    (tid : Thread -> Nat) : HookPool Thread usesZeroBlocks -> PoolLabel Thread Call Answer ->
      Except (Stop HookFault) (HookPool Thread usesZeroBlocks) :=
  Pool.next (fun t k => hook family (tid t) k)

/-- The operation that a label performs first, and the call that it belongs to. -/
def HookPool.due {Thread : Type} [DecidableEq Thread] {usesZeroBlocks : Bool}
    (pool : HookPool Thread usesZeroBlocks) (t : Thread) : Option (Call × HookOp) :=
  match pool.thread t with
  | none => none
  | some (k, program) => (Protocol.head (M := hookMachine) program).map (fun o => (k, o))

/-- Libc grants only requests with room for a header, and answers `realloc (p, 0)`
with null.  The tracing hooks ignore what `realloc (NULL, 0)` returns. -/
def CarefulAnswer (family : Family) (answer : Answer) : Call × HookOp -> Prop
  | (_, .libcMalloc size) => answer.ptr = 0 ∨ sizeofMemhdr.toNat ≤ size.toNat
  | (.realloc b sz, .libcRealloc _ size) =>
      if sz = 0 then answer.ptr = 0 ∨ b = 0 ∧ family ≠ .stats
      else (answer.ptr = 0 ∨ sizeofMemhdr.toNat ≤ size.toNat) ∧
        (b ≠ 0 -> size = 0 -> answer.keep = true)
  | _ => True

/-- The condition on one step. -/
def HeaderCareful {Thread : Type} [DecidableEq Thread] {usesZeroBlocks : Bool} (family : Family)
    (pool : HookPool Thread usesZeroBlocks) : PoolLabel Thread Call Answer -> Prop
  | .call _ _ _ => True
  | .step t answer => forall due, pool.due t = some due -> CarefulAnswer family answer due

instance (family : Family) (answer : Answer) : (due : Call × HookOp) ->
    Decidable (CarefulAnswer family answer due)
  | (.malloc sz, o) => by
      apply @HookOp.casesOn (fun o => Decidable (CarefulAnswer family answer (.malloc sz, o))) o <;>
        intros <;> dsimp only [CarefulAnswer] <;> infer_instance
  | (.free b, o) => by
      apply @HookOp.casesOn (fun o => Decidable (CarefulAnswer family answer (.free b, o))) o <;>
        intros <;> dsimp only [CarefulAnswer] <;> infer_instance
  | (.realloc b sz, o) => by
      apply @HookOp.casesOn
        (fun o => Decidable (CarefulAnswer family answer (.realloc b sz, o))) o <;>
        intros <;> dsimp only [CarefulAnswer] <;> infer_instance

instance {Thread : Type} [DecidableEq Thread] {usesZeroBlocks : Bool} (family : Family)
    (pool : HookPool Thread usesZeroBlocks) : (l : PoolLabel Thread Call Answer) ->
    Decidable (HeaderCareful family pool l)
  | .call _ _ _ => instDecidableTrue
  | .step t answer =>
      inferInstanceAs (Decidable (forall due, due ∈ pool.due t -> CarefulAnswer family answer due))

/-- What a hook can rely on about a request of size 0. -/
def zeroAnswered (family : Family) : Call -> UInt64 -> Prop
  | .realloc b sz, q => sz = 0 -> q = 0 ∨ b = 0 ∧ family ≠ .stats
  | _, _ => True

theorem zeroResult_null {family : Family} {b q : UInt64}
    (answered : zeroAnswered family (.realloc b 0) q) : zeroResult family b q = 0 := by
  unfold zeroResult
  rcases answered rfl with null | ⟨null, traced⟩
  · rw [if_pos null]
  · rw [if_neg traced, null, ite_self]

theorem CarefulAnswer.answerOk {family : Family} {answer : Answer} {k : Call} {o : HookOp}
    (careful : CarefulAnswer family answer (k, o)) :
    AnswerOk True (zeroAnswered family) k answer o := by
  cases o with
  | libcMalloc size => exact fun _ granted => careful.resolve_left granted
  | libcRealloc p size =>
      cases k with
      | malloc sz => exact ⟨trivial, fun b sz impossible => by cases impossible⟩
      | free b => exact ⟨trivial, fun b sz impossible => by cases impossible⟩
      | realloc b sz =>
          rw [CarefulAnswer] at careful
          refine ⟨fun zeroSize => ?_, fun c size' same positive => ?_⟩
          · rw [if_pos zeroSize] at careful
            exact careful
          · cases same
            rw [if_neg positive] at careful
            exact ⟨fun _ granted => careful.1.resolve_left granted,
              fun isPointer none _ => careful.2 isPointer none⟩
  | _ => trivial

section Safety

variable {Thread : Type} [DecidableEq Thread] {client : Holdings Thread} {gs : Thread -> Hold}
  {w : World} {zero : Call -> UInt64 -> Prop} {k : Call} {t : Thread} {answer : Answer}

/-- The faults that are not the application's doing: libc's answer is none that
the standard allows, or the profile could not be created. -/
def Excused (fault : HookFault) : Prop := fault = .notLibc ∨ fault = .nullDereference

omit [DecidableEq Thread] in
/-- With all headers intact no operation of a hook goes wrong. -/
theorem custody_safe {o : HookOp} (inv : Custody True client w.heap gs) :
    (holding zero k).OpSafeAt Excused answer t o w gs := by
  intro fault may failed
  change o.exec answer w = .error fault at failed
  have held := inv.held t
  cases o with
  | libcMalloc size =>
      rw [HookOp.exec] at failed
      cases allocated : Libc.malloc w.heap size answer with
      | ok result => rw [allocated] at failed; cases failed
      | error reason =>
          rw [allocated] at failed
          cases failed
          exact Or.inl (malloc_fault allocated)
  | libcFree p =>
      rw [HookOp.exec, Libc.free] at failed
      rcases may with null | ⟨sz, holds⟩
      · rw [if_pos null] at failed
        cases failed
      · rw [holds] at held
        rcases held with ⟨block, found, -⟩
        rw [found] at failed
        split_ifs at failed
  | libcRealloc p size =>
      rcases may with ⟨starts, b, sz, rfl, rfl, rfl⟩
      rw [HookOp.exec] at failed
      cases answered : Libc.realloc w.heap (if b = 0 then 0 else b - sizeofMemhdr) (reallocSize sz)
          answer with
      | ok result => rw [answered] at failed; cases failed
      | error reason =>
          rw [answered] at failed
          cases failed
          refine Or.inl (realloc_fault (fun isPointer => ?_) answered)
          have notNull : b ≠ 0 := fun null => isPointer (if_pos null)
          rw [if_neg notNull]
          rcases argument_of_starts starts notNull with ⟨old, argument⟩
          exact held.live (Hold.block_of_argument argument)
  | loadMemhdr p =>
      rcases may with ⟨sz, argument⟩
      have headed : Headed w.heap p sz := held.headed argument
      rw [HookOp.exec, headed.memhdrAt] at failed
      cases failed
  | storeMemhdr p hdr =>
      rw [may.1] at held
      rcases held with ⟨block, found, room⟩
      simp only [HookOp.exec, memhdrAt, found, if_pos (room trivial)] at failed
      cases failed
  | abort => exact may.elim
  | mprofileAdd mp =>
      rw [HookOp.exec] at failed
      split_ifs at failed
      cases failed
      exact Or.inr rfl
  | insertTail mp mpr =>
      rw [HookOp.exec] at failed
      split_ifs at failed
      cases failed
      exact Or.inr rfl
  | addStack mp mps =>
      rw [HookOp.exec] at failed
      split_ifs at failed
      cases failed
      exact Or.inl rfl
  | _ => cases failed

end Safety

/-- The pool invariant of the hooks: all headers are intact. -/
def HookPool.Intact {Thread : Type} [DecidableEq Thread] {usesZeroBlocks : Bool} (roomy : Prop)
    (zero : Call -> UInt64 -> Prop) (family : Family)
    (pool : HookPool Thread usesZeroBlocks) : Prop :=
  Exists fun gs => Pool.Holds (holding zero) (holdEnds zero family) .nothing
    (fun client w gs => Custody roomy client w.heap gs) pool gs

section Runs

variable {Thread : Type} [DecidableEq Thread] {usesZeroBlocks : Bool} {roomy : Prop}
  {zero : Call -> UInt64 -> Prop} {family : Family} {tid : Thread -> Nat}

theorem HookPool.init_intact :
    (HookPool.init Thread usesZeroBlocks).Intact roomy zero family :=
  ⟨fun _ => .nothing, custody_init roomy, fun _ => rfl⟩

theorem HeaderCareful.labelSound {pool : HookPool Thread usesZeroBlocks} {gs : Thread -> Hold}
    {l : PoolLabel Thread Call Answer} (careful : HeaderCareful family pool l)
    (invariant : Custody True pool.client pool.shared.heap gs) :
    Pool.LabelSound (holding (zeroAnswered family))
      (fun client w gs => Custody True client w.heap gs) pool gs l := by
  cases l with
  | call t k answer => trivial
  | step t answer =>
      intro k program o busy here
      refine custody_op (CarefulAnswer.answerOk (careful (k, o) ?_)) invariant
      unfold HookPool.due
      rw [busy]
      simp only [here, Option.map_some]

variable (family tid) in
theorem intact_discipline :
    Pool.Discipline (C := application Thread true) (M := hookMachine) (fun _ => True)
      (fun t k => hook family (tid t) k) (holding (zeroAnswered family))
      (holdEnds (zeroAnswered family) family) .nothing
      (fun client w gs => Custody True client w.heap gs) :=
  custody_discipline family tid (fun _ _ _ answered => zeroResult_null answered)

/-- A careful step keeps all headers intact. -/
theorem HookPool.Intact.next {pool pool' : HookPool Thread true} {l : PoolLabel Thread Call Answer}
    (intact : pool.Intact True (zeroAnswered family) family) (careful : HeaderCareful family pool l)
    (stepped : pool.next family tid l = .ok pool') :
    pool'.Intact True (zeroAnswered family) family := by
  rcases intact with ⟨gs, holds⟩
  exact Pool.next_sound (intact_discipline family tid) holds trivial
    (careful.labelSound holds.invariant) stepped

/-- A careful step goes wrong in the excused ways only. -/
theorem HookPool.Intact.next_excused {pool : HookPool Thread true}
    {l : PoolLabel Thread Call Answer}
    {fault : HookFault} (intact : pool.Intact True (zeroAnswered family) family)
    (careful : HeaderCareful family pool l)
    (stepped : pool.next family tid l = .error (.fault fault)) : Excused fault := by
  rcases intact with ⟨gs, holds⟩
  refine Pool.next_safe (intact_discipline family tid) (fun _ _ _ _ _ _ _ _ inv => custody_safe inv)
    holds trivial (careful.labelSound holds.invariant) ?_ stepped
  cases l with
  | call t k answer => trivial
  | step t answer => exact fun _ _ _ _ _ => custody_safe holds.invariant

end Runs

/-- In runs with careful answers the application's pointers keep their headers,
and no hook aborts or touches memory that is not its own. -/
theorem headers_intact {Thread : Type} [DecidableEq Thread] (family : Family) (tid : Thread -> Nat)
    (labels : List (PoolLabel Thread Call Answer))
    (careful : Meets (HookPool.next family tid) (HeaderCareful family) (HookPool.init Thread true)
      labels) :
    (forall pool, exec (HookPool.next family tid) (HookPool.init Thread true) labels = .ok pool ->
        forall b sz, pool.client.owned b = some sz ->
          b ≠ 0 ∧ Headed pool.shared.heap (b - sizeofMemhdr) sz) ∧
      forall fault, exec (HookPool.next family tid) (HookPool.init Thread true) labels =
        .error (.fault fault) -> Excused fault := by
  refine ⟨fun pool executed => ?_, fun fault failed => ?_⟩
  · have intact := exec_invariant (HookPool.Intact True (zeroAnswered family) family)
      (fun pool l pool' intact met stepped => intact.next met stepped)
      HookPool.init_intact careful executed
    rcases intact with ⟨gs, holds⟩
    exact holds.invariant.owned
  · by_contra notExcused
    refine exec_never (HookPool.Intact True (zeroAnswered family) family) (.fault fault)
      (fun pool l pool' intact met stepped => intact.next met stepped)
      (fun pool l intact met stepped => notExcused (intact.next_excused met stepped))
      HookPool.init_intact careful failed

/-- One thread allocates a block and another one moves it. -/
def movingRun : List (PoolLabel (Fin 2) Call Answer) :=
  callOf threadA (.malloc 8) [0, 0, 4096, 0] ++ callOf threadB (.realloc 4112 24) [0, 0, 8192, 0]

theorem headers_intact_movingRun :
    Exists fun pool =>
      exec (HookPool.next .trace Fin.val) (HookPool.init (Fin 2) true) movingRun = .ok pool ∧
        pool.client.owned 4112 = none ∧ Headed pool.shared.heap 8192 24 := by
  have reached : Exists fun pool =>
      exec (HookPool.next .trace Fin.val) (HookPool.init (Fin 2) true) movingRun = .ok pool ∧
        pool.client.owned 4112 = none ∧ pool.client.owned 8208 = some 24 :=
    reaches_of_check (by decide +kernel)
  have careful : Meets (HookPool.next .trace Fin.val) (HeaderCareful .trace)
      (HookPool.init (Fin 2) true) movingRun := meets_of_check (by decide +kernel)
  rcases reached with ⟨pool, executed, released, isOwned⟩
  have intact := (headers_intact .trace Fin.val movingRun careful).1 pool executed 8208 24 isOwned
  exact ⟨pool, executed, released, intact.2⟩

/-- `realloc (NULL, 0)` answered with a block: the stats hook returns a pointer
for which it wrote no header. -/
def zeroBlockRun : List (PoolLabel Unit Call Answer) :=
  callOf () (.realloc 0 0) [4096]

theorem zeroBlockRun_notIntact :
    ¬ forall (labels : List (PoolLabel Unit Call Answer)) pool,
      exec (HookPool.next .stats (fun _ => 0)) (HookPool.init Unit true) labels = .ok pool ->
        forall b sz, pool.client.owned b = some sz ->
          b ≠ 0 ∧ Headed pool.shared.heap (b - sizeofMemhdr) sz := by
  intro always
  rcases (always zeroBlockRun _ rfl 4112 0 rfl).2 with ⟨block, found, room, -⟩
  cases found
  exact absurd room (by decide)

end Mprofile
end OsslScripts
