import Mathlib.Algebra.BigOperators.Pi
import Mathlib.Algebra.BigOperators.Ring.Finset
import Mathlib.Algebra.Order.Ring.Int
import Mathlib.Tactic.Abel
import OsslScripts.Foundation.Observer
import OsslScripts.Mprofile.Accounts

namespace OsslScripts
namespace Mprofile

open Foundation

/-!
# The stats counters conserve memory

The worth of the application's blocks and the accounts of the calls in progress
together are what the counters say, in every state of every interleaving.  When
no call is in progress the accounts are empty, and the counters are those of
the live blocks.  The sum of what was added to `ms_current` and subtracted from
it is kept by an observer, as an integer.

The exception is `realloc (b, sz)` for the one size for which `sz + 16` wraps
around to 0: libc releases the block, and the hook takes the null pointer that
it gets for a failure.
-/

/-- The size in the header of a live block. -/
def liveHeader (heap : UInt64 -> Option Block) (p : UInt64) : Option UInt64 :=
  match memhdrAt heap p with
  | none => none
  | some hdr => if hdr.mhChk = mkChk p hdr.mhSize then some hdr.mhSize else none

/-- The sum of the deltas that were applied to `ms_current`. -/
def tally (sum : Int) (o : HookOp) (_ : World) : Int := sum + o.change.1

abbrev tallyMachine : Machine := hookMachine.observed tally

/-- Threads that call the stats hooks.  `realloc (x, 0)` ends the life of `x`. -/
abbrev StatsPool (Thread : Type) [DecidableEq Thread] : Type :=
  Pool tallyMachine (application Thread false)

def StatsPool.init (Thread : Type) [DecidableEq Thread] : StatsPool Thread :=
  ⟨(World.init, 0), Holdings.none, fun _ => none⟩

abbrev StatsPool.next {Thread : Type} [DecidableEq Thread] (tid : Thread -> Nat) :
    StatsPool Thread -> PoolLabel Thread Call Answer ->
      Except (Stop HookFault) (StatsPool Thread) :=
  Pool.next (M := tallyMachine) (fun t k => hook .stats (tid t) k)

/-- Libc's `realloc (p, 0)` releases `p`. -/
def Releases (answer : Answer) : HookOp -> Prop
  | .libcRealloc p size => p ≠ 0 -> size = 0 -> answer.keep = false
  | _ => True

instance (answer : Answer) (o : HookOp) : Decidable (Releases answer o) := by
  apply @HookOp.casesOn (fun o => Decidable (Releases answer o)) o <;>
    intros <;> dsimp only [Releases] <;> infer_instance

def ReleasesZero {Thread : Type} [DecidableEq Thread] (pool : StatsPool Thread) :
    PoolLabel Thread Call Answer -> Prop
  | .call _ _ _ => True
  | .step t answer => forall o, o ∈ pool.headOf t -> Releases answer o

/-- The size with the header does not wrap around to 0. -/
def Resizable : Call -> Prop
  | .realloc b sz => b ≠ 0 -> sz + sizeofMemhdr ≠ 0
  | _ => True

instance : (k : Call) -> Decidable (Resizable k)
  | .malloc _ => instDecidableTrue
  | .free _ => instDecidableTrue
  | .realloc b sz => inferInstanceAs (Decidable (b ≠ 0 -> sz + sizeofMemhdr ≠ 0))

def ResizableCalls {Thread : Type} [DecidableEq Thread] (_ : StatsPool Thread) :
    PoolLabel Thread Call Answer -> Prop
  | .call _ k _ => Resizable k
  | .step _ _ => True

instance {Thread : Type} [DecidableEq Thread] (pool : StatsPool Thread) :
    (l : PoolLabel Thread Call Answer) -> Decidable (ReleasesZero pool l)
  | .call _ _ _ => instDecidableTrue
  | .step t answer => inferInstanceAs (Decidable (forall o, o ∈ pool.headOf t -> Releases answer o))

instance {Thread : Type} [DecidableEq Thread] (pool : StatsPool Thread) :
    (l : PoolLabel Thread Call Answer) -> Decidable (ResizableCalls pool l)
  | .call _ k _ => inferInstanceAs (Decidable (Resizable k))
  | .step _ _ => instDecidableTrue

theorem releases_of_silent {answer : Answer} {o : HookOp} (quiet : o.silent = true) :
    Releases answer o := by
  cases o with
  | libcRealloc p size => cases quiet
  | _ => trivial

/-! ## Every block is in someone's hands -/

/-- A live block with room for a header belongs to the application or to a call. -/
def Complete {Thread : Type} (client : Holdings Thread) (heap : UInt64 -> Option Block)
    (holds : Thread -> Hold) : Prop :=
  forall p block, heap p = some block -> sizeofMemhdr.toNat ≤ block.size ->
    client.owned (p + sizeofMemhdr) ≠ none ∨ Exists fun t => (holds t).block = some p

section Blocks

variable {Thread : Type} [DecidableEq Thread] {client : Holdings Thread}
  {heap heap' : UInt64 -> Option Block} {holds : Thread -> Hold} {t : Thread} {answer : Answer}

/-- One thread changes its block. -/
theorem Complete.change (complete : Complete client heap holds) (t : Thread) (g : Hold)
    (origin : forall p block, heap' p = some block -> sizeofMemhdr.toNat ≤ block.size ->
      g.block = some p ∨ ((holds t).block ≠ some p ∧ Exists fun block =>
        heap p = some block ∧ sizeofMemhdr.toNat ≤ block.size)) :
    Complete client heap' (Function.update holds t g) := by
  intro p block found room
  rcases origin p block found room with mine | ⟨notMine, old, before, oldRoom⟩
  · exact Or.inr ⟨t, by rw [Function.update_self]; exact mine⟩
  · rcases complete p old before oldRoom with isOwned | ⟨u, isU⟩
    · exact Or.inl isOwned
    · have different : u ≠ t := by
        rintro rfl
        exact notMine isU
      exact Or.inr ⟨u, by rw [Function.update_of_ne different]; exact isU⟩

/-- The heap stays as it is, and so does the thread's block. -/
theorem Complete.sameBlock (complete : Complete client heap holds) (t : Thread) (g : Hold)
    (same : g.block = (holds t).block) : Complete client heap (Function.update holds t g) := by
  refine complete.change t g (fun p block found room => ?_)
  by_cases mine : (holds t).block = some p
  · exact Or.inl (same.trans mine)
  · exact Or.inr ⟨mine, block, found, room⟩

/-- What `malloc` leaves on the heap. -/
theorem malloc_blocks {size q : UInt64} (allocated : Libc.malloc heap size answer = .ok (heap', q))
    {p : UInt64} {block : Block} (found : heap' p = some block)
    (room : sizeofMemhdr.toNat ≤ block.size) :
    heap p = some block ∨ (q ≠ 0 ∧ p = q ∧ size ≠ 0) := by
  unfold Libc.malloc at allocated
  split_ifs at allocated with null legal
  · cases allocated
    exact Or.inl found
  · cases allocated
    by_cases same : p = answer.ptr
    · subst same
      rw [Function.update_self] at found
      cases found
      refine Or.inr ⟨null, rfl, fun zeroSize => ?_⟩
      subst zeroSize
      have impossible : sizeofMemhdr.toNat ≤ (0 : UInt64).toNat := room
      exact absurd impossible (by decide)
    · rw [Function.update_of_ne same] at found
      exact Or.inl found

/-- What `realloc` of a block leaves on the heap. -/
theorem realloc_blocks {mh size q : UInt64} (isPointer : mh ≠ 0)
    (releases : size = 0 -> answer.keep = false)
    (answered : Libc.realloc heap mh size answer = .ok (heap', q)) {p : UInt64} {block : Block}
    (found : heap' p = some block) (room : sizeofMemhdr.toNat ≤ block.size) :
    (p ≠ mh ∧ heap p = some block) ∨ (size ≠ 0 ∧ q = 0 ∧ heap p = some block) ∨
      (size ≠ 0 ∧ q ≠ 0 ∧ p = q) := by
  unfold Libc.realloc at answered
  rw [if_neg isPointer] at answered
  cases before : heap mh with
  | none => simp only [before] at answered; cases answered
  | some old =>
      simp only [before] at answered
      split_ifs at answered with zeroSize kept null legal
      · rw [releases zeroSize] at kept
        cases kept.2
      · rcases malloc_blocks answered found room with same | ⟨-, -, positive⟩
        · by_cases here : p = mh
          · subst here
            rw [Function.update_self] at same
            cases same
          · rw [Function.update_of_ne here] at same
            exact Or.inl ⟨here, same⟩
        · exact absurd zeroSize positive
      · cases answered
        exact Or.inr (Or.inl ⟨zeroSize, rfl, found⟩)
      · cases answered
        by_cases new : p = answer.ptr
        · exact Or.inr (Or.inr ⟨zeroSize, null, new⟩)
        · rw [Function.update_of_ne new] at found
          by_cases here : p = mh
          · subst here
            rw [Function.update_self] at found
            cases found
          · rw [Function.update_of_ne here] at found
            exact Or.inl ⟨here, found⟩

/-- The size that the hook asks for is 0 for `realloc (b, 0)` only. -/
theorem reallocSize_zero {b sz : UInt64} (fine : Resizable (.realloc b sz)) (isPointer : b ≠ 0)
    (zeroSize : reallocSize sz = 0) : sz = 0 := by
  unfold reallocSize at zeroSize
  split_ifs at zeroSize with positive
  · exact absurd zeroSize (fine isPointer)
  · exact not_not.mp positive

variable {zero : Call -> UInt64 -> Prop} {k : Call} {w w' : World}

/-- Every operation leaves every block in someone's hands. -/
theorem complete_op {o : HookOp} {r : o.Res}
    (releases : Releases answer o)
    (complete : Complete client w.heap holds) (ok : (holds t).Ok False w.heap)
    (wf : HeapWf w.heap) (may : (holding zero k).may (holds t) o)
    (executed : o.exec answer w = .ok (w', r)) :
    Complete client w'.heap (Function.update holds t ((holding zero k).after (holds t) o r)) := by
  cases o with
  | libcMalloc size =>
      rw [HookOp.exec] at executed
      cases allocated : Libc.malloc w.heap size answer with
      | error fault => rw [allocated] at executed; cases executed
      | ok result =>
          rw [allocated] at executed
          cases executed
          rw [may.1]
          refine complete.change t _ (fun p block found room => ?_)
          rw [may.1]
          rcases malloc_blocks allocated found room with same | ⟨granted, rfl, -⟩
          · exact Or.inr ⟨fun impossible => (by cases impossible), block, same, room⟩
          · refine Or.inl ?_
            change (if result.2 = 0 then Hold.nothing else .bare result.2).block = _
            rw [if_neg granted]
            rfl
  | libcFree p =>
      rw [HookOp.exec] at executed
      unfold Libc.free at executed
      by_cases null : p = 0
      · rw [if_pos null] at executed
        cases executed
        refine complete.sameBlock t _ ?_
        change (if p = 0 then holds t else _).block = _
        rw [if_pos null]
      · rw [if_neg null] at executed
        rcases may with isNull | ⟨sz, isMine⟩
        · exact absurd isNull null
        · cases found : w.heap p with
          | none => rw [found] at executed; cases executed
          | some old =>
              rw [found] at executed
              cases executed
              refine complete.change t _ (fun q block here room => ?_)
              have different : q ≠ p := by
                rintro rfl
                simp only [Function.update_self] at here
                cases here
              simp only [Function.update_of_ne different] at here
              refine Or.inr ⟨fun same => different ?_, block, here, room⟩
              rw [isMine] at same
              cases same
              rfl
  | libcRealloc p size =>
      rw [HookOp.exec] at executed
      cases answered : Libc.realloc w.heap p size answer with
      | error fault => rw [answered] at executed; cases executed
      | ok result =>
          rw [answered] at executed
          cases executed
          rcases may with ⟨starts, b, sz, rfl, rfl, rfl⟩
          refine complete.change t _ (fun q block found room => ?_)
          rw [after_libcRealloc starts]
          by_cases isNull : b = 0
          · have idle : (holds t).block = none := by
              rw [holdStarts] at starts
              split_ifs at starts
              · rcases starts with ⟨-, void⟩ | ⟨pointer, -⟩
                · rw [void]; rfl
                · exact absurd isNull pointer.1
              · rcases starts with ⟨-, nothing⟩ | ⟨pointer, -⟩
                · rw [nothing]; rfl
                · exact absurd isNull pointer.1
            rw [if_pos isNull, Libc.realloc, if_pos rfl] at answered
            rw [idle]
            rcases malloc_blocks answered found room with same | ⟨granted, rfl, positive⟩
            · exact Or.inr ⟨fun impossible => (by cases impossible), block, same, room⟩
            · have notZero : sz ≠ 0 := by
                rintro rfl
                exact positive rfl
              rw [if_neg notZero, if_neg granted]
              exact Or.inl rfl
          · rcases argument_of_starts starts isNull with ⟨old, argument⟩
            have isMine := Hold.block_of_argument argument
            rw [if_neg isNull] at answered
            have live : b - sizeofMemhdr ≠ 0 := by
              cases found : w.heap (b - sizeofMemhdr) with
              | none => exact absurd found (ok.live isMine)
              | some block => exact (wf _ block found).1
            have freed : reallocSize sz = 0 -> answer.keep = false :=
              releases (by rw [if_neg isNull]; exact live)
            rw [isMine]
            rcases realloc_blocks live freed answered found room with
              ⟨different, same⟩ | ⟨positive, null, same⟩ | ⟨positive, granted, rfl⟩
            · exact Or.inr ⟨fun impossible => different (Option.some.inj impossible).symm,
                block, same,
                room⟩
            · have notZero : sz ≠ 0 := by
                rintro rfl
                exact positive rfl
              rw [if_neg notZero, if_pos null]
              by_cases here : q = b - sizeofMemhdr
              · rw [isMine, here]
                exact Or.inl rfl
              · exact Or.inr ⟨fun impossible => here (Option.some.inj impossible).symm, block, same,
                  room⟩
            · have notZero : sz ≠ 0 := by
                rintro rfl
                exact positive rfl
              rw [if_neg notZero, if_neg granted]
              exact Or.inl rfl
  | storeMemhdr p hdr =>
      rw [HookOp.exec] at executed
      have isMine : (holds t).block = some p := by
        rw [may.1]
        rfl
      cases before : w.heap p with
      | none => simp only [before] at executed; cases executed
      | some old =>
          cases header : memhdrAt w.heap p with
          | none => simp only [before, header] at executed; cases executed
          | some oldHdr =>
              simp only [before, header] at executed
              cases executed
              refine complete.change t _ (fun q block found room => ?_)
              by_cases here : q = p
              · subst here
                exact Or.inl rfl
              · simp only [Function.update_of_ne here] at found
                refine Or.inr ⟨fun same => here ?_, block, found, room⟩
                rw [isMine] at same
                exact (Option.some.inj same).symm
  | loadMemhdr p =>
      rw [HookOp.exec] at executed
      cases header : memhdrAt w.heap p with
      | none => rw [header] at executed; cases executed
      | some hdr =>
          rw [header] at executed
          cases executed
          exact complete.sameBlock t _ rfl
  | abort => cases executed
  | _ =>
      have same : w'.heap = w.heap := by
        refine Blockless.sameHeap ?_ executed
        exact trivial
      rw [same]
      exact complete.sameBlock t _ rfl

end Blocks

/-! ## The books -/

/-- What the application's pointer contributes. -/
def ownedWorth : Option UInt64 -> Figures
  | none => 0
  | some sz => worth sz

/-- What the counters say, modulo `2 ^ 64`. -/
def Memstats.Reads (ms : Memstats) (f : Figures) : Prop :=
  ms.msCurrent = UInt64.ofInt f.1 ∧
    ms.msTotalAllocated - ms.msTotalReleased = UInt64.ofInt f.2.1 ∧
      ms.msAllocs - ms.msFree = UInt64.ofInt f.2.2

/-- The application's blocks and the accounts of the calls make up the counters. -/
structure Books {Thread : Type} (client : Holdings Thread) (w : World) (sum : Int)
    (holds : Thread -> Hold) (accounts : Thread -> Account) : Prop where
  complete : Complete client w.heap holds
  argument : forall t mh sz, (holds t).argument = some (mh, sz) -> (accounts t).size = sz
  positive : forall t, 0 ≤ (accounts t).figures.1
  balanced : Exists fun ours => Exists fun theirs => Totals ownedWorth client.owned ours ∧
    Totals Account.figures accounts theirs ∧ sum = (ours + theirs).1 ∧ w.ms.Reads (ours + theirs)

section Books

variable {Thread : Type} [DecidableEq Thread] {client : Holdings Thread} {holds : Thread -> Hold}
  {accounts : Thread -> Account} {t : Thread} {answer : Answer} {w w' : World} {sum : Int}
  {zero : Call -> UInt64 -> Prop} {k : Call}

theorem ofInt_natCast (n : Nat) : UInt64.ofInt (n : Int) = UInt64.ofNat n := by
  have reduced : ((n : Int) % 2 ^ 64).toNat = n % 2 ^ 64 := by omega
  rw [UInt64.ofInt, reduced]
  exact UInt64.ofNat_mod_size

theorem ofInt_toNat (d : UInt64) : UInt64.ofInt (d.toNat : Int) = d := by
  rw [ofInt_natCast, UInt64.ofNat_toNat]

theorem reads_init : World.init.ms.Reads 0 := by
  refine ⟨?_, ?_, ?_⟩ <;> decide

/-- The operations that change counters. -/
def Counts : HookOp -> Prop
  | .addFetch _ _ => True
  | .subFetch _ _ => True
  | _ => False

/-- The other operations leave them alone. -/
theorem sameCounters {o : HookOp} {r : o.Res} (other : ¬ Counts o)
    (executed : o.exec answer w = .ok (w', r)) : w'.ms = w.ms ∧ o.change = 0 := by
  cases o with
  | addFetch c d => exact absurd trivial other
  | subFetch c d => exact absurd trivial other
  | abort => cases executed
  | _ =>
      simp only [HookOp.exec] at executed
      first
        | (cases executed; exact ⟨rfl, rfl⟩)
        | (split at executed <;> cases executed; exact ⟨rfl, rfl⟩)

/-- An operation changes the counters by its figures. -/
theorem reads_op {o : HookOp} {r : o.Res} {g : Account} {f : Figures} (may : accounting.may g o)
    (reads : w.ms.Reads f) (executed : o.exec answer w = .ok (w', r)) :
    w'.ms.Reads (f + o.change) := by
  rcases reads with ⟨current, totals, counts⟩
  cases o with
  | addFetch c d =>
      cases executed
      have amount := ofInt_toNat d
      cases c <;> refine ⟨?_, ?_, ?_⟩ <;>
        simp [HookOp.change, Memstats.set, Memstats.get, amount, ← current, ← totals, ← counts] <;>
        grind
  | subFetch c d =>
      cases executed
      have amount := ofInt_toNat d
      rcases may with ⟨rfl, -⟩
      refine ⟨?_, ?_, ?_⟩ <;>
        simp only [HookOp.change, Memstats.set, Memstats.get, Prod.fst_add, Prod.snd_add, add_zero,
          UInt64.ofInt_add, UInt64.ofInt_neg, amount, ← current, ← totals, ← counts]
      grind
  | _ =>
      have unchanged := sameCounters (by exact fun impossible => impossible) executed
      rw [unchanged.1, unchanged.2, add_zero]
      exact ⟨current, totals, counts⟩

theorem argument_after {g : Hold} {o : HookOp} {r : o.Res} {block : UInt64 × UInt64}
    (argument : ((holding zero k).after g o r).argument = some block) :
    g.argument = some block := by
  cases o with
  | libcMalloc size =>
      change (if r = 0 then Hold.nothing else .bare r).argument = _ at argument
      split_ifs at argument <;> cases argument
  | libcFree p =>
      change (if p = 0 then g else .nothing).argument = _ at argument
      split_ifs at argument
      · exact argument
      · cases argument
  | libcRealloc p size =>
      cases g with
      | dying mh sz => cases argument
      | void => cases argument
      | _ =>
          change (if r = 0 then _ else Hold.bare r).argument = _ at argument
          split_ifs at argument
          · exact argument
          · cases argument
  | storeMemhdr p hdr => cases argument
  | _ => exact argument

theorem change_positive {o : HookOp} {g : Account} (may : accounting.may g o)
    (positive : 0 ≤ g.figures.1) : 0 ≤ (g.figures + o.change).1 := by
  rw [Prod.fst_add]
  cases o with
  | addFetch c d => cases c <;> simp only [HookOp.change, Prod.fst_zero] <;> omega
  | subFetch c d =>
      rcases may with ⟨rfl, enough⟩
      simp only [HookOp.change]
      omega
  | _ => simpa only [HookOp.change, Prod.fst_zero, add_zero] using positive

/-- Every operation keeps the books. -/
theorem books_op {o : HookOp} {r : o.Res}
    (releases : Releases answer o)
    (custody : Custody False client w.heap holds) (books : Books client w sum holds accounts)
    (mayHold : (holding zero k).may (holds t) o) (mayAccount : accounting.may (accounts t) o)
    (executed : o.exec answer w = .ok (w', r)) :
    Books client w' (tally sum o w) (Function.update holds t ((holding zero k).after (holds t) o r))
      (Function.update accounts t (accounting.after (accounts t) o r)) where
  complete := complete_op releases books.complete (custody.held t) custody.heapWf mayHold executed
  argument := fun u mh sz argument => by
    by_cases here : u = t
    · subst here
      rw [Function.update_self] at argument ⊢
      exact books.argument u mh sz (argument_after argument)
    · rw [Function.update_of_ne here] at argument ⊢
      exact books.argument u mh sz argument
  positive := fun u => by
    by_cases here : u = t
    · subst here
      rw [Function.update_self]
      exact change_positive mayAccount (books.positive u)
    · rw [Function.update_of_ne here]
      exact books.positive u
  balanced := by
    rcases books.balanced with ⟨ours, theirs, owned, held, same, reads⟩
    have held' := held.update t (accounting.after (accounts t) o r)
    have gained : theirs - (accounts t).figures + (accounting.after (accounts t) o r).figures =
        theirs + o.change := by
      change theirs - (accounts t).figures + ((accounts t).figures + o.change) = _
      rw [← add_assoc, sub_add_cancel]
    rw [gained] at held'
    refine ⟨ours, theirs + o.change, owned, held', ?_, ?_⟩
    · rw [tally, same, ← add_assoc]
      rfl
    · rw [← add_assoc]
      exact reads_op mayAccount reads executed

/-- What the thread's account loses the application gains. -/
theorem Books.change (books : Books client w sum holds accounts)
    {client' : Holdings Thread} (t : Thread) (g : Hold) (account : Account)
    (complete : Complete client' w.heap (Function.update holds t g))
    (argument : forall mh sz, g.argument = some (mh, sz) -> account.size = sz)
    (positive : 0 ≤ account.figures.1)
    (gains : forall ours, Totals ownedWorth client.owned ours ->
      Totals ownedWorth client'.owned (ours + ((accounts t).figures - account.figures))) :
    Books client' w sum (Function.update holds t g) (Function.update accounts t account) := by
  refine ⟨complete, fun u mh sz isU => ?_, fun u => ?_, ?_⟩
  · by_cases here : u = t
    · subst here
      rw [Function.update_self] at isU ⊢
      exact argument mh sz isU
    · rw [Function.update_of_ne here] at isU ⊢
      exact books.argument u mh sz isU
  · by_cases here : u = t
    · subst here
      rw [Function.update_self]
      exact positive
    · rw [Function.update_of_ne here]
      exact books.positive u
  · rcases books.balanced with ⟨ours, theirs, owned, held, same, reads⟩
    have total : ours + ((accounts t).figures - account.figures) +
        (theirs - (accounts t).figures + account.figures) = ours + theirs := by abel
    exact ⟨_, _, gains ours owned, held.update t account, by rw [total]; exact same,
      by rw [total]; exact reads⟩

/-- The thread has no block before and after, and its account stays empty. -/
theorem Books.idle (books : Books client w sum holds accounts) {g : Hold}
    (noBlock : (holds t).block = none) (settled : (accounts t).figures = 0) (idle : g.block = none)
    (noArgument : g.argument = none) :
    Books client w sum (Function.update holds t g) (Function.update accounts t ⟨0, 0⟩) := by
  refine books.change t g ⟨0, 0⟩ (books.complete.sameBlock t g (by rw [idle, noBlock]))
    (fun mh sz argument => ?_) (Int.le_refl 0) (fun ours owned => ?_)
  · rw [noArgument] at argument
    cases argument
  · rw [settled, sub_self, add_zero]
    exact owned

/-- A call takes the block of its argument. -/
theorem Books.claim (books : Books client w sum holds accounts) {client' : Holdings Thread}
    {b sz : UInt64} {g : Hold} (isPointer : b ≠ 0) (claimed : client.claim t b = some client')
    (idle : holds t = .nothing) (empty : (accounts t).figures = 0)
    (argument : g.argument = some (b - sizeofMemhdr, sz))
    (isOwned : client.owned b = some sz) :
    Books client' w sum (Function.update holds t g)
      (Function.update accounts t ⟨sz, worth sz⟩) := by
  unfold Holdings.claim at claimed
  rw [if_neg isPointer, isOwned] at claimed
  cases claimed
  refine books.change t g ⟨sz, worth sz⟩ (fun p block found room => ?_) (fun mh size same => ?_)
    (Int.natCast_nonneg _) (fun ours owned => ?_)
  · by_cases mine : p + sizeofMemhdr = b
    · subst mine
      refine Or.inr ⟨t, ?_⟩
      rw [Function.update_self, Hold.block_of_argument argument, add_sub_sizeofMemhdr]
    · rcases books.complete p block found room with kept | ⟨u, isU⟩
      · refine Or.inl ?_
        simp only [Function.update_of_ne mine]
        exact kept
      · have different : u ≠ t := by
          rintro rfl
          rw [idle] at isU
          cases isU
        exact Or.inr ⟨u, by rw [Function.update_of_ne different]; exact isU⟩
  · rw [argument] at same
    cases same
    rfl
  · have owned' := owned.update b none
    rw [isOwned] at owned'
    have total : ours + ((accounts t).figures - worth sz) =
        ours - ownedWorth (some sz) + ownedWorth none := by
      rw [empty]
      change ours + (0 - worth sz) = ours - worth sz + 0
      abel
    rw [total]
    exact owned'

/-- A call gives its block to the application. -/
theorem Books.give (books : Books client w sum holds accounts) {b sz : UInt64} (isPointer : b ≠ 0)
    (free : client.owned b = none) (isBlock : (holds t).block = some (b - sizeofMemhdr))
    (settled : (accounts t).figures = worth sz) :
    Books (client.give b sz) w sum (Function.update holds t .nothing)
      (Function.update accounts t ⟨0, 0⟩) := by
  rw [Holdings.give, if_neg isPointer]
  refine books.change t .nothing ⟨0, 0⟩ (fun p block found room => ?_)
    (fun mh size impossible => by cases impossible) (Int.le_refl 0) (fun ours owned => ?_)
  · by_cases mine : p + sizeofMemhdr = b
    · subst mine
      refine Or.inl ?_
      simp only [Function.update_self]
      exact Option.some_ne_none sz
    · rcases books.complete p block found room with isOwned | ⟨u, isU⟩
      · refine Or.inl ?_
        simp only [Function.update_of_ne mine]
        exact isOwned
      · have different : u ≠ t := by
          rintro rfl
          rw [isBlock] at isU
          cases isU
          exact mine (sub_add_sizeofMemhdr b)
        exact Or.inr ⟨u, by rw [Function.update_of_ne different]; exact isU⟩
  · have owned' := owned.update b (some sz)
    rw [free] at owned'
    have total : ours + ((accounts t).figures - 0) =
        ours - ownedWorth none + ownedWorth (some sz) := by
      rw [settled]
      change ours + (worth sz - 0) = ours - 0 + worth sz
      abel
    rw [total]
    exact owned'

theorem Headed.unique {heap : UInt64 -> Option Block} {mh sz sz' : UInt64}
    (first : Headed heap mh sz) (second : Headed heap mh sz') : sz = sz' := by
  have same := first.memhdrAt.symm.trans second.memhdrAt
  cases same
  rfl

/-- A call that starts takes the worth of its argument with it. -/
theorem books_start {client' : Holdings Thread} {g : Hold} {usesZeroBlocks : Bool}
    (started : (application Thread usesZeroBlocks).start t k client = some client')
    (custody : Custody False client w.heap holds)
    (custody' : Custody False client' w.heap (Function.update holds t g)) (starts : holdStarts k g)
    (idle : holds t = .nothing) (empty : accounts t = ⟨0, 0⟩)
    (books : Books client w sum holds accounts) :
    Exists fun account => accountStarts k account ∧
      Books client' w sum (Function.update holds t g) (Function.update accounts t account) := by
  have noBlock : (holds t).block = none := by rw [idle]; rfl
  have settled : (accounts t).figures = 0 := by rw [empty]
  have headed : forall mh sz, g.argument = some (mh, sz) -> Headed w.heap mh sz := by
    intro mh sz argument
    have ok := custody'.held t
    rw [Function.update_self] at ok
    exact Hold.Ok.headed ok argument
  -- The argument of `free` and of `realloc` is the null pointer or a block of the application.
  have argued : forall b, client.claim t b = some client' ->
      (b = 0 ∧ g.block = none ∧ g.argument = none ∨
        b ≠ 0 ∧ Exists fun sz => g.argument = some (b - sizeofMemhdr, sz)) ->
      Exists fun account : Account => account.figures = argumentWorth b account.size ∧
        Books client' w sum (Function.update holds t g) (Function.update accounts t account) := by
    rintro b claimed (⟨rfl, isIdle, noArgument⟩ | ⟨isPointer, sz, argument⟩)
    · cases claimed
      exact ⟨⟨0, 0⟩, rfl, books.idle noBlock settled isIdle noArgument⟩
    · cases isOwned : client.owned b with
      | none =>
          rw [Holdings.claim, if_neg isPointer, isOwned] at claimed
          cases claimed
      | some size =>
          have same : size = sz :=
            (custody.owned b size isOwned).2.unique (headed _ sz argument)
          subst same
          refine ⟨⟨size, worth size⟩, ?_,
            books.claim isPointer claimed idle settled argument isOwned⟩
          rw [argumentWorth, if_neg isPointer]
  cases k with
  | malloc sz =>
      cases started
      have nothing : g = .nothing := starts
      subst nothing
      exact ⟨⟨0, 0⟩, rfl, books.idle noBlock settled rfl rfl⟩
  | free b =>
      refine argued b started ?_
      rcases starts with ⟨null, rfl⟩ | ⟨pointer, sz, rfl⟩
      · exact Or.inl ⟨null, rfl, rfl⟩
      · exact Or.inr ⟨pointer.1, sz, rfl⟩
  | realloc b sz =>
      refine argued b started ?_
      rw [holdStarts] at starts
      split_ifs at starts
      · rcases starts with ⟨null, rfl⟩ | ⟨pointer, old, rfl⟩
        · exact Or.inl ⟨null, rfl, rfl⟩
        · exact Or.inr ⟨pointer.1, old, rfl⟩
      · rcases starts with ⟨null, rfl⟩ | ⟨pointer, old, rfl⟩
        · exact Or.inl ⟨null, rfl, rfl⟩
        · exact Or.inr ⟨pointer.1, old, rfl⟩

/-- A call that returns has settled its account. -/
theorem books_finish {rv : UInt64} (custody : Custody False client w.heap holds)
    (books : Books client w sum holds accounts) (endsHold : holdEnds zero .stats k (holds t) rv)
    (endsAccount : accountEnds k (accounts t) rv) :
    Books ((application Thread false).finish t k rv client) w sum
      (Function.update holds t .nothing) (Function.update accounts t ⟨0, 0⟩) := by
  have dropped : holds t = .nothing -> (accounts t).figures = 0 ->
      Books client w sum (Function.update holds t .nothing) (Function.update accounts t ⟨0, 0⟩) :=
    fun nothing settled => books.idle (by rw [nothing]; rfl) settled rfl rfl
  have free : forall b, (holds t).block = some (b - sizeofMemhdr) -> client.owned b = none := by
    intro b isBlock
    have absent := custody.apartOwned t _ isBlock
    rw [sub_add_sizeofMemhdr] at absent
    exact absent
  cases k with
  | malloc sz =>
      change (accounts t).figures = if rv = 0 then 0 else worth sz at endsAccount
      rcases endsHold with ⟨rfl, nothing⟩ | ⟨isPointer, made⟩
      · exact dropped nothing endsAccount
      · rw [if_neg isPointer] at endsAccount
        have isBlock : (holds t).block = some (rv - sizeofMemhdr) := by rw [made]; rfl
        exact books.give isPointer (free rv isBlock) isBlock endsAccount
  | free b => exact dropped endsHold endsAccount
  | realloc b sz =>
      change Books (if sz = 0 then _ else _) w sum _ _
      rw [accountEnds] at endsAccount
      rw [holdEnds] at endsHold
      by_cases zeroSize : sz = 0
      · rw [if_pos zeroSize] at endsAccount endsHold ⊢
        exact dropped endsHold.1 endsAccount
      · rw [if_neg zeroSize] at endsAccount endsHold ⊢
        rcases endsHold with ⟨failed, null, nothing⟩ | ⟨failed, isPointer, old, claimed⟩ |
          ⟨isPointer, made⟩
        · rw [if_pos failed, argumentWorth, if_pos null] at endsAccount
          rw [if_pos failed, Holdings.give, if_pos null]
          exact dropped nothing endsAccount
        · have isBlock : (holds t).block = some (b - sizeofMemhdr) := by rw [claimed]; rfl
          have size : (accounts t).size = old := books.argument t _ old (by rw [claimed]; rfl)
          rw [if_pos failed, argumentWorth, if_neg isPointer, size] at endsAccount
          rw [if_pos failed, custody.claimed t _ old claimed]
          exact books.give isPointer (free b isBlock) isBlock endsAccount
        · have isBlock : (holds t).block = some (rv - sizeofMemhdr) := by rw [made]; rfl
          rw [if_neg isPointer] at endsAccount ⊢
          exact books.give isPointer (free rv isBlock) isBlock endsAccount

end Books

/-! ## The threads together -/

/-- The custody of the blocks and the books, over pairs of ghost values. -/
def Conserved {Thread : Type} (client : Holdings Thread) (s : World × Int)
    (gs : Thread -> Hold × Account) : Prop :=
  Custody False client s.1.heap (fun t => (gs t).1) ∧
    Books client s.1 s.2 (fun t => (gs t).1) (fun t => (gs t).2)

section Runs

variable {Thread : Type} [DecidableEq Thread] {client : Holdings Thread}
  {gs : Thread -> Hold × Account}
  {t : Thread} {answer : Answer} {k : Call} {s : World × Int}

/-- A call of a stats hook owns blocks and keeps an account. -/
def conserving (k : Call) : Protocol tallyMachine (Hold × Account) :=
  ((holding anyAnswer k).prod accounting).observed tally

def conservingEnds (k : Call) (g : Hold × Account) (rv : UInt64) : Prop :=
  holdEnds anyAnswer .stats k g.1 rv ∧ accountEnds k g.2 rv

/-- The claim on a pair of ghost values, componentwise. -/
theorem conserved_update {g : Hold × Account}
    (custody : Custody False client s.1.heap (Function.update (fun u => (gs u).1) t g.1))
    (books : Books client s.1 s.2 (Function.update (fun u => (gs u).1) t g.1)
      (Function.update (fun u => (gs u).2) t g.2)) :
    Conserved client s (Function.update gs t g) := by
  unfold Conserved
  rw [Protocol.update_fst, Protocol.update_snd]
  exact ⟨custody, books⟩

omit [DecidableEq Thread] in
/-- The header that a hook reads is the size that its account started with. -/
theorem accounting_fits {o : HookOp} {r : o.Res} {w : World} {sum : Int} {holds : Thread -> Hold}
    {accounts : Thread -> Account} (books : Books client w sum holds accounts)
    (may : (holding anyAnswer k).may (holds t) o)
    (fits : (holding anyAnswer k).fits (holds t) o r) :
    accounting.fits (accounts t) o r := by
  cases o with
  | loadMemhdr p =>
      rcases may with ⟨sz, argument⟩
      have header : r = ⟨sz, mkChk p sz⟩ := fits sz argument
      change Memhdr.mhSize r = (accounts t).size
      rw [header, books.argument t p sz argument]
  | storeMemhdr p hdr => exact fits
  | _ => trivial

/-- Every operation of a call that can be resized keeps the custody and the books. -/
theorem conserving_op {o : HookOp} (fine : o.silent = true ∨ Resizable k)
    (releases : Releases answer o)
    (conserved : Conserved client s gs) :
    (conserving k).OpSoundAt (Conserved client) answer t o s gs := by
  rintro s' r ⟨mayHold, mayAccount⟩ executed
  rcases Machine.observed_exec executed with ⟨inner, noted⟩
  change o.exec answer s.1 = .ok (s'.1, r) at inner
  have answerOk : AnswerOk False anyAnswer k answer o := by
    rcases fine with quiet | fine
    · exact answerOk_of_silent quiet
    · cases o with
      | libcMalloc size => exact fun impossible => impossible.elim
      | libcRealloc p size =>
          refine ⟨trivial, fun b sz same positive => ⟨fun impossible => impossible.elim, ?_⟩⟩
          intro isPointer zeroSize
          rcases mayHold with ⟨-, b', sz', same', -, rfl⟩
          rw [same] at same' fine
          cases same'
          exact absurd (reallocSize_zero fine isPointer zeroSize) positive
      | _ => trivial
  have kept := custody_op (t := t) answerOk conserved.1 s'.1 r mayHold inner
  have books := books_op releases conserved.1 conserved.2 mayHold mayAccount inner
  have fits : accounting.fits (gs t).2 o r := accounting_fits (t := t) conserved.2 mayHold kept.1
  refine ⟨⟨kept.1, fits⟩, conserved_update (t := t) kept.2 ?_⟩
  rw [noted]
  exact books

omit [DecidableEq Thread] in
theorem conserving_body (t : Thread) :
    (conserving k).BodySound (Conserved client) t := by
  intro s gs l conserved _ _
  refine ⟨?_, trivial, trivial⟩
  change Conserved client ((comparePeak l s.1).1, s.2) gs
  unfold comparePeak
  split_ifs with same
  · exact ⟨conserved.1, ⟨conserved.2.complete, conserved.2.argument, conserved.2.positive,
      conserved.2.balanced⟩⟩
  · exact conserved

/-- The stats hooks keep the custody and the books. -/
theorem conserving_discipline (tid : Thread -> Nat) :
    Pool.Discipline (M := tallyMachine) (C := application Thread false) (fun _ => True)
      (fun t k => hook .stats (tid t) k) conserving conservingEnds (.nothing, ⟨0, 0⟩)
        Conserved where
  silentSound := fun _ _ _ _ _ _ quiet _ _ conserved =>
    conserving_op (Or.inl quiet) (releases_of_silent quiet) conserved
  bodySound := fun _ _ t => conserving_body t
  leaveSound := fun k client t s gs l conserved _ _ => by
    rw [show (conserving k).leave (gs t) = gs t from rfl, Function.update_eq_self]
    exact conserved
  start := fun k client client' s gs t started conserved idle => by
    have atHold : (gs t).1 = .nothing := by rw [idle]
    have atAccount : (gs t).2 = ⟨0, 0⟩ := by rw [idle]
    rcases custody_start k started conserved.1 atHold with ⟨g, custody, starts⟩
    rcases books_start started conserved.1 custody starts atHold atAccount conserved.2 with
      ⟨account, accountStarts, books⟩
    refine ⟨(g, account), conserved_update custody books, ?_⟩
    exact Protocol.Follows.observed
      ((holding_hook .stats (tid t) starts).prod (accounting_hook (tid t) accountStarts))
  finish := fun k rv client s gs t conserved ends => by
    refine conserved_update ?_ (books_finish conserved.1 conserved.2 ends.1 ends.2)
    exact custody_finish k (fun impossible => by cases impossible) conserved.1 ends.1

/-- The pool invariant of the stats hooks. -/
def StatsPool.Conserved (pool : StatsPool Thread) : Prop :=
  (forall t k program, pool.thread t = some (k, program) -> Resizable k) ∧
    Exists fun gs =>
      Pool.Holds conserving conservingEnds (.nothing, ⟨0, 0⟩) Mprofile.Conserved pool gs

theorem StatsPool.init_conserved : (StatsPool.init Thread).Conserved := by
  refine ⟨fun t k program impossible => (by cases impossible), fun _ => (.nothing, ⟨0, 0⟩), ?_,
    fun _ => rfl⟩
  refine ⟨custody_init False, fun p block impossible => (by cases impossible),
    fun t mh sz impossible => (by cases impossible), fun t => Int.le_refl 0, 0, 0,
    Totals.zero (fun _ => rfl), Totals.zero (fun _ => rfl), rfl, ?_⟩
  rw [add_zero]
  exact reads_init

/-- One step of the threads keeps the invariant. -/
theorem StatsPool.Conserved.next {tid : Thread -> Nat} {pool pool' : StatsPool Thread}
    {l : PoolLabel Thread Call Answer} (conserved : pool.Conserved)
    (releases : ReleasesZero pool l) (fine : ResizableCalls pool l)
    (stepped : pool.next tid l = .ok pool') : pool'.Conserved := by
  rcases conserved with ⟨running, gs, holds⟩
  refine ⟨Pool.next_calls running (fun t k answer same => by rw [same] at fine; exact fine) stepped,
    Pool.next_sound (conserving_discipline tid) holds trivial ?_ stepped⟩
  cases l with
  | call t k answer => trivial
  | step t answer =>
      intro k program o busy here
      refine conserving_op (Or.inr (running t k program busy)) (releases o ?_) holds.invariant
      rw [Pool.headOf, busy]
      exact here

end Runs

/-! ## The counters -/

/-- The addresses of the live blocks that carry a header. -/
def LiveBlocks (heap : UInt64 -> Option Block) (blocks : Finset UInt64) : Prop :=
  forall p, p ∈ blocks ↔ liveHeader heap p ≠ none

/-- What the counters say when no call is in progress. -/
def CountersMatch (w : World) : Prop :=
  Exists fun blocks => LiveBlocks w.heap blocks ∧
    w.ms.msTotalAllocated - w.ms.msTotalReleased = w.ms.msCurrent ∧
    w.ms.msCurrent =
      UInt64.ofNat (blocks.sum (fun p => ((liveHeader w.heap p).getD 0).toNat)) ∧
    w.ms.msAllocs - w.ms.msFree = UInt64.ofNat blocks.card

theorem liveHeader_eq_some {heap : UInt64 -> Option Block} {p sz : UInt64} :
    liveHeader heap p = some sz ↔ Headed heap p sz := by
  constructor
  · intro found
    unfold liveHeader memhdrAt at found
    cases live : heap p with
    | none => simp only [live] at found; cases found
    | some block =>
        simp only [live] at found
        by_cases room : sizeofMemhdr.toNat ≤ block.size
        · rw [if_pos room] at found
          simp only at found
          split_ifs at found with checks
          cases found
          exact ⟨block, live, room, congrArg (Memhdr.mk block.hdr.mhSize) checks⟩
        · rw [if_neg room] at found
          cases found
  · intro headed
    unfold liveHeader
    rw [headed.memhdrAt]
    exact if_pos rfl

theorem eq_of_sub_eq {a b : UInt64} (same : a - b = UInt64.ofNat 0) : a = b := by
  have zero : a - b = 0 := same
  grind

theorem ownedWorth_ne_zero {sz : UInt64} : ownedWorth (some sz) ≠ 0 := by
  intro same
  have count := congrArg (fun f : Figures => f.2.2) same
  cases count

/-- The application's blocks are the live blocks, when no call has one. -/
theorem Books.liveBlocks {Thread : Type} {client : Holdings Thread} {w : World} {sum : Int}
    {holds : Thread -> Hold} {accounts : Thread -> Account} {ours : Figures}
    (custody : Custody False client w.heap holds) (books : Books client w sum holds accounts)
    (idle : forall t, holds t = .nothing) (owned : Totals ownedWorth client.owned ours) :
    Exists fun blocks => LiveBlocks w.heap blocks ∧
      ours = blocks.sum (fun p => worth ((liveHeader w.heap p).getD 0)) := by
  rcases owned with ⟨support, outside, rfl⟩
  have headed : forall b sz, client.owned b = some sz ->
      liveHeader w.heap (b - sizeofMemhdr) = some sz :=
    fun b sz isOwned => liveHeader_eq_some.mpr (custody.owned b sz isOwned).2
  have inside : forall b, client.owned b ≠ none -> b ∈ support := by
    intro b isOwned
    by_contra absent
    cases found : client.owned b with
    | none => exact isOwned found
    | some sz =>
        have worthless := outside b absent
        rw [found] at worthless
        exact ownedWorth_ne_zero worthless
  refine ⟨(support.filter (fun b => client.owned b ≠ none)).image (fun b => b - sizeofMemhdr),
    fun p => ?_, ?_⟩
  · rw [Finset.mem_image]
    constructor
    · rintro ⟨b, member, rfl⟩
      cases isOwned : client.owned b with
      | none => exact absurd isOwned (Finset.mem_filter.mp member).2
      | some sz =>
          rw [headed b sz isOwned]
          exact Option.some_ne_none sz
    · intro live
      cases found : liveHeader w.heap p with
      | none => exact absurd found live
      | some sz =>
          rcases liveHeader_eq_some.mp found with ⟨block, here, room, -⟩
          rcases books.complete p block here room with isOwned | ⟨t, isBlock⟩
          · exact ⟨p + sizeofMemhdr, Finset.mem_filter.mpr ⟨inside _ isOwned, isOwned⟩,
              add_sub_sizeofMemhdr p⟩
          · rw [idle t] at isBlock
            cases isBlock
  · have injective : forall b c : UInt64, b - sizeofMemhdr = c - sizeofMemhdr -> b = c := by
      intro b c same
      rw [← sub_add_sizeofMemhdr b, same, sub_add_sizeofMemhdr]
    rw [Finset.sum_image (fun b _ c _ same => injective b c same),
      ← Finset.sum_filter_add_sum_filter_not support (fun b => client.owned b ≠ none)]
    have rest : (support.filter (fun b => ¬ client.owned b ≠ none)).sum
        (fun b => ownedWorth (client.owned b)) = 0 := by
      refine Finset.sum_eq_zero (fun b member => ?_)
      rw [not_not.mp (Finset.mem_filter.mp member).2]
      rfl
    rw [rest, add_zero]
    refine Finset.sum_congr rfl (fun b member => ?_)
    cases isOwned : client.owned b with
    | none => exact absurd isOwned (Finset.mem_filter.mp member).2
    | some sz =>
        rw [headed b sz isOwned]
        rfl

theorem worth_sum (blocks : Finset UInt64) (size : UInt64 -> UInt64) :
    blocks.sum (fun p => worth (size p)) =
      (((blocks.sum (fun p => (size p).toNat) : Nat) : Int),
        ((blocks.sum (fun p => (size p).toNat) : Nat) : Int), (blocks.card : Int)) := by
  refine Prod.ext ?_ (Prod.ext ?_ ?_)
  · rw [Prod.fst_sum, Nat.cast_sum]
    rfl
  · rw [Prod.snd_sum, Prod.fst_sum, Nat.cast_sum]
    rfl
  · rw [Prod.snd_sum, Prod.snd_sum]
    change blocks.sum (fun _ => (1 : Int)) = (blocks.card : Int)
    rw [Finset.sum_const, nsmul_eq_mul, mul_one]

/-- With empty accounts the counters are those of the live blocks. -/
theorem Books.countersMatch {Thread : Type} {client : Holdings Thread} {w : World} {sum : Int}
    {holds : Thread -> Hold} {accounts : Thread -> Account}
    (custody : Custody False client w.heap holds) (books : Books client w sum holds accounts)
    (idle : forall t, holds t = .nothing) (empty : forall t, (accounts t).figures = 0) :
    CountersMatch w := by
  rcases books.balanced with ⟨ours, theirs, owned, held, -, current, totals, counts⟩
  rcases books.liveBlocks custody idle owned with ⟨blocks, live, same⟩
  rw [held.eq_zero empty, add_zero, same, worth_sum] at current totals counts
  rw [ofInt_natCast] at current totals counts
  exact ⟨blocks, live, totals.trans current.symm, current, counts⟩

/-- When no call is in progress the accounts are empty. -/
theorem StatsPool.Conserved.countersMatch {Thread : Type} [DecidableEq Thread]
    {pool : StatsPool Thread}
    (conserved : pool.Conserved) (quiet : pool.Quiescent) : CountersMatch pool.shared.1 := by
  rcases conserved with ⟨-, gs, holds⟩
  have idle : forall t, gs t = (.nothing, ⟨0, 0⟩) := by
    intro t
    have own := holds.threads t
    rw [quiet t] at own
    exact own
  exact holds.invariant.2.countersMatch holds.invariant.1 (fun t => by rw [idle t])
    (fun t => by rw [idle t])

/-- In every interleaving of the stats hooks the sum of the deltas stays
nonnegative, and whenever no call is in progress the counters are those of the
live blocks. -/
theorem counters_conserved {Thread : Type} [DecidableEq Thread] (tid : Thread -> Nat)
    (labels : List (PoolLabel Thread Call Answer))
    (releases : Meets (StatsPool.next tid) ReleasesZero (StatsPool.init Thread) labels)
    (resizable : Meets (StatsPool.next tid) ResizableCalls (StatsPool.init Thread) labels)
    (pool : StatsPool Thread)
    (executed : exec (StatsPool.next tid) (StatsPool.init Thread) labels = .ok pool) :
    0 ≤ pool.shared.2 ∧
      (pool.Quiescent -> CountersMatch pool.shared.1 ∧
        ((forall p, liveHeader pool.shared.1.heap p = none) ->
          pool.shared.1.ms.msTotalAllocated = pool.shared.1.ms.msTotalReleased ∧
            pool.shared.1.ms.msAllocs = pool.shared.1.ms.msFree)) := by
  have conserved : pool.Conserved := exec_invariant StatsPool.Conserved
    (fun pool l pool' conserved met stepped => conserved.next met.1 met.2 stepped)
    StatsPool.init_conserved (releases.and resizable) executed
  have matching := conserved.countersMatch
  rcases conserved with ⟨-, gs, holds⟩
  have books := holds.invariant.2
  refine ⟨?_, fun quiet => ?_⟩
  · rcases books.balanced with ⟨ours, theirs, owned, held, same, -⟩
    have oursPositive : 0 ≤ ours.1 := by
      refine (owned.map (AddMonoidHom.fst Int (Int × Int))).nonneg (fun b => ?_)
      cases pool.client.owned b with
      | none => exact Int.le_refl 0
      | some sz => exact Int.natCast_nonneg _
    have theirsPositive : 0 ≤ theirs.1 :=
      (held.map (AddMonoidHom.fst Int (Int × Int))).nonneg books.positive
    rw [same, Prod.fst_add]
    exact Int.add_nonneg oursPositive theirsPositive
  · refine ⟨matching quiet, fun released => ?_⟩
    rcases matching quiet with ⟨blocks, live, totals, current, counts⟩
    have none : blocks = ∅ := by
      rw [Finset.eq_empty_iff_forall_notMem]
      exact fun p member => (live p).mp member (released p)
    subst none
    rw [Finset.sum_empty] at current
    rw [Finset.card_empty] at counts
    rw [current] at totals
    exact ⟨eq_of_sub_eq totals, eq_of_sub_eq counts⟩

/-- Two threads, one of which moves a block to a larger size while the other
fails to allocate, allocates, and frees. -/
def balancedRun : List (PoolLabel (Fin 2) Call Answer) :=
  callOf threadA (.malloc 8) [4096, 0, 0, 0, 0, 0, 0] ++ callOf threadB (.malloc 5) [0] ++
    callOf threadB (.malloc 3) [8192, 0, 0, 0, 0, 0, 0] ++
    [.call threadA (.realloc 4112 24) (answering 0), .call threadB (.free 8208) (answering 0),
      .step threadB (answering 0), .step threadA (answering 12288), .step threadB (answering 0),
      .step threadB (answering 0),
      .step threadA (answering 0), .step threadB (answering 0), .step threadA (answering 0),
      .step threadA (answering 0),
      .step threadA (answering 0), .step threadA (answering 0), .step threadA (answering 0)]

theorem counters_conserved_balancedRun : Exists fun pool =>
    exec (StatsPool.next Fin.val) (StatsPool.init (Fin 2)) balancedRun = .ok pool ∧
      liveHeader pool.shared.1.heap 12288 = some 24 ∧ pool.shared.2 = 24 ∧
      CountersMatch pool.shared.1 := by
  have reached : Exists fun pool =>
      exec (StatsPool.next Fin.val) (StatsPool.init (Fin 2)) balancedRun = .ok pool ∧
        liveHeader pool.shared.1.heap 12288 = some 24 ∧ pool.shared.2 = 24 ∧
        forall t, (pool.thread t).isNone = true :=
    reaches_of_check (by decide +kernel)
  rcases reached with ⟨pool, executed, live, sum, idle⟩
  have quiet : pool.Quiescent := fun t => Option.isNone_iff_eq_none.mp (idle t)
  have conserved := counters_conserved Fin.val balancedRun (meets_of_check (by decide +kernel))
    (meets_of_check (by decide +kernel)) pool executed
  exact ⟨pool, executed, live, sum, (conserved.2 quiet).1⟩

/-- Live blocks are at these addresses only. -/
def LiveIn (ptrs : List UInt64) (heap : UInt64 -> Option Block) : Prop :=
  forall p, heap p ≠ none -> p ∈ ptrs

section Addresses

variable {ptrs : List UInt64} {heap heap' : UInt64 -> Option Block} {answer : Answer}

theorem LiveIn.update (known : LiveIn ptrs heap) {q : UInt64} {block : Option Block}
    (there : block ≠ none -> q ∈ ptrs) : LiveIn ptrs (Function.update heap q block) := by
  intro p live
  by_cases here : p = q
  · subst here
    rw [Function.update_self] at live
    exact there live
  · rw [Function.update_of_ne here] at live
    exact known p live

theorem LiveIn.malloc (known : LiveIn ptrs heap) (answered : answer.ptr ∈ ptrs) {size q : UInt64}
    (allocated : Libc.malloc heap size answer = .ok (heap', q)) : LiveIn ptrs heap' := by
  unfold Libc.malloc at allocated
  split_ifs at allocated <;> cases allocated
  · exact known
  · exact known.update (fun _ => answered)

theorem LiveIn.realloc (known : LiveIn ptrs heap) (answered : answer.ptr ∈ ptrs) {p size q : UInt64}
    (resized : Libc.realloc heap p size answer = .ok (heap', q)) : LiveIn ptrs heap' := by
  have erased : LiveIn ptrs (Function.update heap p none) :=
    known.update (fun live => absurd rfl live)
  unfold Libc.realloc at resized
  by_cases null : p = 0
  · rw [if_pos null] at resized
    exact known.malloc answered resized
  · rw [if_neg null] at resized
    cases found : heap p with
    | none => rw [found] at resized; cases resized
    | some block =>
        simp only [found] at resized
        split_ifs at resized
        · cases resized
          exact known
        · exact erased.malloc answered resized
        · cases resized
          exact known
        · cases resized
          exact erased.update (fun _ => answered)

/-- Blocks are where libc's answers put them. -/
theorem LiveIn.op {w w' : World} (known : LiveIn ptrs w.heap) (answered : answer.ptr ∈ ptrs)
    {o : HookOp} {r : o.Res} (executed : o.exec answer w = .ok (w', r)) : LiveIn ptrs w'.heap := by
  cases o with
  | libcMalloc size =>
      rw [HookOp.exec] at executed
      cases allocated : Libc.malloc w.heap size answer with
      | error fault => rw [allocated] at executed; cases executed
      | ok result =>
        rw [allocated] at executed; cases executed; exact known.malloc answered allocated
  | libcFree p =>
      rw [HookOp.exec, Libc.free] at executed
      by_cases null : p = 0
      · rw [if_pos null] at executed
        cases executed
        exact known
      · rw [if_neg null] at executed
        cases found : w.heap p with
        | none => rw [found] at executed; cases executed
        | some block =>
            rw [found] at executed
            cases executed
            exact known.update (fun live => absurd rfl live)
  | libcRealloc p size =>
      rw [HookOp.exec] at executed
      cases resized : Libc.realloc w.heap p size answer with
      | error fault => rw [resized] at executed; cases executed
      | ok result => rw [resized] at executed; cases executed; exact known.realloc answered resized
  | storeMemhdr p hdr =>
      rw [HookOp.exec] at executed
      cases found : w.heap p with
      | none => simp only [found] at executed; cases executed
      | some block =>
          cases header : memhdrAt w.heap p with
          | none => simp only [found, header] at executed; cases executed
          | some oldHdr =>
              simp only [found, header] at executed
              cases executed
              exact known.update (fun _ => known p (by rw [found]; exact Option.some_ne_none block))
  | loadMemhdr p =>
      rw [HookOp.exec] at executed
      cases header : memhdrAt w.heap p with
      | none => rw [header] at executed; cases executed
      | some hdr => rw [header] at executed; cases executed; exact known
  | abort => cases executed
  | _ =>
      have same : w'.heap = w.heap := by
        refine Blockless.sameHeap ?_ executed
        exact trivial
      rw [same]
      exact known

end Addresses

/-- `realloc (b, 2 ^ 64 - 16)`, which asks libc for 0 bytes. -/
def wrappedRun : List (PoolLabel Unit Call Answer) :=
  callOf () (.malloc 5) [4096, 0, 0, 0, 0, 0, 0] ++
    callOf () (.realloc 4112 (0 - sizeofMemhdr)) [0]

theorem wrappedRun_liveIn {pool : StatsPool Unit}
    (executed : exec (StatsPool.next (fun _ => 0)) (StatsPool.init Unit) wrappedRun = .ok pool) :
    LiveIn [4096, 0] pool.shared.1.heap := by
  have answered : Meets (StatsPool.next (fun _ => 0))
      (fun _ (l : PoolLabel Unit Call Answer) => l.env.ptr ∈ [(4096 : UInt64), 0])
      (StatsPool.init Unit)
      wrappedRun := meets_of_check (by decide +kernel)
  refine exec_invariant (fun pool : StatsPool Unit => LiveIn [4096, 0] pool.shared.1.heap)
    (fun pool l pool' known met stepped => ?_) (fun p live => absurd rfl live) answered executed
  refine Pool.next_keeps (M := tallyMachine) (fun s => LiveIn [4096, 0] s.1.heap)
    (fun answer => answer.ptr ∈ [(4096 : UInt64), 0])
    (fun answer allowed o s s' r known executed => ?_) (fun l s known => ?_) known met stepped
  · exact known.op allowed (Machine.observed_exec executed).1
  · change LiveIn _ (comparePeak l s.1).1.heap
    unfold comparePeak
    split_ifs <;> exact known

/-- The block is gone, and the counters still say that 5 bytes are in use. -/
theorem wrappedRun_not_conserved :
    ¬ forall (labels : List (PoolLabel Unit Call Answer)) pool,
      Meets (StatsPool.next (fun _ => 0)) ReleasesZero (StatsPool.init Unit) labels ->
      exec (StatsPool.next (fun _ => 0)) (StatsPool.init Unit) labels = .ok pool ->
        pool.Quiescent -> CountersMatch pool.shared.1 := by
  intro always
  have reached : Exists fun pool =>
      exec (StatsPool.next (fun _ => 0)) (StatsPool.init Unit) wrappedRun = .ok pool ∧
        (pool.shared.1.heap 4096 = none ∧ pool.shared.1.heap 0 = none) ∧
          pool.shared.1.ms.msCurrent = 5 ∧
        forall t, (pool.thread t).isNone = true :=
    reaches_of_check (by decide +kernel)
  rcases reached with ⟨pool, executed, gone, current, idle⟩
  have quiet : pool.Quiescent := fun t => Option.isNone_iff_eq_none.mp (idle t)
  rcases always wrappedRun pool (meets_of_check (by decide +kernel)) executed quiet with
    ⟨blocks, live, -, same, -⟩
  have empty : blocks = ∅ := by
    rw [Finset.eq_empty_iff_forall_notMem]
    intro p member
    by_cases dead : pool.shared.1.heap p = none
    · refine (live p).mp member ?_
      simp only [liveHeader, memhdrAt, dead]
    · rcases List.mem_pair.mp (wrappedRun_liveIn executed p dead) with rfl | rfl
      · exact dead gone.1
      · exact dead gone.2
  rw [current, empty, Finset.sum_empty] at same
  exact absurd same (by decide)

end Mprofile
end OsslScripts
