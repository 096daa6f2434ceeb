import OsslScripts.Foundation.Ledger
import OsslScripts.Mprofile.Custody

namespace OsslScripts
namespace Mprofile

open Foundation

/-!
# The account of a call

In the middle of a call of a stats hook the counters do not match the blocks.
What a thread still has to make up for is its account: three integers, which
say how much of the current size, of the difference of the totals and of the
difference of the counts belongs to the block that the call works on.  Every
update of a counter changes the account of its thread by the same amount.  A
call starts with the worth of its argument and ends with the worth of the block
that it returns.
-/

/-- Current size, total allocated minus total released, and allocs minus frees. -/
abbrev Figures : Type := Int × Int × Int

/-- What a block of this size contributes. -/
def worth (sz : UInt64) : Figures := (sz.toNat, sz.toNat, 1)

/-- What an operation adds to the figures. -/
def HookOp.change : HookOp -> Figures
  | .addFetch .current d => (d.toNat, 0, 0)
  | .subFetch .current d => (-d.toNat, 0, 0)
  | .addFetch .totalAllocated d => (0, d.toNat, 0)
  | .addFetch .totalReleased d => (0, -d.toNat, 0)
  | .addFetch .allocs d => (0, 0, d.toNat)
  | .addFetch .free d => (0, 0, -d.toNat)
  | _ => 0

/-- The size in the header of the call's argument, and the figures of the call. -/
structure Account where
  size : UInt64
  figures : Figures

/-- A call may release only what it has. -/
def accounting : Protocol hookMachine Account where
  may := fun g o =>
    match o with
    | .subFetch c d => c = .current ∧ (d.toNat : Int) ≤ g.figures.1
    | _ => True
  fits := fun g o r =>
    match o, r with
    | .loadMemhdr _, hdr => hdr.mhSize = g.size
    | .storeMemhdr p _, _ => p + sizeofMemhdr ≠ 0
    | _, _ => True
  after := fun g o _ => { g with figures := g.figures + o.change }
  loops := fun _ _ => True
  leave := fun g => g

/-- The worth of a call's argument. -/
def argumentWorth (b sz : UInt64) : Figures := if b = 0 then 0 else worth sz

def accountStarts : Call -> Account -> Prop
  | .malloc _, g => g.figures = 0
  | .free b, g => g.figures = argumentWorth b g.size
  | .realloc b _, g => g.figures = argumentWorth b g.size

/-- A failed `realloc` leaves the argument as it was. -/
def accountEnds : Call -> Account -> UInt64 -> Prop
  | .malloc sz, g, rv => g.figures = argumentWorth rv sz
  | .free _, g, _ => g.figures = 0
  | .realloc b sz, g, rv =>
      g.figures =
        if sz = 0 then 0 else if rv = 0 then argumentWorth b g.size else worth sz

section Text

variable {α β : Type} {ends : Account -> α -> Prop} {g : Account}

theorem follows_addCounter {c : Counter} {delta : UInt64} {rest : HookM α}
    (onward : accounting.Follows ends rest
      { g with figures := g.figures + (HookOp.addFetch c delta).change }) :
    accounting.Follows ends (addCounter c delta >>= fun _ => rest) g :=
  follows_perform trivial (fun _ _ => onward)

theorem follows_updateAlloc {delta : UInt64} {rest : HookM α}
    (onward : accounting.Follows ends rest
      { g with figures := g.figures + ((delta.toNat : Int), 0, 0) }) :
    accounting.Follows ends (updateAlloc delta >>= fun _ => rest) g := by
  refine follows_perform trivial (fun current _ => ⟨trivial, fun max _ => ⟨trivial, ?_⟩⟩)
  change accounting.Follows ends rest
    { g with figures := g.figures + ((delta.toNat : Int), 0, 0) + 0 }
  rw [add_zero]
  exact onward

theorem follows_updateRelease {delta : UInt64} {rest : HookM α}
    (enough : (delta.toNat : Int) ≤ g.figures.1)
    (onward : accounting.Follows ends rest
      { g with figures := g.figures + (-(delta.toNat : Int), 0, 0) }) :
    accounting.Follows ends (updateRelease delta >>= fun _ => rest) g :=
  follows_perform ⟨rfl, enough⟩ (fun _ _ => onward)

/-- An operation that changes no figure. -/
theorem follows_unchanged {o : HookOp} {rest : o.Res -> HookM α} (may : accounting.may g o)
    (unchanged : o.change = 0)
    (onward : forall r, accounting.fits g o r -> accounting.Follows ends (rest r) g) :
    accounting.Follows ends (perform o >>= rest) g := by
  refine follows_perform may (fun r fits => ?_)
  change accounting.Follows ends (rest r) { g with figures := g.figures + o.change }
  rw [unchanged, add_zero]
  exact onward r fits

theorem follows_libcFree_settled {p : UInt64} (settled : g.figures = 0) :
    accounting.Follows (fun g' _ => g'.figures = 0) (perform (.libcFree p)) g := by
  refine ⟨trivial, fun _ _ => ?_⟩
  change g.figures + 0 = 0
  rw [settled, add_zero]

theorem follows_accountedHeader {b : UInt64} {rest : Memhdr -> HookM α}
    (onward : forall hdr : Memhdr, hdr.mhSize = g.size -> accounting.Follows ends (rest hdr) g) :
    accounting.Follows ends (checkMemhdr b >>= rest) g := by
  refine follows_unchanged trivial rfl (fun hdr size => ?_)
  change accounting.Follows ends (Prog.bind (if _ then _ else _) rest) g
  split_ifs
  · exact ⟨trivial, fun impossible => impossible.elim⟩
  · exact onward hdr size

/-- The counters after a fresh block. -/
theorem follows_countAlloc {sz : UInt64} {rest : HookM α} (empty : g.figures = 0)
    (onward : accounting.Follows ends rest { g with figures := worth sz }) :
    accounting.Follows ends (do
      addCounter .allocs 1
      addCounter .totalAllocated sz
      updateAlloc sz
      rest) g := by
  refine follows_addCounter (follows_addCounter (follows_updateAlloc ?_))
  have total : g.figures + (HookOp.addFetch .allocs 1).change +
      (HookOp.addFetch .totalAllocated sz).change + ((sz.toNat : Int), 0, 0) = worth sz := by
    rw [empty]
    simp [HookOp.change, worth]
  simp only [total]
  exact onward

/-- The counters before a block is released. -/
theorem follows_countFree {sz : UInt64} {rest : HookM α} (full : g.figures = worth sz)
    (onward : accounting.Follows ends rest { g with figures := 0 }) :
    accounting.Follows ends (do
      addCounter .free 1
      addCounter .totalReleased sz
      updateRelease sz
      rest) g := by
  refine follows_addCounter (follows_addCounter (follows_updateRelease ?_ ?_))
  · rw [full]
    simp [HookOp.change, worth]
  · have total : g.figures + (HookOp.addFetch .free 1).change +
        (HookOp.addFetch .totalReleased sz).change + (-(sz.toNat : Int), 0, 0) = 0 := by
      rw [full]
      simp [HookOp.change, worth]
    simp only [total]
    exact onward

theorem accounting_mpCryptoMallocStats {sz : UInt64} (starts : accountStarts (.malloc sz) g) :
    accounting.Follows (accountEnds (.malloc sz)) (mpCryptoMallocStats sz) g := by
  refine follows_unchanged trivial rfl (fun mh _ => ?_)
  change accounting.Follows _ (if mh ≠ 0 then _ else _) g
  by_cases null : mh = 0
  · rw [if_neg (not_not.mpr null)]
    exact starts
  · rw [if_pos null]
    refine follows_unchanged trivial rfl (fun _ inside => ?_)
    refine follows_countAlloc starts ?_
    change worth sz = argumentWorth _ sz
    rw [argumentWorth, if_neg inside]

theorem accounting_mpCryptoFreeStats {b : UInt64} (starts : accountStarts (.free b) g) :
    accounting.Follows (fun g' _ => g'.figures = 0) (mpCryptoFreeStats b) g := by
  change g.figures = if b = 0 then _ else _ at starts
  unfold mpCryptoFreeStats
  by_cases null : b = 0
  · rw [if_pos null] at starts
    rw [if_neg (not_not.mpr null)]
    exact follows_libcFree_settled starts
  · rw [if_neg null] at starts
    rw [if_pos null]
    refine follows_accountedHeader (fun hdr size => ?_)
    refine follows_countFree (by rw [starts, size]) ?_
    exact follows_libcFree_settled rfl

theorem accounting_reallocStatsTail {b sz mh : UInt64} {saveMh : Memhdr}
    (saved : b ≠ 0 -> saveMh.mhSize = g.size)
    (starts : g.figures = if sz = 0 then 0 else argumentWorth b g.size) :
    accounting.Follows (accountEnds (.realloc b sz)) (reallocStatsTail b sz saveMh mh) g := by
  unfold reallocStatsTail
  by_cases null : mh = 0
  · rw [if_pos null]
    change g.figures = if sz = 0 then 0 else if (0 : UInt64) = 0 then _ else _
    rw [if_pos rfl]
    exact starts
  · rw [if_neg null]
    by_cases zeroSize : sz = 0
    · rw [if_pos zeroSize] at starts ⊢
      change g.figures = if sz = 0 then 0 else _
      rw [if_pos zeroSize]
      exact starts
    · rw [if_neg zeroSize] at starts ⊢
      refine follows_unchanged trivial rfl (fun _ inside => ?_)
      have final : forall g' : Account, g'.figures = worth sz ->
          accountEnds (.realloc b sz) g' (mh + sizeofMemhdr) := by
        intro g' figures
        rw [accountEnds, if_neg zeroSize, if_neg inside]
        exact figures
      by_cases isNull : b = 0
      · rw [argumentWorth, if_pos isNull] at starts
        rw [if_pos isNull]
        exact follows_countAlloc starts (final _ rfl)
      · rw [argumentWorth, if_neg isNull, ← saved isNull] at starts
        rw [if_neg isNull]
        refine follows_addCounter ?_
        by_cases shrinks : saveMh.mhSize > sz
        · rw [if_pos shrinks]
          have difference : (saveMh.mhSize - sz).toNat = saveMh.mhSize.toNat - sz.toNat :=
            UInt64.toNat_sub_of_le _ _ (UInt64.le_of_lt shrinks)
          have less : sz.toNat < saveMh.mhSize.toNat := UInt64.lt_iff_toNat_lt.mp shrinks
          refine follows_updateRelease ?_ (follows_addCounter (final _ ?_))
          · simp only [starts, worth, HookOp.change, add_zero]
            omega
          · simp only [starts, worth, HookOp.change, Prod.mk_add_mk, add_zero, Prod.mk.injEq,
              and_true, and_self]
            omega
        · rw [if_neg shrinks]
          have atMost : saveMh.mhSize ≤ sz := UInt64.not_lt.mp shrinks
          have difference : (sz - saveMh.mhSize).toNat = sz.toNat - saveMh.mhSize.toNat :=
            UInt64.toNat_sub_of_le _ _ atMost
          have less : saveMh.mhSize.toNat ≤ sz.toNat := UInt64.le_iff_toNat_le.mp atMost
          refine follows_addCounter (follows_updateAlloc (final _ ?_))
          simp only [starts, worth, HookOp.change, Prod.mk_add_mk, add_zero, Prod.mk.injEq,
              and_true, and_self]
          omega

theorem accounting_mpCryptoReallocStats {b sz : UInt64} (starts : accountStarts (.realloc b sz) g) :
    accounting.Follows (accountEnds (.realloc b sz)) (mpCryptoReallocStats b sz) g := by
  unfold mpCryptoReallocStats
  by_cases isNull : b = 0
  · rw [if_neg (not_not.mpr isNull)]
    refine follows_unchanged trivial rfl (fun mh _ => ?_)
    refine accounting_reallocStatsTail (fun isPointer => absurd isNull isPointer) ?_
    rw [starts, argumentWorth, if_pos isNull, ite_self]
  · rw [if_pos isNull]
    refine follows_accountedHeader (fun saveMh size => ?_)
    by_cases zeroSize : sz = 0
    · rw [if_pos zeroSize]
      refine follows_countFree (by rw [starts, argumentWorth, if_neg isNull, size]) ?_
      refine follows_unchanged trivial rfl (fun mh _ => ?_)
      exact accounting_reallocStatsTail (fun _ => size) (by rw [if_pos zeroSize])
    · rw [if_neg zeroSize]
      refine follows_unchanged trivial rfl (fun mh _ => ?_)
      exact accounting_reallocStatsTail (fun _ => size) (by rw [if_neg zeroSize]; exact starts)

/-- Every stats hook keeps its account. -/
theorem accounting_hook (tid : Nat) {k : Call} (starts : accountStarts k g) :
    accounting.Follows (accountEnds k) (hook .stats tid k) g := by
  cases k with
  | malloc sz => exact accounting_mpCryptoMallocStats starts
  | free b =>
      exact Protocol.Follows.bind (accounting_mpCryptoFreeStats starts) (fun _ _ ends => ends)
  | realloc b sz => exact accounting_mpCryptoReallocStats starts

end Text

end Mprofile
end OsslScripts
