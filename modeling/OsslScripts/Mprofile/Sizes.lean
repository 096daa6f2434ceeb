import OsslScripts.Foundation.Traces
import OsslScripts.Mprofile.Modes
import OsslScripts.Mprofile.Ownership

namespace OsslScripts
namespace Mprofile

open Foundation

/-!
# Sizes near the word limits

The size of a call passes through two conversions: the header is added to it
modulo `2 ^ 64`, and the delta of its record is a `size_t` read as a `ssize_t`.

A request that wraps is smaller than a header, and the write of the header then
goes past the block.  The process faults there, which the real one need not
do.  The statements are therefore about traces, where libc answers anything
within its limit and a header is found in front of the argument.
-/

/-! ## Traces of a call -/

/-- What libc is asked for in a trace. -/
def requested (trace : List (Event hookMachine)) : List LibcRequest :=
  trace.flatMap (fun event => HookOp.requests event.1)

/-- The delta of the record that an operation appends. -/
def HookOp.deltas : HookOp -> List Int
  | .insertTail _ mpr => [mpr.mprDelta]
  | _ => []

/-- The deltas of the records that a trace appends. -/
def logged (trace : List (Event hookMachine)) : List Int :=
  trace.flatMap (fun event => HookOp.deltas event.1)

/-- The size in a request, 0 for `free`. -/
def LibcRequest.size : LibcRequest -> UInt64
  | .malloc size => size
  | .free _ => 0
  | .realloc _ size => size

/-- libc grants no request above `2 ^ 63 - 1` bytes. -/
def withinLimit (event : Event hookMachine) : Prop :=
  match event with
  | ⟨.libcMalloc size, p⟩ => (p : UInt64) ≠ 0 -> size.toNat < 2 ^ 63
  | ⟨.libcRealloc _ size, p⟩ => (p : UInt64) ≠ 0 -> size.toNat < 2 ^ 63
  | _ => True

/-- The header that is read holds this size. -/
def readsSize (old : UInt64) (event : Event hookMachine) : Prop :=
  match event with
  | ⟨.loadMemhdr _, hdr⟩ => (hdr : Memhdr).mhSize = old
  | _ => True

/-- A trace of a call whose argument has this size. -/
structure Realistic (old : UInt64) (trace : List (Event hookMachine)) : Prop where
  limits : forall event, event ∈ trace -> withinLimit event
  reads : forall event, event ∈ trace -> readsSize old event

/-- The size of the argument, 0 for the null pointer. -/
def oldSize (b old : UInt64) : UInt64 := if b = 0 then 0 else old

/-- The request has room for the header and the size, and the delta of the record
is the new size minus the old one. -/
def Grown (sz old : UInt64) (trace : List (Event hookMachine)) : Prop :=
  (Exists fun request => requested trace = [request] ∧ sz.toNat + 16 ≤ request.size.toNat) ∧
    forall delta, delta ∈ logged trace -> delta = (sz.toNat : Int) - old.toNat

/-- The delta of the record is minus the size. -/
def Released (old : UInt64) (trace : List (Event hookMachine)) : Prop :=
  forall delta, delta ∈ logged trace -> delta = -(old.toNat : Int)

/-- The sizes in a trace of a call are exact. -/
def Call.Exact (call : Call) (old : UInt64) (trace : List (Event hookMachine))
    (rv : UInt64) : Prop :=
  match call with
  | .malloc sz => rv ≠ 0 -> Grown sz 0 trace
  | .free b => Released (oldSize b old) trace
  | .realloc b sz =>
    if sz = 0 then Released (oldSize b old) trace else rv ≠ 0 -> Grown sz (oldSize b old) trace

/-- No sum and no difference in the call leaves its type. -/
def Call.Representable (call : Call) (family : Family) (old : UInt64) : Prop :=
  match call with
  | .malloc sz => sz.toNat + 16 < 2 ^ 64
  | .free b => family = .stats ∨ (oldSize b old).toNat ≤ 2 ^ 63
  | .realloc b sz =>
      if sz = 0 then family = .stats ∨ (oldSize b old).toNat ≤ 2 ^ 63
      else sz.toNat + 16 < 2 ^ 64 ∧
        (family = .stats ∨ 2 ^ 63 ≤ sz.toNat + 16 ∨ (oldSize b old).toNat ≤ sz.toNat + 2 ^ 63)

/-! ## The conversions -/

/-- The delta that the hooks compute. -/
def Call.delta (call : Call) (old : UInt64) : Int :=
  match call with
  | .malloc sz => toSsize sz
  | .free b => toSsize (oldSize b old * -1)
  | .realloc b sz =>
      if sz = 0 then toSsize (oldSize b old * -1)
      else if b = 0 then toSsize sz
      else toSsize (sz - old)

theorem toSsize_eq (size : UInt64) :
    toSsize size = (size.toNat : Int) - if 2 ^ 63 ≤ size.toNat then 2 ^ 64 else 0 := by
  have word := size.toNat_lt
  rw [toSsize, Int64.toInt, UInt64.toBitVec_toInt64, BitVec.toInt_eq_toNat_cond,
    UInt64.toNat_toBitVec]
  split_ifs
  · omega
  · omega
  · omega
  · omega

theorem toSsize_small {size : UInt64} (small : size.toNat < 2 ^ 63) :
    toSsize size = (size.toNat : Int) := by
  rw [toSsize_eq, if_neg (by omega), Int.sub_zero]

/-- A difference of two sizes is exact as long as it is representable. -/
theorem toSsize_sub_iff (sz old : UInt64) (small : sz.toNat < 2 ^ 63) :
    toSsize (sz - old) = (sz.toNat : Int) - old.toNat ↔ old.toNat ≤ sz.toNat + 2 ^ 63 := by
  have word := old.toNat_lt
  rw [toSsize_eq, UInt64.toNat_sub]
  split_ifs
  · omega
  · omega

theorem toSsize_neg_iff (old : UInt64) :
    toSsize (old * -1) = -(old.toNat : Int) ↔ old.toNat ≤ 2 ^ 63 := by
  have negated : old * -1 = 0 - old := by
    rw [UInt64.mul_neg, UInt64.mul_one, UInt64.zero_sub]
  rw [negated]
  have exact := toSsize_sub_iff 0 old (by decide)
  rw [UInt64.toNat_zero] at exact
  omega

/-- The addition of the header wraps exactly if the request is too small. -/
theorem headed_iff (sz : UInt64) :
    sz.toNat + 16 ≤ (sz + sizeofMemhdr).toNat ↔ sz.toNat + 16 < 2 ^ 64 := by
  have word := sz.toNat_lt
  have header : sizeofMemhdr.toNat = 16 := rfl
  rw [UInt64.toNat_add, header]
  omega

/-! ## Every trace of a call -/

/-- Every record has this delta.  The ghost value says whether libc has granted
a block, if the headers hold this size. -/
def sizing (old : UInt64) (delta : Int) : Protocol hookMachine Bool where
  may := fun _ o =>
    match o with
    | .insertTail _ mpr => mpr.mprDelta = delta
    | _ => True
  fits := fun _ o r => readsSize old ⟨o, r⟩
  after := fun granted o r =>
    match o, r with
    | .libcMalloc _, p => decide (p ≠ 0)
    | .libcRealloc _ _, p => decide (p ≠ 0)
    | _, _ => granted
  loops := fun _ _ => True
  leave := fun granted => granted

/-- A pointer is returned only if libc has granted a block. -/
def grantedEnds (granted : Bool) (rv : UInt64) : Prop := rv ≠ 0 -> granted = true

/-- Operations that have nothing to do with sizes. -/
def Sizeless : HookOp -> Prop
  | .libcMalloc _ => False
  | .libcRealloc _ _ => False
  | .insertTail _ _ => False
  | _ => True

section Text

variable {α β : Type} {old : UInt64} {delta : Int} {ends : Bool -> β -> Prop} {granted : Bool}

abbrev Sizefree (program : HookM α) : Prop := Protocol.Uses (M := hookMachine) Sizeless program

/-- Skip over a program that has nothing to do with sizes. -/
theorem sizing_skip {program : HookM α} {rest : α -> HookM β} (uses : Sizefree program)
    (onward : forall value, (sizing old delta).Follows ends (rest value) granted) :
    (sizing old delta).Follows ends (program >>= rest) granted := by
  have skipped : (sizing old delta).Follows (fun g _ => g = granted) program granted := by
    apply Protocol.Follows.of_neutral granted _ _ (fun _ => trivial) rfl uses
    · intro o kind
      cases o <;> first | exact trivial | exact kind.elim
    · intro o r kind
      cases o <;> first | rfl | exact kind.elim
  apply Protocol.Follows.bind skipped
  rintro g value rfl
  exact onward value

theorem sizefree_getMprofile (tid : Nat) : Sizefree (getMprofile tid) := by
  refine ⟨trivial, fun mp => ?_⟩
  change Sizefree (if mp = 0 then _ else _)
  split_ifs
  · exact ⟨trivial, fun created => ⟨trivial, fun _ => ⟨trivial, fun _ => trivial⟩⟩⟩
  · trivial

theorem sizefree_collectBacktrace (mps : Option MprofileStack) : Sizefree (collectBacktrace mps) :=
  ⟨trivial, fun _ => trivial⟩

theorem sizefree_initStackBuf : Sizefree initStackBuf := ⟨trivial, fun _ => trivial⟩

theorem sizefree_addCounter (c : Counter) (delta : UInt64) : Sizefree (addCounter c delta) :=
  ⟨trivial, fun _ => trivial⟩

theorem sizefree_updateAlloc (delta : UInt64) : Sizefree (updateAlloc delta) :=
  ⟨trivial, fun _ => ⟨trivial, fun _ => trivial⟩⟩

theorem sizefree_updateRelease (delta : UInt64) : Sizefree (updateRelease delta) :=
  ⟨trivial, fun _ => trivial⟩

/-- The header of the argument is read and checked. -/
theorem sizing_checkMemhdr {b : UInt64} {rest : Memhdr -> HookM β}
    (onward : forall hdr, hdr.mhSize = old -> (sizing old delta).Follows ends (rest hdr) granted) :
    (sizing old delta).Follows ends (checkMemhdr b >>= rest) granted := by
  refine follows_perform trivial (fun hdr reads => ?_)
  change (sizing old delta).Follows ends (Prog.bind (if _ then _ else _) rest) granted
  split_ifs
  · exact ⟨trivial, fun impossible => impossible.elim⟩
  · exact onward hdr reads

/-- A record with the right delta is appended, or there is no memory for it. -/
theorem sizing_record {mp : Nat} {fill : MprofileRecord -> MprofileRecord}
    {mps : Option MprofileStack}
    {rest : Unit -> HookM β} (filled : forall mpr, (fill mpr).mprDelta = delta)
    (onward : (sizing old delta).Follows ends (rest ()) granted) :
    (sizing old delta).Follows ends
      ((createMprofileRecord >>= fun created => match created with
        | none => return ()
        | some mpr => appendRecord mp (fill mpr) mps) >>= rest) granted := by
  refine follows_perform trivial (fun ok _ => ?_)
  cases ok with
  | false => exact onward
  | true =>
      refine follows_perform trivial (fun now _ => ?_)
      refine follows_perform trivial (fun mprId _ => ?_)
      refine follows_perform (filled _) (fun _ _ => ?_)
      cases mps with
      | none => exact onward
      | some mps =>
        exact follows_perform trivial (fun _ _ => follows_perform trivial (fun _ _ => onward))

theorem sizing_mallocHeaded {sz : UInt64} {rest : UInt64 -> HookM β}
    (onward : forall granted rv, grantedEnds granted rv ->
      (sizing old delta).Follows ends (rest rv) granted) :
    (sizing old delta).Follows ends (mallocHeaded sz >>= rest) granted := by
  refine follows_perform trivial (fun mh _ => ?_)
  change (sizing old delta).Follows ends (Prog.bind (if mh ≠ 0 then _ else _) rest)
    (decide (mh ≠ 0))
  by_cases null : mh = 0
  · rw [if_neg (not_not.mpr null)]
    exact onward _ 0 (fun impossible => absurd rfl impossible)
  · rw [if_pos null]
    exact follows_perform trivial (fun _ _ => onward _ _ (fun _ => decide_eq_true null))

theorem sizing_mpCryptoMallocStats (sz : UInt64) :
    (sizing old delta).Follows grantedEnds (mpCryptoMallocStats sz) granted := by
  refine follows_perform trivial (fun mh _ => ?_)
  change (sizing old delta).Follows grantedEnds (if mh ≠ 0 then _ else _) (decide (mh ≠ 0))
  by_cases null : mh = 0
  · rw [if_neg (not_not.mpr null)]
    exact fun impossible => absurd rfl impossible
  · rw [if_pos null]
    refine follows_perform trivial (fun _ _ => ?_)
    refine sizing_skip (sizefree_addCounter _ _) (fun _ => ?_)
    refine sizing_skip (sizefree_addCounter _ _) (fun _ => ?_)
    exact sizing_skip (sizefree_updateAlloc _) (fun _ _ => decide_eq_true null)

theorem sizing_recordMalloc {mp : Nat} {rv sz : UInt64} {mps : Option MprofileStack}
    (grants : grantedEnds granted rv) :
    (sizing old (toSsize sz)).Follows grantedEnds
      (do if mp ≠ 0 then mprofileRecordAlloc mp rv sz mps
          return rv) granted := by
  split_ifs
  · exact sizing_record (fun _ => rfl) grants
  · exact grants

theorem sizing_mpCryptoFreeStats (b : UInt64) :
    (sizing old delta).Follows (fun _ _ => True) (mpCryptoFreeStats b) granted := by
  unfold mpCryptoFreeStats
  split_ifs
  · refine sizing_checkMemhdr (fun hdr _ => ?_)
    refine sizing_skip (sizefree_addCounter _ _) (fun _ => ?_)
    refine sizing_skip (sizefree_addCounter _ _) (fun _ => ?_)
    exact sizing_skip (sizefree_updateRelease _) (fun _ => ⟨trivial, fun _ _ => trivial⟩)
  · exact ⟨trivial, fun _ _ => trivial⟩

theorem sizing_freeTraced (mp : Nat) (b : UInt64) (mps : Option MprofileStack) :
    (sizing old (toSsize (oldSize b old * -1))).Follows (fun _ _ => True) (do
        if b ≠ 0 then
          let hdr ← checkMemhdr b
          if mp ≠ 0 then mprofileRecordFree mp b hdr.mhSize mps
          perform (.libcFree (b - sizeofMemhdr))
        else
          if mp ≠ 0 then mprofileRecordFree mp b 0 mps
          perform (.libcFree 0)) granted := by
  by_cases null : b = 0
  · rw [if_neg (not_not.mpr null), oldSize, if_pos null]
    split_ifs
    · exact sizing_record (fun _ => rfl) ⟨trivial, fun _ _ => trivial⟩
    · exact ⟨trivial, fun _ _ => trivial⟩
  · rw [if_pos null, oldSize, if_neg null]
    refine sizing_checkMemhdr ?_
    rintro hdr rfl
    split_ifs
    · exact sizing_record (fun _ => rfl) ⟨trivial, fun _ _ => trivial⟩
    · exact ⟨trivial, fun _ _ => trivial⟩

theorem sizing_reallocStatsTail (b sz : UInt64) (saveMh : Memhdr) (mh : UInt64) :
    (sizing old delta).Follows grantedEnds (reallocStatsTail b sz saveMh mh) (decide (mh ≠ 0)) := by
  unfold reallocStatsTail
  by_cases null : mh = 0
  · rw [if_pos null]
    exact fun impossible => absurd rfl impossible
  · have grants : forall rv, grantedEnds (decide (mh ≠ 0)) rv := fun _ _ => decide_eq_true null
    rw [if_neg null]
    split_ifs
    · exact grants _
    · refine follows_perform trivial (fun _ _ => ?_)
      refine sizing_skip (sizefree_addCounter _ _) (fun _ => ?_)
      refine sizing_skip (sizefree_addCounter _ _) (fun _ => ?_)
      exact sizing_skip (sizefree_updateAlloc _) (fun _ => grants _)
    · refine follows_perform trivial (fun _ _ => ?_)
      refine sizing_skip (sizefree_addCounter _ _) (fun _ => ?_)
      refine sizing_skip (sizefree_updateRelease _) (fun _ => ?_)
      exact sizing_skip (sizefree_addCounter _ _) (fun _ => grants _)
    · refine follows_perform trivial (fun _ _ => ?_)
      refine sizing_skip (sizefree_addCounter _ _) (fun _ => ?_)
      refine sizing_skip (sizefree_addCounter _ _) (fun _ => ?_)
      exact sizing_skip (sizefree_updateAlloc _) (fun _ => grants _)

theorem sizing_mpCryptoReallocStats (b sz : UInt64) :
    (sizing old delta).Follows grantedEnds (mpCryptoReallocStats b sz) granted := by
  unfold mpCryptoReallocStats
  split_ifs
  · refine sizing_checkMemhdr (fun saveMh _ => ?_)
    refine sizing_skip (sizefree_addCounter _ _) (fun _ => ?_)
    refine sizing_skip (sizefree_addCounter _ _) (fun _ => ?_)
    refine sizing_skip (sizefree_updateRelease _) (fun _ => ?_)
    exact follows_perform trivial (fun mh _ => sizing_reallocStatsTail b sz saveMh mh)
  · refine sizing_checkMemhdr (fun saveMh _ => ?_)
    exact follows_perform trivial (fun mh _ => sizing_reallocStatsTail b sz saveMh mh)
  · exact follows_perform trivial (fun mh _ => sizing_reallocStatsTail b sz default mh)

theorem sizing_reallocTraceTail {collect : HookM (Option MprofileStack)}
    (collects : Sizefree collect)
    (mp : Nat) (b sz : UInt64) {saveMh : Memhdr} (reads : b ≠ 0 -> saveMh.mhSize = old)
    (mh : UInt64) :
    (sizing old ((Call.realloc b sz).delta old)).Follows grantedEnds
      (reallocTraceTail collect mp b sz saveMh mh) (decide (mh ≠ 0)) := by
  unfold reallocTraceTail
  by_cases null : mh = 0
  · rw [if_pos null]
    exact fun impossible => absurd rfl impossible
  · have grants : forall rv, grantedEnds (decide (mh ≠ 0)) rv := fun _ _ => decide_eq_true null
    rw [if_neg null]
    by_cases zero : sz = 0
    · rw [if_pos zero]
      exact grants b
    · rw [if_neg zero]
      refine sizing_skip collects (fun mps => ?_)
      split_ifs with hasProfile fresh
      · refine follows_perform trivial (fun _ _ => ?_)
        refine sizing_record (fun _ => ?_) (grants _)
        exact ((if_neg zero).trans (if_pos fresh)).symm
      · refine follows_perform trivial (fun _ _ => ?_)
        refine sizing_record (fun _ => ?_) (grants _)
        rw [reads fresh]
        exact ((if_neg zero).trans (if_neg fresh)).symm
      · exact grants _

theorem sizing_reallocTraced {collect : HookM (Option MprofileStack)} (collects : Sizefree collect)
    (mp : Nat) (mps : Option MprofileStack) (b sz : UInt64) :
    (sizing old ((Call.realloc b sz).delta old)).Follows grantedEnds
      (reallocTraced mp mps collect b sz)
      granted := by
  have asks : forall p granted {saveMh : Memhdr}, (b ≠ 0 -> saveMh.mhSize = old) ->
      (sizing old ((Call.realloc b sz).delta old)).Follows grantedEnds
        (perform (.libcRealloc p (reallocSize sz)) >>= fun mh =>
          reallocTraceTail collect mp b sz saveMh mh) granted := by
    intro p granted saveMh reads
    exact follows_perform trivial (fun mh _ => sizing_reallocTraceTail collects mp b sz reads mh)
  unfold reallocTraced
  by_cases null : b = 0
  · rw [if_neg (not_not.mpr null)]
    have none : b ≠ 0 -> (default : Memhdr).mhSize = old := fun impossible => absurd null impossible
    split_ifs with zero
    · refine sizing_record (fun _ => ?_) (asks _ _ none)
      rw [Call.delta, if_pos zero, oldSize, if_pos null]
    · exact asks _ _ none
  · rw [if_pos null]
    refine sizing_checkMemhdr (fun saveMh reads => ?_)
    split_ifs with zero
    · refine sizing_record (fun _ => ?_) (asks _ _ (fun _ => reads))
      rw [Call.delta, if_pos zero, oldSize, if_neg null, reads]
    · exact asks _ _ (fun _ => reads)

theorem sizing_returned {program : HookM Unit}
    (follows : (sizing old delta).Follows (fun _ _ => True) program granted) :
    (sizing old delta).Follows grantedEnds (program >>= fun _ => return 0) granted :=
  Protocol.Follows.bind follows (fun _ _ _ impossible => absurd rfl impossible)

/-- A pointer is returned only if libc has granted a block.  The counting hooks
append no record, so any delta will do. -/
theorem sizing_hook_stats (tid : Nat) (call : Call) :
    (sizing old delta).Follows grantedEnds (hook .stats tid call) granted := by
  cases call with
  | malloc sz => exact sizing_mpCryptoMallocStats sz
  | free b => exact sizing_returned (sizing_mpCryptoFreeStats b)
  | realloc b sz => exact sizing_mpCryptoReallocStats b sz

/-- Every record of a call has the delta that the hooks compute. -/
theorem sizing_hook (family : Family) (tid : Nat) (call : Call)
    (computed : family = .stats ∨ delta = call.delta old) :
    (sizing old delta).Follows grantedEnds (hook family tid call) granted := by
  cases family with
  | stats => exact sizing_hook_stats tid call
  | trace =>
      have same := computed.resolve_left (by decide)
      subst same
      cases call with
      | malloc sz =>
          refine sizing_skip (sizefree_getMprofile tid) (fun mp => ?_)
          exact sizing_mallocHeaded (fun granted rv grants => sizing_recordMalloc grants)
      | free b =>
          apply sizing_returned
          exact sizing_skip (sizefree_getMprofile tid) (fun mp => sizing_freeTraced mp b none)
      | realloc b sz =>
          have collects : Sizefree (return (none : Option MprofileStack)) := trivial
          exact sizing_skip (sizefree_getMprofile tid) (fun mp =>
            sizing_reallocTraced collects mp none b sz)
  | traceWithStack =>
      have same := computed.resolve_left (by decide)
      subst same
      cases call with
      | malloc sz =>
          refine sizing_skip (sizefree_getMprofile tid) (fun mp => ?_)
          refine sizing_skip sizefree_initStackBuf (fun mps => ?_)
          refine sizing_mallocHeaded (fun granted rv grants => ?_)
          exact sizing_skip (sizefree_collectBacktrace mps) (fun mps => sizing_recordMalloc grants)
      | free b =>
          apply sizing_returned
          refine sizing_skip (sizefree_getMprofile tid) (fun mp => ?_)
          refine sizing_skip sizefree_initStackBuf (fun mps => ?_)
          exact sizing_skip (sizefree_collectBacktrace mps) (fun mps => sizing_freeTraced mp b mps)
      | realloc b sz =>
          refine sizing_skip (sizefree_getMprofile tid) (fun mp => ?_)
          refine sizing_skip sizefree_initStackBuf (fun mps => ?_)
          exact sizing_reallocTraced (sizefree_collectBacktrace mps) mp mps b sz

end Text

/-! ## What a trace of a call shows -/

section Bounds

variable {family : Family} {tid : Nat} {call : Call} {old rv : UInt64} {delta : Int}
  {trace : List (Event hookMachine)}

/-- The requests in a trace are the one that the call makes. -/
theorem requested_trace (performs : Performs (hook family tid call) trace rv) :
    requested trace = [call.request] := by
  have collects : forall (trace : List (Event hookMachine)) (seen : List LibcRequest),
      requesting.Along (fun seen' => seen' = [call.request]) seen trace ->
        seen ++ requested trace = [call.request] := by
    intro trace
    induction trace with
    | nil =>
        intro seen all
        exact (List.append_nil seen).trans all
    | cons event rest inductionHypothesis =>
        intro seen along
        have onward := inductionHypothesis _ along.2
        rw [requested, List.flatMap_cons, ← List.append_assoc]
        exact onward
  have fits : requesting.FitsAll [] trace := Protocol.FitsAll.of_forall (fun _ _ _ => trivial) []
  exact collects trace []
    (Protocol.Follows.along performs (fun _ => rfl) (requests_hook family tid call) fits)

/-- If libc grants a block within its limit, a request of the trace is small. -/
theorem small_of_granted {granted : Bool} (returned : rv ≠ 0)
    (along : (sizing old delta).Along (fun g => grantedEnds g rv) granted trace)
    (limits : forall event, event ∈ trace -> withinLimit event) :
    granted = true ∨ Exists fun request => request ∈ requested trace ∧
      request.size.toNat < 2 ^ 63 := by
  induction trace generalizing granted with
  | nil => exact Or.inl (along returned)
  | cons event rest inductionHypothesis =>
      have later : forall {request}, request ∈ requested rest ->
          request ∈ requested (event :: rest) :=
        fun member => List.mem_append_right _ member
      rcases inductionHypothesis along.2
          (fun e member => limits e (List.mem_cons_of_mem _ member)) with
        grants | ⟨request, member, small⟩
      · have limit := limits event List.mem_cons_self
        rcases event with ⟨o, r⟩
        cases o with
        | libcMalloc size =>
            exact Or.inr ⟨.malloc size, List.mem_append_left _ List.mem_cons_self,
              limit (of_decide_eq_true grants)⟩
        | libcRealloc p size =>
            exact Or.inr ⟨.realloc p size, List.mem_append_left _ List.mem_cons_self,
              limit (of_decide_eq_true grants)⟩
        | _ => exact Or.inl grants
      · exact Or.inr ⟨request, later member, small⟩

theorem logged_trace (realistic : Realistic old trace)
    (performs : Performs (hook family tid call) trace rv)
    (computed : family = .stats ∨ delta = call.delta old) :
    (forall entry, entry ∈ logged trace -> entry = delta) ∧
      (rv ≠ 0 -> call.request.size.toNat < 2 ^ 63) := by
  have fits : (sizing old delta).FitsAll false trace :=
    Protocol.FitsAll.of_forall (fun _ event member => realistic.reads event member) false
  have along :=
    Protocol.Follows.along performs (fun _ => rfl) (sizing_hook family tid call computed) fits
  constructor
  · intro entry member
    rcases List.mem_flatMap.mp member with ⟨event, inTrace, appended⟩
    have entails : forall (g : Bool) (o : HookOp), (sizing old delta).may g o ->
        forall value, value ∈ o.deltas -> value = delta := by
      intro g o may value inDeltas
      cases o with
      | insertTail mp mpr => exact (List.mem_singleton.mp inDeltas).trans may
      | _ => cases inDeltas
    exact Protocol.Along.forall_event entails along event inTrace entry appended
  · intro returned
    rcases small_of_granted returned along realistic.limits with
      impossible | ⟨request, member, small⟩
    · cases impossible
    · rw [requested_trace performs, List.mem_singleton] at member
      exact member ▸ small

end Bounds

/-! ## A trace in which everything is granted -/

/-- Everything that a hook asks for is granted, and headers check. -/
def granting (old : UInt64) : (o : HookOp) -> Option o.Res
  | .libcMalloc _ => some (4096 : UInt64)
  | .libcFree _ => some ()
  | .libcRealloc _ _ => some (4096 : UInt64)
  | .loadMemhdr p => some ⟨old, mkChk p old⟩
  | .storeMemhdr _ _ => some ()
  | .abort => none
  | .addFetch _ _ => some (0 : UInt64)
  | .subFetch _ _ => some (0 : UInt64)
  | .loadMax => some (0 : UInt64)
  | .getSpecific _ => some (1 : Nat)
  | .setSpecific _ _ => some ()
  | .mprofileCreate => some (1 : Nat)
  | .mprofileAdd _ => some ()
  | .allocRecord => some true
  | .clockGettime => some ⟨1, 0⟩
  | .drawId _ => some (1 : Nat)
  | .insertTail _ _ => some ()
  | .addStack _ _ => some (1 : Nat)
  | .setStackId _ _ _ => some ()
  | .stackBuf => some (0, fun _ => 0)
  | .backtrace => some []

/-- The program ends with this value and has appended records with these deltas. -/
def GrantedRun {α : Type} (old : UInt64) (program : HookM α) (value : α)
    (deltas : List Int) : Prop :=
  Exists fun trace : List (Event hookMachine) =>
    replayWith (granting old) program = some (trace, value) ∧ logged trace = deltas

section Grants

variable {α β : Type} {old : UInt64}

theorem GrantedRun.bind {program : HookM α} {rest : α -> HookM β} {middle : α} {value : β}
    {first second : List Int} (granted : GrantedRun old program middle first)
    (onward : GrantedRun old (rest middle) value second) :
    GrantedRun old (program >>= rest) value (first ++ second) := by
  rcases granted with ⟨trace, replayed, rfl⟩
  rcases onward with ⟨later, ended, rfl⟩
  exact ⟨trace ++ later, replayWith_bind replayed ended, List.flatMap_append⟩

/-- The headers of the reply check. -/
theorem granted_checkMemhdr (b : UInt64) :
    GrantedRun old (checkMemhdr b) ⟨old, mkChk (b - sizeofMemhdr) old⟩ [] := by
  refine ⟨[⟨.loadMemhdr (b - sizeofMemhdr), ⟨old, mkChk (b - sizeofMemhdr) old⟩⟩], ?_, rfl⟩
  have checks : ¬ mkChk (b - sizeofMemhdr) old ≠ mkChk (b - sizeofMemhdr) old := not_not.mpr rfl
  rw [checkMemhdr, perform, Prog.bind_def, Prog.op_bind, replayWith]
  simp only [granting, Prog.ret_bind, if_neg checks]
  rfl

theorem granted_freeTraced (b : UInt64) (mps : Option MprofileStack) :
    GrantedRun old (do
        if b ≠ 0 then
          let hdr ← checkMemhdr b
          if 1 ≠ 0 then mprofileRecordFree 1 b hdr.mhSize mps
          perform (.libcFree (b - sizeofMemhdr))
        else
          if 1 ≠ 0 then mprofileRecordFree 1 b 0 mps
          perform (.libcFree 0)) () [toSsize (oldSize b old * -1)] := by
  by_cases null : b = 0
  · rw [if_neg (not_not.mpr null), oldSize, if_pos null]
    cases mps with
    | none => exact ⟨_, rfl, rfl⟩
    | some mps => exact ⟨_, rfl, rfl⟩
  · rw [if_pos null, oldSize, if_neg null]
    apply (granted_checkMemhdr b).bind
    cases mps with
    | none => exact ⟨_, rfl, rfl⟩
    | some mps => exact ⟨_, rfl, rfl⟩

theorem granted_reallocStatsTail (b : UInt64) {sz : UInt64} (positive : sz ≠ 0) (saveMh : Memhdr) :
    GrantedRun old (reallocStatsTail b sz saveMh 4096) 4112 [] := by
  rw [reallocStatsTail, if_neg (by decide), if_neg positive]
  by_cases null : b = 0
  · simp only [if_pos null]
    exact ⟨_, rfl, rfl⟩
  · by_cases shrinks : saveMh.mhSize > sz
    · simp only [if_neg null, if_pos shrinks]
      exact ⟨_, rfl, rfl⟩
    · simp only [if_neg null, if_neg shrinks]
      exact ⟨_, rfl, rfl⟩

/-- The counting `realloc` returns a pointer for a size that is not 0. -/
theorem granted_mpCryptoReallocStats (b : UInt64) {sz : UInt64} (positive : sz ≠ 0) :
    GrantedRun old (mpCryptoReallocStats b sz) 4112 [] := by
  unfold mpCryptoReallocStats
  by_cases null : b = 0
  · rw [if_neg (not_not.mpr null)]
    have asked : GrantedRun old (perform (.libcRealloc 0 (reallocSize sz))) 4096 [] := ⟨_, rfl, rfl⟩
    exact asked.bind (granted_reallocStatsTail b positive default)
  · rw [if_pos null]
    apply (granted_checkMemhdr b).bind
    rw [if_neg positive]
    have asked : GrantedRun old (perform (.libcRealloc (b - sizeofMemhdr) (reallocSize sz)))
        4096 [] :=
      ⟨_, rfl, rfl⟩
    exact asked.bind (granted_reallocStatsTail b positive _)

theorem granted_reallocTraceTail {collect : HookM (Option MprofileStack)}
    {mps : Option MprofileStack}
    (collects : GrantedRun old collect mps []) (b : UInt64) {sz : UInt64} (positive : sz ≠ 0)
    {saveMh : Memhdr} (reads : b ≠ 0 -> saveMh.mhSize = old) :
    GrantedRun old (reallocTraceTail collect 1 b sz saveMh 4096) 4112
      [(Call.realloc b sz).delta old] := by
  rw [reallocTraceTail, if_neg (by decide), if_neg positive, Call.delta, if_neg positive]
  apply collects.bind
  by_cases null : b = 0
  · simp only [if_pos null]
    cases mps with
    | none => exact ⟨_, rfl, rfl⟩
    | some mps => exact ⟨_, rfl, rfl⟩
  · simp only [if_neg null, reads null]
    cases mps with
    | none => exact ⟨_, rfl, rfl⟩
    | some mps => exact ⟨_, rfl, rfl⟩

theorem granted_reallocTraced {collect : HookM (Option MprofileStack)}
    {after : Option MprofileStack}
    (collects : GrantedRun old collect after []) (mps : Option MprofileStack) (b sz : UInt64) :
    Exists fun rv =>
      GrantedRun old (reallocTraced 1 mps collect b sz) rv [(Call.realloc b sz).delta old] ∧
      (sz ≠ 0 -> rv ≠ 0) := by
  -- a call with size 0 appends its record before it asks libc, the others after
  have freed : forall p saveMh, sz = 0 ->
      GrantedRun old (perform (.libcRealloc p (reallocSize sz)) >>= fun mh =>
        reallocTraceTail collect 1 b sz saveMh mh) b [] := by
    rintro p saveMh rfl
    exact ⟨_, rfl, rfl⟩
  have resized : forall p (saveMh : Memhdr), sz ≠ 0 -> (b ≠ 0 -> saveMh.mhSize = old) ->
      GrantedRun old (perform (.libcRealloc p (reallocSize sz)) >>= fun mh =>
        reallocTraceTail collect 1 b sz saveMh mh) 4112 [(Call.realloc b sz).delta old] := by
    intro p saveMh positive reads
    have asked : GrantedRun old (perform (.libcRealloc p (reallocSize sz))) 4096 [] := ⟨_, rfl, rfl⟩
    exact asked.bind (granted_reallocTraceTail collects b positive reads)
  have recorded : forall size : UInt64, GrantedRun old (mprofileRecordFree 1 b size mps) ()
      [toSsize (size * -1)] := by
    intro size
    cases mps with
    | none => exact ⟨_, rfl, rfl⟩
    | some mps => exact ⟨_, rfl, rfl⟩
  unfold reallocTraced
  by_cases null : b = 0
  · rw [if_neg (not_not.mpr null)]
    by_cases zero : sz = 0
    · refine ⟨b, ?_, fun positive => absurd zero positive⟩
      rw [if_pos zero, Call.delta, if_pos zero, oldSize, if_pos null]
      exact (recorded 0).bind (freed 0 default zero)
    · refine ⟨4112, ?_, fun _ => by decide⟩
      rw [if_neg zero]
      exact resized 0 default zero (fun impossible => absurd null impossible)
  · rw [if_pos null]
    by_cases zero : sz = 0
    · refine ⟨b, (granted_checkMemhdr b).bind ?_, fun positive => absurd zero positive⟩
      rw [if_pos zero, Call.delta, if_pos zero, oldSize, if_neg null]
      exact (recorded old).bind (freed _ _ zero)
    · refine ⟨4112, (granted_checkMemhdr b).bind ?_, fun _ => by decide⟩
      rw [if_neg zero]
      exact resized _ _ zero (fun _ => rfl)

/-- What the hooks of a family log of a call. -/
def Family.deltas (family : Family) (call : Call) (old : UInt64) : List Int :=
  match family with
  | .stats => []
  | .trace => [call.delta old]
  | .traceWithStack => [call.delta old]

/-- The call asks for a block. -/
def Call.Sized : Call -> Prop
  | .malloc _ => True
  | .free _ => False
  | .realloc _ sz => sz ≠ 0

/-- A call in which everything is granted returns a pointer and logs its record. -/
theorem granted_hook {family : Family} (tid : Nat) {call : Call}
    (traced : family ≠ .stats ∨ call.Sized) :
    Exists fun rv => GrantedRun old (hook family tid call) rv (family.deltas call old) ∧
      (call.Sized -> rv ≠ 0) := by
  have profile : GrantedRun old (getMprofile tid) 1 [] := ⟨_, rfl, rfl⟩
  have buffer : GrantedRun old initStackBuf (mprofileInitStack 0 sizeofStackBuf (fun _ => 0)) [] :=
    ⟨_, rfl, rfl⟩
  have collects : forall mps, GrantedRun old (collectBacktrace mps) mps [] := by
    intro mps
    cases mps with
    | none => exact ⟨_, rfl, rfl⟩
    | some mps => exact ⟨_, rfl, rfl⟩
  have returned : forall {program : HookM Unit} {deltas : List Int},
      GrantedRun old program () deltas ->
      GrantedRun old (program >>= fun _ => return (0 : UInt64)) 0 deltas := by
    intro program deltas granted
    have nothing : GrantedRun old (return (0 : UInt64)) 0 [] := ⟨[], rfl, rfl⟩
    have ended : GrantedRun old (program >>= fun _ => return (0 : UInt64)) 0 (deltas ++ []) :=
      granted.bind nothing
    rwa [List.append_nil] at ended
  cases call with
  | malloc sz =>
      cases family with
      | stats => exact ⟨4112, ⟨_, rfl, rfl⟩, fun _ => by decide⟩
      | trace => exact ⟨4112, ⟨_, rfl, rfl⟩, fun _ => by decide⟩
      | traceWithStack => exact ⟨4112, ⟨_, rfl, rfl⟩, fun _ => by decide⟩
  | free b =>
      refine ⟨0, ?_, fun impossible => impossible.elim⟩
      cases family with
      | stats => exact (traced.resolve_left (not_not.mpr rfl)).elim
      | trace =>
          apply returned
          exact profile.bind (granted_freeTraced b none)
      | traceWithStack =>
          apply returned
          exact profile.bind (buffer.bind ((collects _).bind (granted_freeTraced b _)))
  | realloc b sz =>
      cases family with
      | stats =>
          have positive : sz ≠ 0 := traced.resolve_left (not_not.mpr rfl)
          exact ⟨4112, granted_mpCryptoReallocStats b positive, fun _ => by decide⟩
      | trace =>
          rcases granted_reallocTraced (⟨[], rfl, rfl⟩ : GrantedRun old (return none) none [])
              none b sz with
            ⟨rv, granted, positive⟩
          exact ⟨rv, profile.bind granted, positive⟩
      | traceWithStack =>
          rcases granted_reallocTraced (collects _)
              (mprofileInitStack 0 sizeofStackBuf (fun _ => 0)) b sz with
            ⟨rv, granted, positive⟩
          exact ⟨rv, profile.bind (buffer.bind granted), positive⟩

/-- If the request is not above the limit, such a trace is realistic. -/
theorem realistic_granted {family : Family} (tid : Nat) {call : Call}
    (traced : family ≠ .stats ∨ call.Sized) (small : call.request.size.toNat < 2 ^ 63)
    (old : UInt64) :
    Exists fun trace => Exists fun rv => Performs (hook family tid call) trace rv ∧
      Realistic old trace ∧ logged trace = family.deltas call old ∧ (call.Sized -> rv ≠ 0) := by
  rcases @granted_hook old family tid call traced with ⟨rv, ⟨trace, replayed, deltas⟩, positive⟩
  rcases replayWith_performs replayed with ⟨performs, replies⟩
  refine ⟨trace, rv, performs, ⟨fun event member => ?_, fun event member => ?_⟩, deltas, positive⟩
  · have asked : forall request, request ∈ HookOp.requests event.1 ->
        request.size.toNat < 2 ^ 63 := by
      intro request inRequests
      have inTrace : request ∈ requested trace := List.mem_flatMap.mpr ⟨event, member, inRequests⟩
      rw [requested_trace performs, List.mem_singleton] at inTrace
      exact inTrace ▸ small
    rcases event with ⟨o, r⟩
    cases o with
    | libcMalloc size => exact fun _ => asked (.malloc size) List.mem_cons_self
    | libcRealloc p size => exact fun _ => asked (.realloc p size) List.mem_cons_self
    | _ => trivial
  · have replied := replies event member
    rcases event with ⟨o, r⟩
    cases o with
    | loadMemhdr p => exact (congrArg Memhdr.mhSize (Option.some.inj replied)).symm
    | _ => trivial

end Grants

/-! ## Exact sizes -/

section Exactness

variable {family : Family} {tid : Nat} {call : Call} {old sz o : UInt64}
  {trace : List (Event hookMachine)}

theorem Call.delta_realloc {b : UInt64} (positive : sz ≠ 0) :
    (Call.realloc b sz).delta old = toSsize (sz - oldSize b old) := by
  rw [Call.delta, if_neg positive, oldSize]
  split_ifs
  · rw [UInt64.sub_zero]
  · rfl

theorem Call.delta_malloc : (Call.malloc sz).delta old = toSsize (sz - 0) := by
  rw [Call.delta, UInt64.sub_zero]

theorem request_realloc {b : UInt64} (positive : sz ≠ 0) :
    (Call.realloc b sz).request.size = sz + sizeofMemhdr := if_pos positive

/-- A call that asks for a block, if its request does not wrap and its difference
is representable or not logged. -/
theorem grown_of_fits (asks : call.request.size = sz + sizeofMemhdr)
    (delta : call.delta old = toSsize (sz - o)) (fits : sz.toNat + 16 < 2 ^ 64)
    (difference : family = .stats ∨ 2 ^ 63 ≤ sz.toNat + 16 ∨ o.toNat ≤ sz.toNat + 2 ^ 63)
    (realistic : Realistic old trace) {rv : UInt64}
    (performs : Performs (hook family tid call) trace rv)
    (returned : rv ≠ 0) : Grown sz o trace := by
  have room := (headed_iff sz).mpr fits
  have small := (logged_trace realistic performs (Or.inr rfl)).2 returned
  rw [asks] at small
  refine ⟨⟨call.request, requested_trace performs, asks ▸ room⟩, ?_⟩
  have computed : family = .stats ∨ (sz.toNat : Int) - o.toNat = call.delta old := by
    rcases difference with stats | large | within
    · exact Or.inl stats
    · omega
    · rw [delta]
      exact Or.inr ((toSsize_sub_iff sz o (by omega)).mpr within).symm
  exact (logged_trace realistic performs computed).1

/-- The same read backwards, in the trace in which everything is granted. -/
theorem fits_of_grown (asks : call.request.size = sz + sizeofMemhdr) (sized : call.Sized)
    (delta : call.delta old = toSsize (sz - o))
    (always : forall trace rv, Performs (hook family tid call) trace rv -> Realistic old trace ->
      rv ≠ 0 -> Grown sz o trace) :
    sz.toNat + 16 < 2 ^ 64 ∧
      (family = .stats ∨ 2 ^ 63 ≤ sz.toNat + 16 ∨ o.toNat ≤ sz.toNat + 2 ^ 63) := by
  have header : (sz + sizeofMemhdr).toNat = (sz.toNat + 16) % 2 ^ 64 :=
    UInt64.toNat_add sz sizeofMemhdr
  have grown : call.request.size.toNat < 2 ^ 63 -> sz.toNat + 16 < 2 ^ 64 ∧
      (family = .stats ∨ toSsize (sz - o) = (sz.toNat : Int) - o.toNat) := by
    intro small
    rcases realistic_granted tid (Or.inr sized) small old with
      ⟨trace, rv, performs, realistic, deltas, positive⟩
    rcases always trace rv performs realistic (positive sized) with
      ⟨⟨request, asked, room⟩, exactly⟩
    rw [requested_trace performs] at asked
    cases asked
    rw [asks, headed_iff] at room
    refine ⟨room, ?_⟩
    rw [deltas, ← delta] at *
    cases family with
    | stats => exact Or.inl rfl
    | trace => exact Or.inr (exactly _ List.mem_cons_self)
    | traceWithStack => exact Or.inr (exactly _ List.mem_cons_self)
  rw [asks, header] at grown
  by_cases wraps : 2 ^ 64 ≤ sz.toNat + 16
  · have word := sz.toNat_lt
    have impossible := (grown (by omega)).1
    omega
  · refine ⟨by omega, ?_⟩
    by_cases large : 2 ^ 63 ≤ sz.toNat + 16
    · exact Or.inr (Or.inl large)
    · rcases (grown (by omega)).2 with stats | exactly
      · exact Or.inl stats
      · exact Or.inr (Or.inr ((toSsize_sub_iff sz o (by omega)).mp exactly))

/-- A call that releases its argument logs minus its size, as long as that is representable. -/
theorem released_of_fits (delta : call.delta old = toSsize (o * -1))
    (difference : family = .stats ∨ o.toNat ≤ 2 ^ 63) (realistic : Realistic old trace)
    {rv : UInt64}
    (performs : Performs (hook family tid call) trace rv) : Released o trace := by
  have computed : family = .stats ∨ -(o.toNat : Int) = call.delta old := by
    rcases difference with stats | within
    · exact Or.inl stats
    · rw [delta]
      exact Or.inr ((toSsize_neg_iff o).mpr within).symm
  exact (logged_trace realistic performs computed).1

theorem fits_of_released (delta : call.delta old = toSsize (o * -1))
    (small : call.request.size.toNat < 2 ^ 63)
    (always : forall trace rv, Performs (hook family tid call) trace rv -> Realistic old trace ->
      Released o trace) : family = .stats ∨ o.toNat ≤ 2 ^ 63 := by
  by_cases stats : family = .stats
  · exact Or.inl stats
  · rcases realistic_granted tid (Or.inl stats) small old with
      ⟨trace, rv, performs, realistic, deltas, -⟩
    have released := always trace rv performs realistic
    rw [← toSsize_neg_iff, ← delta]
    rw [Released, deltas] at released
    cases family with
    | stats => exact absurd rfl stats
    | trace => exact Or.inr (released _ List.mem_cons_self)
    | traceWithStack => exact Or.inr (released _ List.mem_cons_self)

theorem exact_iff_representable (family : Family) (tid : Nat) (call : Call) (old : UInt64) :
    (forall trace rv, Performs (hook family tid call) trace rv -> Realistic old trace ->
      call.Exact old trace rv) ↔ call.Representable family old := by
  cases call with
  | malloc sz =>
      constructor
      · have sized : (Call.malloc sz).Sized := trivial
        exact fun always => (fits_of_grown rfl sized Call.delta_malloc always).1
      · intro fits trace rv performs realistic returned
        exact grown_of_fits rfl Call.delta_malloc fits (Or.inr (Or.inr (Nat.zero_le _))) realistic
          performs returned
  | free b =>
      constructor
      · have small : (Call.free b).request.size.toNat < 2 ^ 63 := by
          change (0 : UInt64).toNat < 2 ^ 63
          decide
        exact fun always => fits_of_released rfl small always
      · intro fits trace rv performs realistic
        exact released_of_fits rfl fits realistic performs
  | realloc b sz =>
      by_cases zero : sz = 0
      · have delta : (Call.realloc b sz).delta old = toSsize (oldSize b old * -1) := if_pos zero
        simp only [Call.Exact, Call.Representable, if_pos zero]
        constructor
        · intro always
          apply fits_of_released delta _ always
          rw [Call.request, LibcRequest.size, reallocSize, zero]
          decide
        · intro fits trace rv performs realistic
          exact released_of_fits delta fits realistic performs
      · simp only [Call.Exact, Call.Representable, if_neg zero]
        constructor
        · exact fun always =>
            fits_of_grown (request_realloc zero) zero (Call.delta_realloc zero) always
        · intro fits trace rv performs realistic returned
          exact grown_of_fits (request_realloc zero) (Call.delta_realloc zero) fits.1 fits.2
            realistic
            performs returned

/-- The sizes of a call are exact in all of its traces exactly if they are representable. -/
theorem sizes_exact_iff (family : Family) (tid : Nat) (call : Call) (old : UInt64) :
    (forall trace rv, Performs (hook family tid call) trace rv -> Realistic old trace ->
      call.Exact old trace rv) ↔ call.Representable family old :=
  exact_iff_representable family tid call old

/-- The largest size: libc is asked for 15 bytes. -/
theorem sizes_not_exact :
    ¬ forall (family : Family) (tid : Nat) (call : Call) (old : UInt64)
      (trace : List (Event hookMachine))
      (rv : UInt64), Performs (hook family tid call) trace rv -> Realistic old trace ->
        call.Exact old trace rv := by
  intro always
  have representable : (0 - 1 : UInt64).toNat + 16 < 2 ^ 64 :=
    (exact_iff_representable .trace 0 (.malloc (0 - 1)) 0).mp (always _ _ _ _)
  exact absurd representable (by decide)

/-- A finished run of a call whose sizes are representable has a trace in which they are exact. -/
theorem run_sizes_exact {fuel : Nat} {answer : Answer} {w w' : World} {rv : UInt64}
    (representable : call.Representable family old)
    (ran : hookMachine.run fuel answer (hook family tid call) w = .ok (w', rv)) :
    Exists fun trace => Performs (hook family tid call) trace rv ∧
      (Realistic old trace -> call.Exact old trace rv) := by
  rcases Machine.run_performs ran with ⟨trace, performs⟩
  exact ⟨trace, performs,
    (exact_iff_representable family tid call old).mpr representable trace rv performs⟩

end Exactness

end Mprofile
end OsslScripts
