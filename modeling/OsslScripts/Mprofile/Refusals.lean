import OsslScripts.Foundation.CallLog
import OsslScripts.Mprofile.SavedLog

namespace OsslScripts
namespace Mprofile

open Foundation

/-!
# A tracing hook whose requests may be refused

`naming` is the discipline of a tracing hook towards its own requests and towards
the ids of stacks.  Whatever the profiler gets no memory for, the hook returns the
pointer that libc has given it, and draws an id for each record that there was
memory for.  It adds at most one stack for each id that it draws, and files the
record with that id under this stack, before another thread sees it.

A profile that cannot be created is the exception, because `mprofile_add` is called
with it.  What the hooks return, and that they dereference no null pointer, relies on
its creation; the ids of the stacks do not.
-/

/-- Where a call stands with libc, with its record, and with the sets of stacks. -/
structure Naming where
  /-- What libc has returned to the call. -/
  given : Option UInt64
  /-- There is a record that has no id yet. -/
  pending : Bool
  /-- The id of a record that no stack was added for. -/
  drawn : Option Nat
  /-- A record, its profile, and the id of the stack that is on its way to it. -/
  owed : Option (Nat × Nat × Nat)
deriving DecidableEq, Repr

def Naming.idle : Naming := ⟨none, false, none, none⟩

/-- The pointer of the application for a pointer of libc. -/
def behind (p : UInt64) : UInt64 := if p = 0 then 0 else p + sizeofMemhdr

/-- The call returned the pointer that libc had given; `free` returns none. -/
def Handed (k : Call) (given : Option UInt64) (rv : UInt64) : Prop :=
  match k with
  | .free _ => given = none
  | _ => given.map behind = some rv

/-- A stack in the buffer of a hook, which belongs to no set. -/
def Unmanaged (mps : Option MprofileStack) : Prop :=
  forall stack, mps = some stack -> stack.mpsFlags ≠ mpsFlagManaged

/-- What a call may do.  If it is reliant, its profile is created, and libc answers a
request of size 0 with null. -/
def naming (reliant : Prop) (k : Call) : Protocol hookMachine Naming where
  may := fun g o =>
    match o with
    | .libcMalloc _ => g.owed = none
    | .libcFree _ => g.owed = none
    | .libcRealloc _ _ => g.owed = none
    | .addFetch _ _ => g.owed = none
    | .subFetch _ _ => g.owed = none
    | .loadMax => g.owed = none
    | .mprofileCreate => g.owed = none
    | .mprofileAdd mp => g.owed = none ∧ (reliant -> mp ≠ 0)
    | .allocRecord => g.pending = false
    | .drawId _ => g.owed = none ∧ g.pending = true
    | .insertTail mp mpr => mp ≠ 0 ∧ mpr.mprStackId = 0
    | .addStack _ mps => g.drawn ≠ none ∧ g.owed = none ∧ mps.mpsFlags ≠ mpsFlagManaged
    | .setStackId mp mprId stackId => g.owed = some (mprId, mp, stackId)
    | _ => True
  fits := fun _ o r =>
    match o, r with
    | .mprofileCreate, mp => reliant -> mp ≠ 0
    | .mprofileAdd mp, _ => mp ≠ 0
    | .libcRealloc _ _, p => reliant -> forall b, k = .realloc b 0 -> p = 0
    | _, _ => True
  after := fun g o r =>
    match o, r with
    | .libcMalloc _, p => { g with given := some p }
    | .libcRealloc _ _, p => { g with given := some p }
    | .allocRecord, ok => { g with pending := ok }
    | .drawId _, mprId => { g with pending := false, drawn := some mprId }
    | .addStack mp _, stackId =>
        { g with drawn := none, owed := g.drawn.map (fun mprId => (mprId, mp, stackId)) }
    | .setStackId _ _ _, _ => { g with owed := none }
    | _, _ => g
  loops := fun _ _ => False
  leave := fun g => g

/-- Nothing is on its way. -/
structure Naming.Clear (g : Naming) : Prop where
  owed : g.owed = none
  pending : g.pending = false

theorem clear_idle : Naming.idle.Clear := ⟨rfl, rfl⟩

theorem Naming.Clear.given {g : Naming} (clear : g.Clear) (p : UInt64) :
    ({ g with given := some p } : Naming).Clear := ⟨clear.owed, clear.pending⟩

/-- How a call ends. -/
def namingEnds (reliant : Prop) (k : Call) (g : Naming) (rv : UInt64) : Prop :=
  g.Clear ∧ (reliant -> Handed k g.given rv)

section Text

variable {reliant : Prop} {k : Call} {α β : Type} {ends : Naming -> α -> Prop} {g : Naming}
  {mp : Nat}

/-- The program leaves nothing on its way, and asks libc for nothing. -/
def KeepsGiven (reliant : Prop) (k : Call) (program : HookM α) : Prop :=
  forall g : Naming, g.Clear -> 
    (naming reliant k).Follows (fun after _ => after.Clear ∧ after.given = g.given) program g

/-- Go on with the same pointer of libc. -/
theorem KeepsGiven.follows {program : HookM β} {rest : β -> HookM α}
    (first : KeepsGiven reliant k program)
    (clear : g.Clear) (onward : forall value after, after.Clear -> after.given = g.given ->
      (naming reliant k).Follows ends (rest value) after) :
    (naming reliant k).Follows ends (program >>= rest) g :=
  Protocol.Follows.bind (first g clear) (fun after value same => onward value after same.1 same.2)

theorem KeepsGiven.bind {program : HookM β} {rest : β -> HookM α}
    (first : KeepsGiven reliant k program)
    (second : forall value, KeepsGiven reliant k (rest value)) :
    KeepsGiven reliant k (program >>= rest) := by
  intro g clear
  apply first.follows clear
  intro value after clear' same
  exact (second value after clear').weaken (fun final _ kept => ⟨kept.1, kept.2.trans same⟩)

/-- The program delivers the stack of the call. -/
def Collects (reliant : Prop) (k : Call) (collect : HookM (Option MprofileStack)) : Prop :=
  forall g : Naming, g.Clear -> (naming reliant k).Follows
    (fun after mps => (after.Clear ∧ after.given = g.given) ∧ Unmanaged mps) collect g

/-- Go on with the stack of the call. -/
theorem Collects.follows {collect : HookM (Option MprofileStack)}
    {rest : Option MprofileStack -> HookM α}
    (collects : Collects reliant k collect) (clear : g.Clear)
    (onward : forall mps after, Unmanaged mps -> after.Clear -> after.given = g.given ->
      (naming reliant k).Follows ends (rest mps) after) :
    (naming reliant k).Follows ends (collect >>= rest) g :=
  Protocol.Follows.bind (collects g clear)
    (fun after mps both => onward mps after both.2 both.1.1 both.1.2)

theorem unmanaged_none : Unmanaged none := fun _ impossible => by cases impossible

theorem collects_none : Collects reliant k (pure none) :=
  fun _ clear => ⟨⟨clear, rfl⟩, unmanaged_none⟩

/-! ## Recording -/

/-- A record without an id gets one, and may be filed under a stack. -/
theorem naming_appendRecord {mpr : MprofileRecord} {mps : Option MprofileStack} (profiled : mp ≠ 0)
    (unmanaged : Unmanaged mps) (blank : mpr.mprStackId = 0) (owed : g.owed = none)
    (pending : g.pending = true) :
    (naming reliant k).Follows (fun after _ => after.Clear ∧ after.given = g.given)
      (appendRecord mp mpr mps) g := by
  refine follows_perform ⟨owed, pending⟩ (fun mprId _ => ?_)
  refine follows_perform ⟨profiled, blank⟩ (fun _ _ => ?_)
  cases mps with
  | none => exact ⟨⟨owed, rfl⟩, rfl⟩
  | some mps =>
      refine follows_perform ⟨Option.some_ne_none mprId, owed, unmanaged mps rfl⟩
        (fun stackId _ => ?_)
      exact ⟨rfl, fun _ _ => ⟨⟨rfl, rfl⟩, rfl⟩⟩

/-- A record is appended if there is memory for it, and otherwise nothing is done. -/
theorem keepsGiven_record {fill : MprofileRecord -> HookM Unit}
    (filled : forall now (g : Naming), g.owed = none -> g.pending = true ->
      (naming reliant k).Follows (fun after _ => after.Clear ∧ after.given = g.given)
        (fill { (default : MprofileRecord) with mprTs := now }) g) :
    KeepsGiven reliant k
      (createMprofileRecord >>= fun created => match created with
        | none => pure ()
        | some mpr => fill mpr) := by
  intro g clear
  apply follows_perform clear.pending
  intro ok _
  cases ok with
  | false => exact ⟨⟨clear.owed, rfl⟩, rfl⟩
  | true =>
    exact follows_perform trivial
      (fun now _ => filled now { g with pending := true } clear.owed rfl)

variable {mps : Option MprofileStack}

theorem keepsGiven_mprofileRecordAlloc (profiled : mp ≠ 0) (buf bufSz : UInt64)
    (unmanaged : Unmanaged mps) :
    KeepsGiven reliant k (mprofileRecordAlloc mp buf bufSz mps) :=
  keepsGiven_record
    (fun _ _ owed pending => naming_appendRecord profiled unmanaged rfl owed pending)

theorem keepsGiven_mprofileRecordFree (profiled : mp ≠ 0) (buf sz : UInt64)
    (unmanaged : Unmanaged mps) :
    KeepsGiven reliant k (mprofileRecordFree mp buf sz mps) :=
  keepsGiven_record
    (fun _ _ owed pending => naming_appendRecord profiled unmanaged rfl owed pending)

theorem keepsGiven_mprofileRecordRealloc (profiled : mp ≠ 0) (buf bufSz origSz oldBuf : UInt64)
    (unmanaged : Unmanaged mps) :
    KeepsGiven reliant k (mprofileRecordRealloc mp buf bufSz origSz oldBuf mps) :=
  keepsGiven_record
    (fun _ _ owed pending => naming_appendRecord profiled unmanaged rfl owed pending)

/-! ## The parts of the hooks -/

/-- The profile of the thread is there. -/
theorem naming_getMprofile {tid : Nat} {rest : Nat -> HookM α} (clear : g.Clear)
    (onward : forall mp (after : Naming), mp ≠ 0 -> after.Clear -> after.given = g.given ->
      (naming reliant k).Follows ends (rest mp) after) :
    (naming reliant k).Follows ends (getMprofile tid >>= rest) g := by
  apply follows_perform trivial
  intro mp _
  change (naming reliant k).Follows ends (Prog.bind (if mp = 0 then _ else _) rest) g
  by_cases null : mp = 0
  · rw [if_pos null]
    refine follows_perform clear.owed (fun created isCreated => ?_)
    refine follows_perform ⟨clear.owed, isCreated⟩ (fun _ added => ?_)
    exact follows_perform trivial (fun _ _ => onward created _ added clear rfl)
  · rw [if_neg null]
    exact onward mp g null clear rfl

theorem keepsGiven_checkMemhdr (b : UInt64) : KeepsGiven reliant k (checkMemhdr b) := by
  intro g clear
  apply follows_perform trivial
  intro hdr _
  change (naming reliant k).Follows _ (if mkChk _ _ ≠ _ then _ else _) g
  split_ifs
  · exact ⟨trivial, fun impossible => Empty.elim impossible⟩
  · exact ⟨clear, rfl⟩

theorem unmanaged_initStack (buf : UInt64) (bufSz : Nat) (around : Int -> UInt64) :
    Unmanaged (mprofileInitStack buf bufSz around) := by
  intro stack created
  unfold mprofileInitStack at created
  split_ifs at created
  cases created
  exact Nat.zero_ne_one

theorem mpsFlags_pushFrames (frames : List UInt64) (stack : MprofileStack) :
    (frames.foldl mprofilePushFrame stack).mpsFlags = stack.mpsFlags := by
  induction frames generalizing stack with
  | nil => rfl
  | cons frame rest inductionHypothesis =>
      rw [List.foldl_cons, inductionHypothesis, mprofilePushFrame]
      split_ifs <;> rfl

theorem collects_initStackBuf : Collects reliant k initStackBuf :=
  fun _ clear => ⟨trivial, fun buf _ => ⟨⟨clear, rfl⟩, unmanaged_initStack buf.1 _ buf.2⟩⟩

theorem collects_collectBacktrace (unmanaged : Unmanaged mps) :
    Collects reliant k (collectBacktrace mps) := by
  refine fun _ clear => ⟨trivial, fun frames _ => ⟨⟨clear, rfl⟩, fun stack collected => ?_⟩⟩
  rcases Option.map_eq_some_iff.mp collected with ⟨start, isStart, rfl⟩
  rw [mpsFlags_pushFrames]
  exact unmanaged start isStart

theorem keepsGiven_libcFree (p : UInt64) : KeepsGiven reliant k (perform (.libcFree p)) :=
  fun _ clear => ⟨clear.owed, fun _ _ => ⟨clear, rfl⟩⟩

/-- The `malloc` of the hooks returns what is behind the header. -/
theorem naming_mallocHeaded {sz : UInt64} {rest : UInt64 -> HookM α} (clear : g.Clear)
    (onward : forall p, (naming reliant k).Follows ends (rest (behind p))
      { g with given := some p }) :
    (naming reliant k).Follows ends (mallocHeaded sz >>= rest) g := by
  apply follows_perform clear.owed
  intro p _
  change (naming reliant k).Follows ends (Prog.bind (if p ≠ 0 then _ else _) rest)
    { g with given := some p }
  have here := onward p
  unfold behind at here
  by_cases null : p = 0
  · rw [if_neg (not_not.mpr null)]
    rw [if_pos null] at here
    exact here
  · rw [if_pos null]
    rw [if_neg null] at here
    exact follows_perform trivial (fun _ _ => here)

/-- The last step of the tracing `malloc` hooks. -/
theorem naming_recordMalloc {sz sz' p : UInt64} (profiled : mp ≠ 0) (unmanaged : Unmanaged mps)
    (clear : g.Clear) (given : g.given = some p) :
    (naming reliant (.malloc sz)).Follows (namingEnds reliant (.malloc sz))
      (do if mp ≠ 0 then mprofileRecordAlloc mp (behind p) sz' mps
          return behind p) g := by
  rw [if_pos profiled]
  apply (keepsGiven_mprofileRecordAlloc profiled (behind p) sz' unmanaged).follows clear
  intro _ after clear' same
  refine ⟨clear', fun _ => ?_⟩
  change after.given.map behind = some (behind p)
  rw [same, given]
  rfl

theorem keepsGiven_freeTraced (profiled : mp ≠ 0) (b sz p : UInt64) (unmanaged : Unmanaged mps) :
    KeepsGiven reliant k
      (do if mp ≠ 0 then mprofileRecordFree mp b sz mps
          perform (.libcFree p)) := by
  rw [if_pos profiled]
  exact (keepsGiven_mprofileRecordFree profiled b sz unmanaged).bind
    (fun _ => keepsGiven_libcFree p)

/-- The common end of the tracing `free` hooks. -/
theorem keepsGiven_freeTail (profiled : mp ≠ 0) (b : UInt64) (unmanaged : Unmanaged mps) :
    KeepsGiven reliant k
      (do if b ≠ 0 then
            let hdr ← checkMemhdr b
            if mp ≠ 0 then mprofileRecordFree mp b hdr.mhSize mps
            perform (.libcFree (b - sizeofMemhdr))
          else
            if mp ≠ 0 then mprofileRecordFree mp b 0 mps
            perform (.libcFree 0)) := by
  by_cases null : b = 0
  · rw [if_neg (not_not.mpr null)]
    exact keepsGiven_freeTraced profiled b 0 0 unmanaged
  · rw [if_pos null]
    exact (keepsGiven_checkMemhdr b).bind
      (fun hdr => keepsGiven_freeTraced profiled b hdr.mhSize _ unmanaged)

/-- The tracing `realloc` hooks from the answer of libc on. -/
theorem naming_reallocTraceTail {collect : HookM (Option MprofileStack)} {b sz p : UInt64}
    (saveMh : Memhdr)
    (profiled : mp ≠ 0) (collects : Collects reliant (.realloc b sz) collect) (clear : g.Clear)
    (given : g.given = some p) (zero : reliant -> sz = 0 -> p = 0) :
    (naming reliant (.realloc b sz)).Follows (namingEnds reliant (.realloc b sz))
      (reallocTraceTail collect mp b sz saveMh p) g := by
  have handed : forall after : Naming, after.Clear -> after.given = g.given ->
      namingEnds reliant (.realloc b sz) after (behind p) := by
    intro after clear' same
    refine ⟨clear', fun _ => ?_⟩
    change after.given.map behind = some (behind p)
    rw [same, given]
    rfl
  unfold behind at handed
  unfold reallocTraceTail
  by_cases failed : p = 0
  · rw [if_pos failed] at handed ⊢
    exact handed g clear rfl
  · rw [if_neg failed] at handed ⊢
    by_cases zeroSize : sz = 0
    · rw [if_pos zeroSize]
      exact ⟨clear, fun isReliant => absurd (zero isReliant zeroSize) failed⟩
    · rw [if_neg zeroSize]
      apply collects.follows clear
      intro mps after unmanaged clear' same
      rw [if_pos profiled]
      apply follows_perform trivial
      intro _ _
      by_cases fresh : b = 0
      · rw [if_pos fresh]
        apply (keepsGiven_mprofileRecordAlloc profiled _ sz unmanaged).follows clear'
        exact fun _ final clear'' same' => handed final clear'' (same'.trans same)
      · rw [if_neg fresh]
        apply (keepsGiven_mprofileRecordRealloc profiled _ sz _ b unmanaged).follows clear'
        exact fun _ final clear'' same' => handed final clear'' (same'.trans same)

/-- The request of the tracing `realloc` hooks, and what follows it. -/
theorem naming_reallocRequest {collect : HookM (Option MprofileStack)} {b sz : UInt64} (p : UInt64)
    (saveMh : Memhdr) (hdrSz : UInt64) (profiled : mp ≠ 0) (unmanaged : Unmanaged mps)
    (collects : Collects reliant (.realloc b sz) collect) (clear : g.Clear) :
    (naming reliant (.realloc b sz)).Follows (namingEnds reliant (.realloc b sz))
      (do if sz = 0 then mprofileRecordFree mp b hdrSz mps
          let mh ← perform (.libcRealloc p (reallocSize sz))
          reallocTraceTail collect mp b sz saveMh mh) g := by
  have request : forall g' : Naming, g'.Clear ->
      (naming reliant (.realloc b sz)).Follows (namingEnds reliant (.realloc b sz))
        (do let mh ← perform (.libcRealloc p (reallocSize sz))
            reallocTraceTail collect mp b sz saveMh mh) g' := by
    intro g' clear'
    refine follows_perform clear'.owed (fun mh answered => ?_)
    exact naming_reallocTraceTail saveMh profiled collects (clear'.given mh) rfl
      (fun isReliant zero => answered isReliant b (by rw [zero]))
  by_cases zeroSize : sz = 0
  · rw [if_pos zeroSize]
    apply (keepsGiven_mprofileRecordFree profiled b hdrSz unmanaged).follows clear
    exact fun _ after clear' _ => request after clear'
  · rw [if_neg zeroSize]
    exact request g clear

theorem naming_reallocTraced {collect : HookM (Option MprofileStack)} (b sz : UInt64)
    (profiled : mp ≠ 0)
    (unmanaged : Unmanaged mps) (collects : Collects reliant (.realloc b sz) collect)
    (clear : g.Clear) :
    (naming reliant (.realloc b sz)).Follows (namingEnds reliant (.realloc b sz))
      (reallocTraced mp mps collect b sz) g := by
  unfold reallocTraced
  by_cases null : b = 0
  · rw [if_neg (not_not.mpr null)]
    exact naming_reallocRequest _ _ _ profiled unmanaged collects clear
  · rw [if_pos null]
    apply (keepsGiven_checkMemhdr b).follows clear
    exact fun hdr _ clear' _ => naming_reallocRequest _ _ _ profiled unmanaged collects clear'

/-- Every tracing hook keeps to the discipline. -/
theorem naming_hook {family : Family} (traced : family ≠ .stats) (tid : Nat) (k : Call) :
    (naming reliant k).Follows (namingEnds reliant k) (hook family tid k) .idle := by
  cases k with
  | malloc sz =>
      cases family with
      | stats => exact absurd rfl traced
      | trace =>
          apply naming_getMprofile clear_idle
          intro mp after profiled clear _
          apply naming_mallocHeaded clear
          exact fun p => naming_recordMalloc profiled unmanaged_none (clear.given p) rfl
      | traceWithStack =>
          apply naming_getMprofile clear_idle
          intro mp after profiled clear _
          apply collects_initStackBuf.follows clear
          intro mps after unmanaged clear' _
          apply naming_mallocHeaded clear'
          intro p
          apply (collects_collectBacktrace unmanaged).follows (clear'.given p)
          exact fun mps final unmanaged' clear'' given =>
            naming_recordMalloc profiled unmanaged' clear'' given
  | free b =>
      have returns : forall (after : Naming) (_ : Unit), after.Clear ∧ after.given = none ->
          (naming reliant (.free b)).Follows (namingEnds reliant (.free b)) (pure 0 : HookM UInt64)
              after :=
        fun _ _ ended => ⟨ended.1, fun _ => ended.2⟩
      have asked : forall {after : Naming} {mp : Nat} {mps : Option MprofileStack}, mp ≠ 0 ->
          Unmanaged mps ->
          after.Clear -> after.given = none ->
          (naming reliant (.free b)).Follows (fun after _ => after.Clear ∧ after.given = none)
            (do if b ≠ 0 then
                  let hdr ← checkMemhdr b
                  if mp ≠ 0 then mprofileRecordFree mp b hdr.mhSize mps
                  perform (.libcFree (b - sizeofMemhdr))
                else
                  if mp ≠ 0 then mprofileRecordFree mp b 0 mps
                  perform (.libcFree 0)) after := by
        intro after mp mps profiled unmanaged clear same
        have ends := @keepsGiven_freeTail reliant (.free b) _ _ profiled b unmanaged after clear
        rwa [same] at ends
      cases family with
      | stats => exact absurd rfl traced
      | trace =>
          refine Protocol.Follows.bind (naming_getMprofile clear_idle
            (fun mp after profiled clear same => ?_)) returns
          exact asked profiled unmanaged_none clear same
      | traceWithStack =>
          refine Protocol.Follows.bind (naming_getMprofile clear_idle
            (fun mp after profiled clear same => ?_)) returns
          apply collects_initStackBuf.follows clear
          intro mps next unmanaged clear' same'
          apply (collects_collectBacktrace unmanaged).follows clear'
          exact fun mps final unmanaged' clear'' given =>
            asked profiled unmanaged' clear'' (given.trans (same'.trans same))
  | realloc b sz =>
      cases family with
      | stats => exact absurd rfl traced
      | trace =>
          apply naming_getMprofile clear_idle
          intro mp after profiled clear _
          exact naming_reallocTraced b sz profiled unmanaged_none collects_none clear
      | traceWithStack =>
          apply naming_getMprofile clear_idle
          intro mp after profiled clear _
          apply collects_initStackBuf.follows clear
          intro mps after unmanaged clear' _
          exact naming_reallocTraced b sz profiled unmanaged
            (collects_collectBacktrace unmanaged) clear'

end Text

/-! ## Calls -/

/-- What libc returns. -/
def HookOp.given : (o : HookOp) -> o.Res -> Option UInt64
  | .libcMalloc _, p => some p
  | .libcRealloc _ _, p => some p
  | _, _ => none

/-- There is memory for a record. -/
def HookOp.grants : (o : HookOp) -> o.Res -> Bool
  | .allocRecord, ok => ok
  | _, _ => false

/-- What libc has returned to a call. -/
def givenIn : List (Event hookMachine) -> Option UInt64
  | [] => none
  | event :: rest => (givenIn rest).or (event.1.given event.2)

/-- How many records a call got memory for. -/
def grantedIn (trace : List (Event hookMachine)) : Nat :=
  trace.countP (fun event => event.1.grants event.2)

/-- The records that a call has drawn the ids of. -/
def drawnIn (trace : List (Event hookMachine)) : List MprofileRecord :=
  trace.flatMap (fun event => event.1.drawn event.2)

section Calls

variable {reliant : Prop} {k : Call} {g : Naming} {trace : List (Event hookMachine)} {rv : UInt64}

/-- What a call has been given and has recorded, by its discipline. -/
theorem naming_along {ends : Naming -> Prop} (along : (naming reliant k).Along ends g trace) :
    Exists fun g' => ends g' ∧ g'.given = (givenIn trace).or g.given ∧
      grantedIn trace + g.pending.toNat = (drawnIn trace).length + g'.pending.toNat := by
  induction trace generalizing g with
  | nil => exact ⟨g, along, rfl, by rw [grantedIn, drawnIn]; rfl⟩
  | cons event rest inductionHypothesis =>
      rcases along with ⟨may, onward⟩
      rcases inductionHypothesis onward with ⟨g', ended, given, balance⟩
      rcases event with ⟨o, r⟩
      dsimp only at given balance
      -- the operation itself
      have own : ((naming reliant k).after g o r).given = (o.given r).or g.given ∧
          (o.grants r).toNat + g.pending.toNat =
            (o.drawn r).length + ((naming reliant k).after g o r).pending.toNat := by
        cases o with
        | allocRecord =>
            have idle : g.pending = false := may
            refine ⟨rfl, ?_⟩
            rw [idle]
            exact Nat.add_comm _ _
        | drawId mpr =>
            have pending : g.pending = true := may.2
            refine ⟨rfl, ?_⟩
            rw [pending]
            rfl
        | _ => exact ⟨rfl, rfl⟩
      refine ⟨g', ended, ?_, ?_⟩
      · rw [given, own.1, givenIn, Option.or_assoc]
      · have grants : grantedIn (⟨o, r⟩ :: rest) = grantedIn rest + (o.grants r).toNat := by
          rw [grantedIn, List.countP_cons]
          cases o.grants r <;> rfl
        have draws : (drawnIn (⟨o, r⟩ :: rest)).length =
            (o.drawn r).length + (drawnIn rest).length := by
          rw [drawnIn, List.flatMap_cons, List.length_append]
          rfl
        rw [grants, draws]
        omega

/-- What a tracing hook relies on in its calls: its profile is created, and libc answers
a request of size 0 with null. -/
def Reliable (k : Call) (event : Event hookMachine) : Prop :=
  (naming True k).fits .idle event.1 event.2

/-- Where it can rely on that, a tracing hook returns what libc has given it, and draws
an id for each record that there was memory for. -/
theorem handed_of_performs {family : Family} (traced : family ≠ .stats) {tid : Nat}
    (performs : Performs (hook family tid k) trace rv)
    (reliable : forall event, event ∈ trace -> Reliable k event) :
    Handed k (givenIn trace) rv ∧ grantedIn trace = (drawnIn trace).length := by
  have fits : (naming True k).FitsAll .idle trace :=
    Protocol.FitsAll.of_forall (fun _ event member => reliable event member) _
  have along := (naming_hook traced tid k).along performs (fun _ => rfl) fits
  rcases naming_along along with ⟨g, ⟨clear, handed⟩, given, balance⟩
  rw [clear.pending] at balance
  refine ⟨?_, balance⟩
  have same : g.given = givenIn trace := given.trans Option.or_none
  rw [← same]
  exact handed trivial

end Calls

/-! ## Runs -/

/-- The profile of a thread is created, and libc answers `realloc (b, 0)` with null. -/
def Supplied (answer : Answer) : Call × HookOp -> Prop
  | (_, .mprofileCreate) => answer.createOk = true
  | (.realloc _ sz, .libcRealloc _ _) => sz = 0 -> answer.ptr = 0
  | _ => True

/-- The condition on one step.  Whether the requests for records, for sets of stacks and for
copies of stacks are granted is left open. -/
def Supplies {Thread : Type} [DecidableEq Thread] (pool : HookPool Thread true) :
    PoolLabel Thread Call Answer -> Prop
  | .call _ _ _ => True
  | .step t answer => forall due, pool.due t = some due -> Supplied answer due

instance (answer : Answer) : (due : Call × HookOp) -> Decidable (Supplied answer due)
  | (.malloc sz, o) => by
      apply @HookOp.casesOn (fun o => Decidable (Supplied answer (.malloc sz, o))) o <;>
        intros <;> dsimp only [Supplied] <;> infer_instance
  | (.free b, o) => by
      apply @HookOp.casesOn (fun o => Decidable (Supplied answer (.free b, o))) o <;>
        intros <;> dsimp only [Supplied] <;> infer_instance
  | (.realloc b sz, o) => by
      apply @HookOp.casesOn (fun o => Decidable (Supplied answer (.realloc b sz, o))) o <;>
        intros <;> dsimp only [Supplied] <;> infer_instance

instance {Thread : Type} [DecidableEq Thread] (pool : HookPool Thread true) :
    (l : PoolLabel Thread Call Answer) -> Decidable (Supplies pool l)
  | .call _ _ _ => instDecidableTrue
  | .step t answer =>
    inferInstanceAs (Decidable (forall due, due ∈ pool.due t -> Supplied answer due))

/-- The threads that call the hooks of a family, next to the log of their calls. -/
abbrev HookPool.loggedNext {Thread : Type} [DecidableEq Thread] (family : Family)
    (tid : Thread -> Nat) :
    HookPool Thread true × CallLog hookMachine Thread Call UInt64 -> PoolLabel Thread Call Answer ->
      Except (Stop HookFault) (HookPool Thread true × CallLog hookMachine Thread Call UInt64) :=
  CallLog.next (fun t k => hook family (tid t) k)

section Operations

variable {w w' : World} {answer : Answer} {k : Call} {o : HookOp} {r : o.Res}

/-- Handles of profiles are never null. -/
def Numbered (w : World) : Prop := 0 < w.prof.mprofileTop

theorem Numbered.exec (numbered : Numbered w) (executed : o.exec answer w = .ok (w', r)) :
    Numbered w' := by
  unfold Numbered at numbered ⊢
  cases o with
  | mprofileCreate =>
      cases executed
      rw [Profiler.mprofileCreate]
      split_ifs <;> first | exact Nat.succ_pos _ | exact numbered
  | abort => exact Empty.elim r
  | _ =>
      -- the operations without a failing case, and the others
      first
      | cases executed; exact numbered
      | rw [HookOp.exec] at executed
        split at executed <;> cases executed
        exact numbered

/-- What a hook relies on about the results of its operations. -/
theorem naming_fits {reliant : Prop} (numbered : Numbered w)
    (supplied : reliant -> Supplied answer (k, o))
    (executed : o.exec answer w = .ok (w', r)) (g : Naming) : (naming reliant k).fits g o r := by
  cases o with
  | mprofileCreate =>
      cases executed
      intro isReliant
      have created : answer.createOk = true := supplied isReliant
      change (w.prof.mprofileCreate answer).2 ≠ 0
      rw [Profiler.mprofileCreate, if_pos created]
      split_ifs <;> exact Nat.ne_of_gt numbered
  | mprofileAdd mp =>
      rw [HookOp.exec] at executed
      split_ifs at executed with null
      exact null
  | libcRealloc p size =>
      rintro isReliant b rfl
      have answered : answer.ptr = 0 := supplied isReliant rfl
      rw [HookOp.exec] at executed
      cases taken : Libc.realloc w.heap p size answer with
      | error fault => rw [taken] at executed; cases executed
      | ok result =>
          rw [taken] at executed
          cases executed
          exact (realloc_result taken).trans answered
  | _ => trivial

theorem supplied_of_silent (quiet : o.silent = true) : Supplied answer (k, o) := by
  cases o with
  | mprofileCreate => cases quiet
  | libcRealloc p size => cases quiet
  | _ => cases k <;> trivial

theorem naming_op {Thread : Type} [DecidableEq Thread] {t : Thread} {gs : Thread -> Naming}
    (numbered : Numbered w)
    (supplied : Supplied answer (k, o)) :
    (naming True k).OpSoundAt (fun w _ => Numbered w) answer t o w gs :=
  fun _ _ _ executed =>
    ⟨naming_fits numbered (fun _ => supplied) executed _, numbered.exec executed⟩

/-- Libc does not dereference null on behalf of a hook. -/
theorem realloc_notNull {heap : UInt64 -> Option Block} {p size : UInt64} {fault : HookFault}
    (failed : Libc.realloc heap p size answer = .error fault) : fault ≠ .nullDereference := by
  by_cases live : p ≠ 0 -> heap p ≠ none
  · rw [realloc_fault live failed]
    exact HookFault.noConfusion
  · rw [Classical.not_imp, not_not] at live
    rw [Libc.realloc, if_neg live.1, live.2] at failed
    cases failed
    exact HookFault.noConfusion

/-- No operation of a hook that keeps to the discipline dereferences null. -/
theorem naming_safe {Thread : Type} [DecidableEq Thread] {t : Thread} {gs : Thread -> Naming} :
    (naming True k).OpSafeAt (fun fault => fault ≠ .nullDereference) answer t o w gs := by
  rintro fault may failed rfl
  change o.exec answer w = .error .nullDereference at failed
  cases o with
  | libcMalloc size =>
      rw [HookOp.exec] at failed
      cases taken : Libc.malloc w.heap size answer with
      | ok result => rw [taken] at failed; cases failed
      | error reason =>
          rw [taken] at failed
          cases failed
          cases malloc_fault taken
  | libcRealloc p size =>
      rw [HookOp.exec] at failed
      cases taken : Libc.realloc w.heap p size answer with
      | ok result => rw [taken] at failed; cases failed
      | error reason =>
          rw [taken] at failed
          cases failed
          exact realloc_notNull taken rfl
  | libcFree p =>
      rw [HookOp.exec, Libc.free] at failed
      split_ifs at failed
      cases found : w.heap p with
      | none => rw [found] at failed; cases failed
      | some block => rw [found] at failed; cases failed
  | mprofileAdd mp =>
      rw [HookOp.exec, if_neg (may.2 trivial)] at failed
      cases failed
  | insertTail mp mpr =>
      rw [HookOp.exec, if_neg may.1] at failed
      cases failed
  | addStack mp mps =>
      rw [HookOp.exec] at failed
      split_ifs at failed
      cases failed
  | loadMemhdr p =>
      rw [HookOp.exec] at failed
      split at failed <;> cases failed
  | storeMemhdr p hdr =>
      rw [HookOp.exec] at failed
      split at failed <;> cases failed
  | _ => cases failed

end Operations

section Runs

variable {Thread : Type} [DecidableEq Thread] {family : Family} {tid : Thread -> Nat}
  {pool pool' : HookPool Thread true} {log : CallLog hookMachine Thread Call UInt64}
  {l : PoolLabel Thread Call Answer}

variable (tid) in
theorem naming_discipline (traced : family ≠ .stats) :
    Pool.Discipline (M := hookMachine) (C := application Thread true) (fun _ => True)
      (fun t k => hook family (tid t) k) (naming True) (namingEnds True) .idle
        (fun _ w _ => Numbered w) where
  silentSound := fun _ _ _ _ _ _ quiet _ _ numbered => naming_op numbered (supplied_of_silent quiet)
  bodySound := fun _ _ _ _ _ _ _ impossible => impossible.elim
  leaveSound := fun _ _ _ _ _ _ _ impossible => impossible.elim
  start := fun k _ _ _ _ t _ numbered _ => ⟨.idle, numbered, naming_hook traced (tid t) k⟩
  finish := fun _ _ _ _ _ _ numbered _ => numbered

/-- The pool keeps to the discipline. -/
def HookPool.Named (pool : HookPool Thread true) : Prop :=
  Exists fun gs =>
    Pool.Holds (naming True) (namingEnds True) .idle (fun _ w _ => Numbered w) pool gs

theorem Supplies.due {t : Thread} {answer : Answer} {k : Call} {program : HookM UInt64} {o : HookOp}
    (supplies : Supplies pool (.step t answer)) (busy : pool.thread t = some (k, program))
    (here : Protocol.head (M := hookMachine) program = some o) : Supplied answer (k, o) := by
  refine supplies (k, o) ?_
  unfold HookPool.due
  rw [busy]
  simp only [here, Option.map_some]

theorem Supplies.labelSound (supplies : Supplies pool l) {gs : Thread -> Naming}
    (numbered : Numbered pool.shared) :
    Pool.LabelSound (naming True) (fun _ w _ => Numbered w) pool gs l := by
  cases l with
  | call t k answer => trivial
  | step t answer => exact fun k program o busy here => naming_op numbered (supplies.due busy here)

theorem HookPool.Named.next (traced : family ≠ .stats) (named : pool.Named)
    (supplies : Supplies pool l)
    (stepped : pool.next family tid l = .ok pool') : pool'.Named := by
  rcases named with ⟨gs, holds⟩
  exact Pool.next_sound (naming_discipline tid traced) holds trivial
    (supplies.labelSound holds.invariant) stepped

/-- No step dereferences null. -/
theorem HookPool.Named.next_notNull (traced : family ≠ .stats) (named : pool.Named)
    (supplies : Supplies pool l)
    {fault : HookFault} (stepped : pool.next family tid l = .error (.fault fault)) :
    fault ≠ .nullDereference := by
  rcases named with ⟨gs, holds⟩
  refine Pool.next_safe (naming_discipline tid traced) (fun _ _ _ _ _ _ _ _ _ => naming_safe)
    holds trivial
    (supplies.labelSound holds.invariant) ?_ stepped
  cases l with
  | call t k answer => trivial
  | step t answer => exact fun _ _ _ _ _ => naming_safe

/-! ## The records of a run -/

/-- Silent events draw no records. -/
theorem drawnIn_silent {events : List (Event hookMachine)}
    (quiet : forall event, event ∈ events -> HookOp.silent event.1 = true) :
    drawnIn events = [] := by
  rw [drawnIn, List.flatMap_eq_nil_iff]
  rintro ⟨o, r⟩ member
  cases o with
  | drawId mpr => cases quiet _ member
  | _ => rfl

theorem drawnIn_append (first second : List (Event hookMachine)) :
    drawnIn (first ++ second) = drawnIn first ++ drawnIn second :=
  List.flatMap_append

/-- What the events of a log have drawn, in the order of the run. -/
def recordsOf (log : CallLog hookMachine Thread Call UInt64) : List MprofileRecord :=
  drawnIn (log.events.map Happening.event)

omit [DecidableEq Thread] in
theorem recordsOf_perform (t : Thread) (events : List (Event hookMachine)) :
    recordsOf (log.perform t events) = recordsOf log ++ drawnIn events := by
  rw [recordsOf, CallLog.perform, List.map_append, List.map_map, drawnIn_append]
  congr 2
  exact List.map_id events

omit [DecidableEq Thread] in
theorem recordsOf_land (t : Thread) (k : Call) (rest : HookM UInt64) :
    recordsOf (log.land t k (rest : hookMachine.Program UInt64)) = recordsOf log := by
  rw [recordsOf, CallLog.events_land]
  rfl

/-- A step draws what its first operation draws. -/
theorem drawnIn_stepTrace {answer : Answer} {program rest : HookM UInt64} {w w' : World}
    (stepped : Machine.step hookMachine answer program w = .ok (w', rest)) :
    drawnIn (Machine.stepTrace hookMachine answer program w) =
      match Protocol.head (M := hookMachine) program with
      | some (.drawId mpr) => [{ mpr with mprId := w.prof.mprId + 1 }]
      | _ => [] := by
  cases program with
  | op o next =>
      rw [Machine.step] at stepped
      rw [Machine.stepTrace]
      cases executed : o.exec answer w with
      | error fault =>
        rw [show hookMachine.exec o answer w = _ from executed] at stepped; cases stepped
      | ok result =>
          rw [show hookMachine.exec o answer w = _ from executed] at stepped ⊢
          have quiet := drawnIn_silent (settle_unfolds stepped).2
          change o.drawn result.2 ++ drawnIn _ = _
          rw [quiet, List.append_nil]
          cases o with
          | drawId mpr => cases executed; rfl
          | _ => rfl
  | ret value => exact drawnIn_silent (fun event member => by cases member)
  | spin l next =>
      refine drawnIn_silent (fun event member => ?_)
      rcases (step_unfolds stepped).2 event member with quiet | ⟨impossible, -⟩
      · exact quiet
      · cases impossible

/-- The log of the calls has the records of the history. -/
theorem recordsOf_note {history : RecordHistory Thread}
    (same : history.recorded.map Recorded.mpr = recordsOf log)
    (stepped : pool.next family tid l = .ok pool') :
    (noteRecord history pool l pool').recorded.map Recorded.mpr =
      recordsOf (CallLog.note (fun t k => hook family (tid t) k) log pool l pool') := by
  cases l with
  | call t k answer =>
      rw [HookPool.next, Pool.next] at stepped
      rw [CallLog.note]
      change history.recorded.map Recorded.mpr = _
      cases settled : hookMachine.settle answer (hook family (tid t) k) pool.shared with
      | error fault => exact same
      | ok result =>
          simp only
          rw [recordsOf_land, recordsOf_perform, drawnIn_silent (settle_unfolds settled).2,
            List.append_nil]
          exact same
  | step t answer =>
      rw [HookPool.next, Pool.next] at stepped
      rw [CallLog.note, noteRecord, Pool.headOf]
      cases busy : pool.thread t with
      | none => rw [busy] at stepped; cases stepped
      | some entry =>
          rcases entry with ⟨k, program⟩
          rw [busy] at stepped
          simp only at stepped ⊢
          cases performed : hookMachine.step answer program pool.shared with
          | error fault => rw [performed] at stepped; cases stepped
          | ok result =>
              simp only
              rw [recordsOf_land, recordsOf_perform, drawnIn_stepTrace performed, ← same]
              generalize Protocol.head (M := hookMachine) program = due
              split <;> simp only [List.map_append, List.map_singleton, List.append_nil]

/-- The invariant of the pool and of the log of its calls. -/
structure Surviving (family : Family) (tid : Thread -> Nat) (pool : HookPool Thread true)
    (log : CallLog hookMachine Thread Call UInt64) : Prop where
  named : pool.Named
  intact : pool.Intact True (zeroAnswered family) family
  faithful : log.Faithful (fun t k => hook family (tid t) k) Reliable pool.thread
  recording : Exists fun history => Recording family pool history ∧
    history.recorded.map Recorded.mpr = recordsOf log

theorem surviving_init : Surviving family tid (HookPool.init Thread true) .empty where
  named := ⟨fun _ => .idle, Nat.one_pos, fun _ => rfl⟩
  intact := HookPool.init_intact
  faithful := CallLog.faithful_empty
  recording := ⟨.empty Thread, recording_init (C := application Thread true) Holdings.none, rfl⟩

theorem Surviving.next (traced : family ≠ .stats) (surviving : Surviving family tid pool log)
    (careful : HeaderCareful family pool l) (supplies : Supplies pool l)
    (stepped : pool.next family tid l = .ok pool') :
    Surviving family tid pool' (CallLog.note (fun t k => hook family (tid t) k) log pool l pool')
      where
  named := surviving.named.next traced supplies stepped
  intact := surviving.intact.next careful stepped
  faithful := by
    refine surviving.faithful.next (fun k event quiet => ?_) ?_ stepped
    · rcases event with ⟨o, r⟩
      cases o with
      | mprofileCreate => cases quiet
      | libcRealloc p size => cases quiet
      | _ => trivial
    · rintro t answer k program rfl busy ⟨o, r⟩ here ⟨w, executed⟩
      rcases surviving.named with ⟨gs, holds⟩
      exact naming_fits holds.invariant (fun _ => supplies.due busy here) executed _
  recording := by
    rcases surviving.recording with ⟨history, recording, same⟩
    exact ⟨_, recording.next traced stepped, recordsOf_note same stepped⟩

/-- The application and the saved log do not suffer from what was refused. -/
structure Unharmed (pool : HookPool Thread true)
    (log : CallLog hookMachine Thread Call UInt64) : Prop where
  handed : forall done, done ∈ log.finished ->
    Handed done.call (givenIn (log.trace done.thread done.number)) done.value
  recorded : forall done, done ∈ log.finished ->
    (drawnIn (log.trace done.thread done.number)).length =
      grantedIn (log.trace done.thread done.number)
  returned : pool.Quiescent -> forall t n, 1 ≤ n -> n ≤ log.calls t ->
    Exists fun done => done ∈ log.finished ∧ done.thread = t ∧ done.number = n
  saved : pool.Quiescent -> forall copyBlock linkChains doc,
    mprofileSave copyBlock linkChains pool.shared.prof = .ok doc ->
      doc.allocations.map MprofileRecord.asRecorded = recordsOf log

theorem Surviving.unharmed (traced : family ≠ .stats) (surviving : Surviving family tid pool log) :
    Unharmed pool log := by
  have performed : forall done, done ∈ log.finished ->
      Handed done.call (givenIn (log.trace done.thread done.number)) done.value ∧
        grantedIn (log.trace done.thread done.number) =
            (drawnIn (log.trace done.thread done.number)).length := by
    intro done member
    have own := surviving.faithful.finished done member
    exact handed_of_performs traced own.1 own.2
  refine ⟨fun done member => (performed done member).1,
    fun done member => (performed done member).2.symm,
    fun quiescent t n positive within => ?_, fun quiescent copyBlock linkChains doc saved => ?_⟩
  · rcases surviving.faithful.complete t n positive within with ⟨-, busy⟩ | returned
    · exact absurd (quiescent t) busy
    · exact returned
  · rcases surviving.recording with ⟨history, recording, same⟩
    rw [(recording.saved quiescent saved).1, same]

end Runs

section Runs

variable {Thread : Type} [DecidableEq Thread] {family : Family}

/-- The invariant holds in every run in which the profiles are created, and only libc stops the
run. -/
theorem surviving_exec (traced : family ≠ .stats) (tid : Thread -> Nat)
    {labels : List (PoolLabel Thread Call Answer)}
    (careful : Meets (HookPool.next family tid) (HeaderCareful family)
      (HookPool.init Thread true) labels)
    (supplied : Meets (HookPool.next family tid) Supplies (HookPool.init Thread true) labels) :
    (forall fault, exec (HookPool.loggedNext family tid) (HookPool.init Thread true, .empty)
      labels = .error (.fault fault) -> fault = .notLibc) ∧
      forall pool log, exec (HookPool.loggedNext family tid) (HookPool.init Thread true, .empty)
        labels = .ok (pool, log) -> Surviving family tid pool log := by
  have meets : Meets (HookPool.loggedNext family tid)
      (fun both l => HeaderCareful family both.1 l ∧ Supplies both.1 l)
      (HookPool.init Thread true, .empty) labels := meets_withHistory (careful.and supplied)
  have kept : forall (both : HookPool Thread true × CallLog hookMachine Thread Call UInt64) l both',
      Surviving family tid both.1 both.2 -> HeaderCareful family both.1 l ∧ Supplies both.1 l ->
        HookPool.loggedNext family tid both l = .ok both' ->
            Surviving family tid both'.1 both'.2 := by
    intro both l both' surviving met stepped
    rcases withHistory_ok stepped with ⟨moved, noted⟩
    rw [noted]
    exact surviving.next traced met.1 met.2 moved
  refine ⟨fun fault failed => ?_, fun pool log executed => ?_⟩
  · by_contra notExcused
    refine exec_never (fun both => Surviving family tid both.1 both.2) (.fault fault) kept ?_
      surviving_init
      meets failed
    intro both l surviving met stepped
    have failedHere := withHistory_error stepped
    rcases surviving.intact.next_excused met.1 failedHere with excused | null
    · exact notExcused excused
    · exact surviving.named.next_notNull traced met.2 failedHere null
  · exact exec_invariant (fun both => Surviving family tid both.1 both.2) kept surviving_init
      meets executed

end Runs

/-- In every interleaving, whichever records, sets of stacks and copies of stacks there is no
memory for: no hook dereferences null, aborts or touches memory that is not its own, each
call returns what libc has given it, and what is saved are the records that there was memory
for, call by call. -/
theorem refusals_survived {Thread : Type} [DecidableEq Thread] {family : Family}
    (traced : family ≠ .stats)
    (tid : Thread -> Nat) (labels : List (PoolLabel Thread Call Answer))
    (careful : Meets (HookPool.next family tid) (HeaderCareful family)
      (HookPool.init Thread true) labels)
    (supplied : Meets (HookPool.next family tid) Supplies (HookPool.init Thread true) labels) :
    (forall fault, exec (HookPool.loggedNext family tid) (HookPool.init Thread true, .empty)
      labels = .error (.fault fault) -> fault = .notLibc) ∧
      forall pool log, exec (HookPool.loggedNext family tid) (HookPool.init Thread true, .empty)
        labels = .ok (pool, log) -> Unharmed pool log := by
  have surviving := surviving_exec traced tid careful supplied
  exact ⟨surviving.1, fun pool log executed => (surviving.2 pool log executed).unharmed traced⟩

/-- The record of the first block is refused, and so is the set of stacks of the second thread. -/
def refusedRun : List (PoolLabel (Fin 2) Call Answer) :=
  callOf threadA (.malloc 8) [0, 0] ++
    [.call threadB (.malloc 24) (answering 0), .step threadB { answering 0 with stsetOk := false },
      .step threadB (answering 0),
      .step threadA { answering 4096 with recordOk := false }, .step threadB (answering 8192),
        .step threadB (answering 0)]

theorem refusals_survived_refusedRun : Exists fun pool => Exists fun log => Exists fun doc =>
    exec (HookPool.loggedNext .trace Fin.val) (HookPool.init (Fin 2) true, .empty) refusedRun =
      .ok (pool, log) ∧
      log.finished.map FinishedCall.value = [4112, 8208] ∧
      mprofileSave (fun _ => none) false pool.shared.prof = .ok doc ∧
      doc.allocations.map MprofileRecord.mprMem = [8208] ∧
      doc.allocations.map MprofileRecord.asRecorded = recordsOf log ∧ Unharmed pool log := by
  have reached : Exists fun both =>
      exec (HookPool.loggedNext .trace Fin.val) (HookPool.init (Fin 2) true, .empty) refusedRun =
        .ok both ∧
        (forall t, both.1.thread t = none) ∧ both.2.finished.map FinishedCall.value = [4112, 8208] ∧
        (mprofileSave (fun _ => none) false both.1.shared.prof).toOption.map
          (fun doc => doc.allocations.map MprofileRecord.mprMem) = some [8208] :=
    reaches_of_check (by decide +kernel)
  rcases reached with ⟨⟨pool, log⟩, executed, quiescent, values, document⟩
  have unharmed :=
    (refusals_survived (by decide) Fin.val refusedRun (meets_of_check (by decide +kernel))
    (meets_of_check (by decide +kernel))).2 pool log executed
  cases saved : mprofileSave (fun _ => none) false pool.shared.prof with
  | error fault => rw [saved] at document; cases document
  | ok doc =>
      rw [saved] at document
      exact ⟨pool, log, doc, executed, values, saved, Option.some.inj document,
        unharmed.saved quiescent _ _ doc saved, unharmed⟩

end Mprofile
end OsslScripts
