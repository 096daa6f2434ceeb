import OsslScripts.Mprofile.Custody
import OsslScripts.Mprofile.HeaderSafety
import OsslScripts.Mprofile.Queueing

namespace OsslScripts
namespace Mprofile

open Foundation

/-!
# The merged log as a heap history

Threads call the tracing hooks in any interleaving, and libc may hand out an
address again as soon as it is released.  The ids of the records give a valid
order of the events under one condition on the schedule: no record that puts an
address into use gets its id while another thread has still to draw the id of
the record that takes the address out of use.

`free` draws its id before libc releases the block, and `realloc (b, 0)` does as
well, so they never stand in the way.  A `realloc` that moves a block draws its
id only after libc has released the old address.  A second thread that is given
the address in between may draw first.
-/

/-- A pointer that a call answers for, or has just obtained, is that of its block. -/
structure Backed (hold : Hold) (g : Filing) : Prop where
  fresh : forall x, g.fresh = some x -> hold.block = some (x - sizeofMemhdr)
  live : forall x, g.live = some x -> g.fresh = none -> hold.block = some (x - sizeofMemhdr)

/-- The invariant of the tracing hooks. -/
structure Logged {Thread : Type} (client : Holdings Thread) (w : World)
    (gs : Thread -> Hold × Filing) : Prop where
  custody : Custody False client w.heap (fun t => (gs t).1)
  backed : forall t, Backed (gs t).1 (gs t).2
  list : ProfileList w.prof (fun t => (gs t).2)
  log : Exists fun drawn => LiveLog client (fun t => (gs t).2.live) drawn ∧
    Queues w.prof (fun t => (gs t).2) drawn

/-- A call of a tracing hook owns blocks and keeps to the log. -/
def tracing (k : Call) : Protocol hookMachine (Hold × Filing) :=
  (holding anyAnswer k).prod (logging k)

def tracingEnds (family : Family) (k : Call) (g : Hold × Filing) (rv : UInt64) : Prop :=
  holdEnds anyAnswer family k g.1 rv ∧ filingEnds k g.2 rv

/-- No allocation of a call fails: neither those of the application nor those of the profiler. -/
def NoFailure (answer : Answer) : Call × HookOp -> Prop
  | (k, .libcMalloc _) => k.served answer.ptr
  | (k, .libcRealloc _ _) => k.served answer.ptr
  | _ => True

section Operations

variable {Thread : Type} [DecidableEq Thread] {client : Holdings Thread} {w w' : World}
  {drawn : List MprofileRecord} {t : Thread} {answer : Answer} {k : Call} {o : HookOp} {r : o.Res}

theorem due_obtain (g : Filing) (p : UInt64) :
    (g.obtain k p).due = g.due ∧ (g.obtain k p).created = g.created ∧
      (g.obtain k p).profile = g.profile ∧ (g.obtain k p).live = g.live := by
  unfold Filing.obtain
  split
  · split_ifs <;> exact ⟨rfl, rfl, rfl, rfl⟩
  · exact ⟨rfl, rfl, rfl, rfl⟩

/-- What the log allows, the queues allow. -/
theorem queueing_of_logging {g : Filing} (may : (logging k).may g o) : queueing.may g o := by
  cases o with
  | libcMalloc size => exact may.1
  | libcFree p => exact may.1
  | libcRealloc p size => exact may.1
  | addFetch c delta => exact may.elim
  | subFetch c delta => exact may.elim
  | loadMax => exact may.elim
  | mprofileCreate => exact ⟨may.1, may.2.2⟩
  | mprofileAdd mp => exact ⟨may.1, may.2.2⟩
  | drawId mpr => exact ⟨may.1, may.2.2.2⟩
  | _ => exact may

theorem sameQueue_after (g : Filing) (r : o.Res) :
    ((logging k).after g o r).SameQueue (queueing.after g o r) := by
  cases o with
  | libcMalloc size => exact ⟨(due_obtain g r).1, (due_obtain g r).2.1, (due_obtain g r).2.2.1⟩
  | libcRealloc p size => exact ⟨(due_obtain g r).1, (due_obtain g r).2.1, (due_obtain g r).2.2.1⟩
  | _ => exact ⟨rfl, rfl, rfl⟩

/-- Only the draw of an id changes what the call answers for. -/
theorem live_after (g : Filing) (other : forall mpr, o ≠ .drawId mpr) (r : o.Res) :
    ((logging k).after g o r).live = g.live ∧ o.drawn r = [] := by
  cases o with
  | libcMalloc size => exact ⟨(due_obtain g r).2.2.2, rfl⟩
  | libcRealloc p size => exact ⟨(due_obtain g r).2.2.2, rfl⟩
  | drawId mpr => exact absurd rfl (other mpr)
  | _ => exact ⟨rfl, rfl⟩

/-- Every operation keeps the live log, if a record that is drawn produces what
is live for nobody else. -/
theorem live_op (gs : Thread -> Filing) (may : (logging k).may (gs t) o) (r : o.Res)
    (free : forall mpr, o = .drawId mpr -> forall x, mpr.produces = some x ->
      client.owned x = none ∧ forall u, u ≠ t -> (gs u).live ≠ some x)
    (log : LiveLog client (fun u => (gs u).live) drawn) :
    LiveLog client (fun u => (Function.update gs t ((logging k).after (gs t) o r) u).live)
      (drawn ++ o.drawn r) := by
  have lives : forall g : Filing, (fun u => (Function.update gs t g u).live) =
      Function.update (fun u => (gs u).live) t g.live :=
    fun g => funext (fun u => Function.apply_update (fun _ filing => filing.live) gs t g u)
  rw [lives]
  by_cases draws : Exists fun mpr => o = .drawId mpr
  · rcases draws with ⟨mpr, rfl⟩
    exact log.draw { mpr with mprId := r } may.2.1 (free mpr rfl)
  · have other : forall mpr, o ≠ .drawId mpr := fun mpr same => draws ⟨mpr, same⟩
    rw [(live_after (gs t) other r).1, (live_after (k := k) (gs t) other r).2, List.append_nil]
    have unchanged : Function.update (fun u => (gs u).live) t (gs t).live = fun u => (gs u).live :=
      Function.update_eq_self t _
    rw [unchanged]
    exact log

/-- What a call answers for stays the pointer of its block. -/
theorem backed_op {hold : Hold} {g : Filing} (mayHold : (holding anyAnswer k).may hold o)
    (mayLog : (logging k).may g o) {r : o.Res} (fits : (logging k).fits g o r)
    (backed : Backed hold g) :
    Backed ((holding anyAnswer k).after hold o r) ((logging k).after g o r) := by
  -- a block that was just obtained
  have obtained : forall p (g' : Filing), g'.fresh = some (p + sizeofMemhdr) ->
      Backed (.bare p) g' := by
    intro p g' isFresh
    refine ⟨fun x fresh => ?_, fun x live none => ?_⟩
    · rw [isFresh] at fresh
      cases fresh
      rw [add_sub_sizeofMemhdr]
      rfl
    · rw [isFresh] at none
      cases none
  -- a call that answers for nothing
  have nothing : forall (hold' : Hold) (g' : Filing), g'.live = none -> g'.fresh = none ->
      Backed hold' g' := by
    intro hold' g' live fresh
    refine ⟨fun x isFresh => ?_, fun x isLive _ => ?_⟩
    · rw [fresh] at isFresh
      cases isFresh
    · rw [live] at isLive
      cases isLive
  cases o with
  | libcMalloc size =>
      rcases mayHold with ⟨-, sz, rfl, -⟩
      have isBlock : r ≠ 0 := fits
      change Backed (if r = 0 then .nothing else .bare r)
        { g with fresh := some (r + sizeofMemhdr) }
      rw [if_neg isBlock]
      exact obtained r _ rfl
  | libcFree p => exact nothing _ _ mayLog.2.1 mayLog.2.2
  | libcRealloc p size =>
      rcases mayHold with ⟨starts, b, sz, rfl, -, -⟩
      rw [after_libcRealloc starts]
      by_cases zeroSize : sz = 0
      · rw [if_pos zeroSize]
        refine nothing _ _ ?_ ?_
        · change (Filing.obtain g (.realloc b sz) r).live = none
          rw [(due_obtain g r).2.2.2, mayLog.2.1, Call.resized, if_pos (Or.inl zeroSize)]
        · change (Filing.obtain g (.realloc b sz) r).fresh = none
          rw [Filing.obtain, if_pos zeroSize]
          exact mayLog.2.2
      · have isBlock : r ≠ 0 := fits zeroSize
        rw [if_neg zeroSize, if_neg isBlock]
        refine obtained r _ ?_
        change (Filing.obtain g (.realloc b sz) r).fresh = _
        rw [Filing.obtain, if_neg zeroSize]
  | storeMemhdr p hdr =>
      rw [mayHold.1] at backed
      exact ⟨backed.fresh, backed.live⟩
  | drawId mpr =>
      refine ⟨fun x fresh => (by cases fresh), fun x live _ => ?_⟩
      exact backed.fresh x (mayLog.2.2.1.symm.trans live)
  | _ => exact ⟨backed.fresh, backed.live⟩

theorem noFailure_of_silent (quiet : o.silent = true) : NoFailure answer (k, o) := by
  cases o with
  | libcMalloc size => cases quiet
  | libcRealloc p size => cases quiet
  | _ => trivial

/-- What a hook relies on about the results of its operations. -/
theorem logging_fits (recordOk : answer.recordOk = true) (granted : NoFailure answer (k, o))
    (executed : o.exec answer w = .ok (w', r)) (g : Filing) : (logging k).fits g o r := by
  cases o with
  | libcMalloc size =>
      rw [HookOp.exec] at executed
      cases answered : Libc.malloc w.heap size answer with
      | error fault => rw [answered] at executed; cases executed
      | ok result =>
          rw [answered] at executed
          cases executed
          have served : k.served answer.ptr := granted
          rw [← malloc_result answered] at served
          exact served
  | libcRealloc p size =>
      rw [HookOp.exec] at executed
      cases answered : Libc.realloc w.heap p size answer with
      | error fault => rw [answered] at executed; cases executed
      | ok result =>
          rw [answered] at executed
          cases executed
          have served : k.served answer.ptr := granted
          rw [← realloc_result answered] at served
          exact served
  | allocRecord => cases executed; exact recordOk
  | mprofileAdd mp =>
      rw [HookOp.exec] at executed
      split_ifs at executed with null
      exact null
  | _ => trivial

/-- Every operation keeps the invariant, unless it draws the id of a record that
produces a pointer for which another thread has a record to draw. -/
theorem logged_op {gs : Thread -> Hold × Filing} (recordOk : answer.recordOk = true)
    (granted : NoFailure answer (k, o))
    (timely : forall mpr x u, o = .drawId mpr -> mpr.produces = some x -> u ≠ t ->
      (gs u).2.live = some x -> (gs u).2.fresh = none)
    (logged : Logged client w gs) : (tracing k).OpSoundAt (Logged client) answer t o w gs := by
  rintro w' r ⟨mayHold, mayLog⟩ executed
  change o.exec answer w = .ok (w', r) at executed
  have answerOk : AnswerOk False anyAnswer k answer o := by
    cases o with
    | libcMalloc size => exact fun impossible => impossible.elim
    | libcRealloc p size =>
        refine ⟨trivial, fun b sz same positive => ⟨fun impossible => impossible.elim, ?_⟩⟩
        intro _ _ failed
        have served : k.served answer.ptr := granted
        rw [same] at served
        exact absurd failed (served positive)
    | _ => trivial
  have kept := custody_op (t := t) answerOk logged.custody w' r mayHold executed
  have fits := logging_fits recordOk granted executed (gs t).2
  rcases logged.log with ⟨drawn, log, queues⟩
  have free : forall mpr, o = .drawId mpr -> forall x, mpr.produces = some x ->
      client.owned x = none ∧ forall u, u ≠ t -> (gs u).2.live ≠ some x := by
    rintro mpr rfl x produces
    have isBlock := (logged.backed t).fresh x (mayLog.2.2.1.symm.trans produces)
    refine ⟨?_, fun u different live => ?_⟩
    · have free := logged.custody.apartOwned t _ isBlock
      rwa [sub_add_sizeofMemhdr] at free
    · have other := (logged.backed u).live x live (timely mpr x u rfl produces different live)
      exact different (logged.custody.apart u t _ other isBlock)
  have next := queues_op (fun u => (gs u).2) (queueing_of_logging mayLog)
    (sameQueue_after (k := k) (gs t).2 r) executed logged.list queues
  refine ⟨⟨kept.1, fits⟩, ?_, fun u => ?_, ?_, drawn ++ o.drawn r, ?_, ?_⟩
  · rw [Protocol.update_fst]
    exact kept.2
  · by_cases here : u = t
    · subst here
      rw [Function.update_self]
      exact backed_op mayHold mayLog fits (logged.backed u)
    · rw [Function.update_of_ne here]
      exact logged.backed u
  · rw [Protocol.update_snd]
    exact next.1
  · have lives : (fun u => (Function.update gs t ((tracing k).after (gs t) o r) u).2.live) =
        fun u =>
            (Function.update (fun u => (gs u).2) t ((logging k).after (gs t).2 o r) u).live := by
      funext u
      exact congrArg Filing.live (congrFun (Protocol.update_snd gs t _) u)
    rw [lives]
    exact live_op (fun u => (gs u).2) mayLog r free log
  · rw [Protocol.update_snd]
    exact next.2

/-! ## Calls -/

theorem claim_cases {client' : Holdings Thread} {b : UInt64}
    (claimed : client.claim t b = some client') :
    (b = 0 ∧ client' = client) ∨ (b ≠ 0 ∧ Exists fun sz => client.owned b = some sz ∧
      client'.owned = Function.update client.owned b none) := by
  unfold Holdings.claim at claimed
  by_cases null : b = 0
  · rw [if_pos null] at claimed
    cases claimed
    exact Or.inl ⟨null, rfl⟩
  · rw [if_neg null] at claimed
    cases isOwned : client.owned b with
    | none => rw [isOwned] at claimed; cases claimed
    | some sz =>
        rw [isOwned] at claimed
        cases claimed
        exact Or.inr ⟨null, sz, rfl, rfl⟩

/-- The filing of a call that starts. -/
def Call.filing : Call -> Filing
  | .malloc _ => .idle
  | .free b => .during 0 (if b = 0 then none else some b) none
  | .realloc b _ => .during 0 (if b = 0 then none else some b) none

theorem filingStarts_filing (k : Call) : filingStarts k k.filing := by
  cases k <;> rfl

/-- A call that starts answers for its argument. -/
theorem live_start {lives : Thread -> Option UInt64} {client' : Holdings Thread}
    (log : LiveLog client lives drawn) (idle : lives t = none)
    (started : (application Thread false).start t k client = some client') :
    LiveLog client' (Function.update lives t k.filing.live) drawn := by
  have same : LiveLog client (Function.update lives t none) drawn := by
    rw [← idle, Function.update_eq_self]
    exact log
  have claimed : forall b, client.claim t b = some client' ->
      LiveLog client' (Function.update lives t (if b = 0 then none else some b)) drawn := by
    intro b claims
    rcases claim_cases claims with ⟨null, rfl⟩ | ⟨isPointer, sz, isOwned, taken⟩
    · rw [if_pos null]
      exact same
    · rw [if_neg isPointer]
      exact log.claim idle isOwned taken
  cases k with
  | malloc sz => cases started; exact same
  | free b => exact claimed b started
  | realloc b sz => exact claimed b started

/-- The argument of a call is its block. -/
theorem backed_start {hold : Hold} (starts : holdStarts k hold) : Backed hold k.filing := by
  have argument : forall b : UInt64, (b ≠ 0 -> hold.block = some (b - sizeofMemhdr)) ->
      Backed hold (.during 0 (if b = 0 then none else some b) none) := by
    intro b isBlock
    refine ⟨fun x fresh => (by cases fresh), fun x live _ => ?_⟩
    by_cases null : b = 0
    · rw [if_pos null] at live
      cases live
    · rw [if_neg null] at live
      cases live
      exact isBlock null
  cases k with
  | malloc sz => exact ⟨fun x fresh => (by cases fresh), fun x live => (by cases live)⟩
  | free b =>
      refine argument b (fun isPointer => ?_)
      rcases starts with ⟨null, -⟩ | ⟨-, sz, rfl⟩
      · exact absurd null isPointer
      · rfl
  | realloc b sz =>
      refine argument b (fun isPointer => ?_)
      rcases argument_of_starts starts isPointer with ⟨old, isArgument⟩
      exact Hold.block_of_argument isArgument

/-- The pointer that a call returns goes back to the application. -/
theorem live_finish {family : Family} {lives : Thread -> Option UInt64} {hold : Hold} {g : Filing}
    {rv : UInt64} (log : LiveLog client lives drawn) (mine : lives t = g.live)
    (backed : Backed hold g) (holdEnded : holdEnds anyAnswer family k hold rv)
    (ended : filingEnds k g rv) :
    LiveLog ((application Thread false).finish t k rv client) (Function.update lives t none)
      drawn := by
  rcases ended with ⟨-, notFresh, live⟩
  have nothing : g.live = none -> LiveLog client (Function.update lives t none) drawn := by
    intro isNone
    rw [← isNone, ← mine, Function.update_eq_self]
    exact log
  have given : forall sz, g.live = some rv -> rv ≠ 0 ->
      LiveLog (client.give rv sz) (Function.update lives t none) drawn := by
    intro sz isLive isPointer
    refine log.give sz (mine.trans isLive) ?_
    rw [Holdings.give, if_neg isPointer]
  cases k with
  | malloc sz =>
      refine given sz live (fun null => ?_)
      have isBlock := backed.live rv live notFresh
      rcases holdEnded with ⟨-, rfl⟩ | ⟨isPointer, -⟩
      · cases isBlock
      · exact isPointer null
  | free b => exact nothing live
  | realloc b sz =>
      change LiveLog (if sz = 0 then _ else _) _ drawn
      simp only at live
      by_cases zeroSize : sz = 0
      · rw [if_pos zeroSize] at live ⊢
        exact nothing live
      · rw [if_neg zeroSize] at live ⊢
        rw [holdEnds, if_neg zeroSize] at holdEnded
        have isBlock := backed.live rv live notFresh
        have isPointer : rv ≠ 0 := by
          rintro rfl
          rcases holdEnded with ⟨-, -, rfl⟩ | ⟨-, notNull, old, rfl⟩ | ⟨isPointer, -⟩
          · cases isBlock
          · have same : b - sizeofMemhdr = 0 - sizeofMemhdr := Option.some.inj isBlock
            have back := congrArg (· + sizeofMemhdr) same
            simp only [sub_add_sizeofMemhdr] at back
            exact notNull back
          · exact isPointer rfl
        rw [if_neg isPointer]
        exact given sz live isPointer

/-- The invariant after one thread has changed its ghost values, but no queue. -/
theorem Logged.update {gs : Thread -> Hold × Filing} (logged : Logged client w gs)
    {client' : Holdings Thread} {g : Hold × Filing}
    (custody : Custody False client' w.heap (Function.update (fun u => (gs u).1) t g.1))
    (backed : Backed g.1 g.2) (created : g.2.created = 0) (profile : g.2.profile = 0)
    (due : g.2.due = (gs t).2.due)
    (log : forall drawn, LiveLog client (fun u => (gs u).2.live) drawn ->
      LiveLog client' (Function.update (fun u => (gs u).2.live) t g.2.live) drawn) :
    Logged client' w (Function.update gs t g) := by
  rcases logged.log with ⟨drawn, liveLog, queues⟩
  refine ⟨?_, fun u => ?_, ?_, drawn, ?_, ?_⟩
  · rw [Protocol.update_fst]
    exact custody
  · by_cases here : u = t
    · subst here
      rw [Function.update_self]
      exact backed
    · rw [Function.update_of_ne here]
      exact logged.backed u
  · rw [Protocol.update_snd]
    exact logged.list.change t g.2 logged.list.nodup logged.list.below (fun mp member => member)
      (fun u _ isU => logged.list.created u isU) (fun isCreated => absurd created isCreated)
      (fun isProfile => absurd profile isProfile) logged.list.specific
  · have lives : (fun u => (Function.update gs t g u).2.live) =
        Function.update (fun u => (gs u).2.live) t g.2.live :=
      funext (fun u => Function.apply_update (fun _ both => both.2.live) gs t g u)
    rw [lives]
    exact log drawn liveLog
  · rw [Protocol.update_snd]
    exact queues.congr rfl rfl due

/-- The tracing hooks keep the invariant where the profiler gets its records. -/
theorem logged_discipline {family : Family} (traced : family ≠ .stats) (tid : Thread -> Nat) :
    Pool.Discipline (M := hookMachine) (C := application Thread false)
      (fun answer => answer.recordOk = true) (fun t k => hook family (tid t) k) tracing
      (tracingEnds family) (.nothing, .idle) Logged where
  silentSound := fun k client answer t o recordOk quiet s gs logged =>
    logged_op recordOk (noFailure_of_silent quiet)
      (fun mpr _ _ same => by rw [same] at quiet; cases quiet) logged
  bodySound := fun _ _ _ _ _ _ _ impossible => impossible.2.elim
  leaveSound := fun _ _ _ _ _ _ _ impossible => impossible.2.elim
  start := fun k client client' s gs t started logged idle => by
    have atHold : (gs t).1 = .nothing := by rw [idle]
    have atFiling : (gs t).2 = .idle := by rw [idle]
    rcases custody_start k started logged.custody atHold with ⟨hold, custody, starts⟩
    refine ⟨(hold, k.filing), ?_, ?_⟩
    · refine logged.update custody (backed_start starts) ?_ ?_ ?_ (fun drawn log => ?_)
      · cases k <;> rfl
      · cases k <;> rfl
      · rw [atFiling]
        cases k <;> rfl
      · exact live_start log (by rw [atFiling]; rfl) started
    · exact (holding_hook family (tid t) starts).prod
        (logging_hook traced (tid t) (filingStarts_filing k))
  finish := fun k rv client s gs t logged ends => by
    refine logged.update
      (custody_finish k (fun impossible => by cases impossible) logged.custody ends.1)
      ⟨fun x fresh => (by cases fresh), fun x live => (by cases live)⟩ rfl rfl ?_
        (fun drawn log => ?_)
    · exact ends.2.1.symm
    · exact live_finish log rfl (logged.backed t) ends.1 ends.2

end Operations

/-! ## Runs -/

section Schedule

variable {Thread : Type} [DecidableEq Thread] {usesZeroBlocks : Bool}

/-- The record whose id a thread draws at its next step. -/
def HookPool.drawing (pool : HookPool Thread usesZeroBlocks) (t : Thread) : Option MprofileRecord :=
  match pool.headOf t with
  | some (.drawId mpr) => some mpr
  | _ => none

/-- No allocation fails in this step. -/
def Granted (pool : HookPool Thread usesZeroBlocks) : PoolLabel Thread Call Answer -> Prop
  | .call _ _ answer => answer.recordOk = true
  | .step t answer =>
      answer.recordOk = true ∧ forall due, due ∈ pool.due t -> NoFailure answer due

/-- No record that puts an address into use is drawn while another thread has
still to draw the one that takes the address out of use. -/
def Timely (pool : HookPool Thread usesZeroBlocks) : PoolLabel Thread Call Answer -> Prop
  | .call _ _ _ => True
  | .step t _ => forall mpr, mpr ∈ pool.drawing t -> forall u, u ≠ t ->
      forall other, other ∈ pool.drawing u -> mpr.produces = none ∨ other.consumes ≠ mpr.produces

instance (k : Call) (p : UInt64) : Decidable (k.served p) := by
  apply @Call.casesOn (fun k => Decidable (k.served p)) k <;>
    intros <;> dsimp only [Call.served] <;> infer_instance

instance (answer : Answer) (due : Call × HookOp) : Decidable (NoFailure answer due) := by
  apply @Prod.casesOn Call HookOp (fun due => Decidable (NoFailure answer due)) due
  intro k o
  apply @HookOp.casesOn (fun o => Decidable (NoFailure answer (k, o))) o <;>
    intros <;> dsimp only [NoFailure] <;> infer_instance

instance (pool : HookPool Thread usesZeroBlocks) : (l : PoolLabel Thread Call Answer) ->
    Decidable (Granted pool l)
  | .call _ _ answer => inferInstanceAs (Decidable (answer.recordOk = true))
  | .step t answer => inferInstanceAs (Decidable (answer.recordOk = true ∧
      forall due, due ∈ pool.due t -> NoFailure answer due))

instance {n : Nat} (pool : HookPool (Fin n) usesZeroBlocks) :
    (l : PoolLabel (Fin n) Call Answer) -> Decidable (Timely pool l)
  | .call _ _ _ => instDecidableTrue
  | .step t _ => inferInstanceAs (Decidable (forall mpr, mpr ∈ pool.drawing t -> forall u, u ≠ t ->
      forall other, other ∈ pool.drawing u -> mpr.produces = none ∨ other.consumes ≠ mpr.produces))

end Schedule

section Runs

variable {Thread : Type} [DecidableEq Thread] {family : Family} {tid : Thread -> Nat}
  {pool pool' : HookPool Thread false} {gs : Thread -> Hold × Filing}
  {l : PoolLabel Thread Call Answer}

/-- A thread that rests has its records in their queues, and has a fresh pointer
only if the record of it is what comes next. -/
theorem settled_filing {k : Call} {o : HookOp} {g : Filing} (settled : o.silent = false)
    (may : (logging k).may g o) :
    g.due = none ∧ (g.fresh = none ∨ Exists fun mpr => o = .drawId mpr ∧
      mpr.consumes = g.live) := by
  cases o with
  | libcMalloc size => exact ⟨may.1, Or.inl may.2.2⟩
  | libcFree p => exact ⟨may.1, Or.inl may.2.2⟩
  | libcRealloc p size => exact ⟨may.1, Or.inl may.2.2⟩
  | addFetch c delta => exact may.elim
  | subFetch c delta => exact may.elim
  | loadMax => exact may.elim
  | mprofileCreate => exact ⟨may.1, Or.inl may.2.1⟩
  | mprofileAdd mp => exact ⟨may.1, Or.inl may.2.1⟩
  | drawId mpr => exact ⟨may.1, Or.inr ⟨mpr, rfl, may.2.1⟩⟩
  | _ => cases settled

/-- Every thread of the pool is at such a point. -/
theorem holds_filing (holds : Pool.Holds tracing (tracingEnds family) (.nothing, .idle) Logged
    pool gs) (t : Thread) : (gs t).2.due = none ∧ ((gs t).2.fresh = none ∨
      Exists fun mpr => pool.drawing t = some mpr ∧ mpr.consumes = (gs t).2.live) := by
  have own := holds.threads t
  unfold HookPool.drawing Pool.headOf
  cases busy : pool.thread t with
  | none =>
      rw [busy] at own
      have idle : gs t = (.nothing, .idle) := own
      rw [idle]
      exact ⟨rfl, Or.inl rfl⟩
  | some entry =>
      rcases entry with ⟨k, program⟩
      rw [busy] at own
      rcases own with ⟨follows, settled, notReturned⟩
      cases program with
      | ret value => exact absurd rfl (notReturned value)
      | spin loop rest => exact follows.1.2.elim
      | op o rest =>
          have facts := settled_filing settled follows.1.2
          refine ⟨facts.1, facts.2.imp id ?_⟩
          rintro ⟨mpr, rfl, consumes⟩
          exact ⟨mpr, rfl, consumes⟩

/-- A timely step is sound. -/
theorem Timely.labelSound (holds : Pool.Holds tracing (tracingEnds family) (.nothing, .idle) Logged
    pool gs) (granted : Granted pool l) (timely : Timely pool l) :
    Pool.LabelSound tracing Logged pool gs l := by
  cases l with
  | call t k answer => trivial
  | step t answer =>
      intro k program o busy here
      refine logged_op granted.1 (granted.2 (k, o) ?_)
        (fun mpr x u same produces different live => ?_)
        holds.invariant
      · unfold HookPool.due
        rw [busy]
        simp only [here, Option.map_some]
        exact rfl
      · rcases (holds_filing holds u).2 with notFresh | ⟨other, drawing, consumes⟩
        · exact notFresh
        · have mine : mpr ∈ pool.drawing t := by
            unfold HookPool.drawing Pool.headOf
            rw [busy]
            simp only [here, same]
            exact rfl
          rcases timely mpr mine u different other drawing with nothing | apart
          · rw [produces] at nothing
            cases nothing
          · exact absurd (consumes.trans (live.trans produces.symm)) apart

/-- The pool invariant of the tracing hooks. -/
def HookPool.Logged (family : Family) (pool : HookPool Thread false) : Prop :=
  Exists fun gs => Pool.Holds tracing (tracingEnds family) (.nothing, .idle) Mprofile.Logged pool gs

theorem HookPool.init_logged : (HookPool.init Thread false).Logged family := by
  refine ⟨fun _ => (.nothing, .idle), ?_, fun _ => rfl⟩
  exact ⟨custody_init False, fun t =>
    ⟨fun x fresh => (by cases fresh), fun x live => (by cases live)⟩,
    profileList_init, [], liveLog_init, queues_init⟩

theorem HookPool.Logged.next (traced : family ≠ .stats) (logged : pool.Logged family)
    (granted : Granted pool l) (timely : Timely pool l)
    (stepped : pool.next family tid l = .ok pool') : pool'.Logged family := by
  rcases logged with ⟨gs, holds⟩
  have recordOk : l.env.recordOk = true := by
    cases l with
    | call t k answer => exact granted
    | step t answer => exact granted.1
  exact Pool.next_sound (logged_discipline traced tid) holds recordOk
    (timely.labelSound holds granted) stepped

/-- The merged log replays, and so does every queue that equals it up to stacks. -/
theorem HookPool.Logged.replays (logged : pool.Logged family) :
    (pool.shared.prof.records.map MprofileRecord.mprId).Nodup ∧
      forall log : List MprofileRecord,
        log.map MprofileRecord.unfiled = pool.shared.prof.mergedLog.map MprofileRecord.unfiled ->
          (Exists fun live => replay log = some live) ∧ forall mpr, mpr ∈ log ->
            mpr.bare = mpr := by
  rcases logged with ⟨gs, holds⟩
  rcases holds.invariant.log with ⟨drawn, liveLog, queues⟩
  rcases liveLog.replays with ⟨live, replayed, -⟩
  have unfiled : drawn.map MprofileRecord.unfiled = drawn := by
    refine (List.map_congr_left (fun mpr member => ?_)).trans (List.map_id drawn)
    rw [MprofileRecord.unfiled, ← (queues.blank mpr member).2.2]
    rfl
  have perm := queues.perm (fun t => (holds_filing holds t).1)
  have merged : SortedLog pool.shared.prof.records pool.shared.prof.mergedLog :=
    ⟨sorted_mergedLog queues.once, (List.perm_insertionSort _ _).map _⟩
  have same := merged.eq_of_perm (by rw [unfiled]; exact perm) queues.sorted
  refine ⟨queues.once, fun log equal => ⟨⟨live, ?_⟩, fun mpr member => ?_⟩⟩
  · rw [← replay_unfiled, equal, same, unfiled]
    exact replayed
  · have inDrawn : mpr.unfiled ∈ drawn := by
      rw [← unfiled, ← same, ← equal]
      exact List.mem_map_of_mem member
    have blank := queues.blank _ inDrawn
    exact bare_of_unlinked blank.1 blank.2.1

end Runs

/-- In every interleaving whose steps are timely, the records ordered by id are a
valid heap history, and saving the profiles does not abort in `build_chains`. -/
theorem mergedLog_replays {Thread : Type} [DecidableEq Thread] {family : Family}
    (traced : family ≠ .stats) (tid : Thread -> Nat) (labels : List (PoolLabel Thread Call Answer))
    (granted : Meets (HookPool.next family tid) Granted (HookPool.init Thread false) labels)
    (timely : Meets (HookPool.next family tid) Timely (HookPool.init Thread false) labels)
    (pool : HookPool Thread false)
    (executed : exec (HookPool.next family tid) (HookPool.init Thread false) labels = .ok pool) :
    replay pool.shared.prof.mergedLog ≠ none ∧
      forall copyBlock linkChains stop,
        mprofileSave copyBlock linkChains pool.shared.prof ≠ .error (.chains stop) := by
  have logged : pool.Logged family := exec_invariant (HookPool.Logged family)
    (fun pool l pool' logged met stepped => logged.next traced met.1 met.2 stepped)
    HookPool.init_logged (granted.and timely) executed
  rcases logged.replays with ⟨fresh, replays⟩
  refine ⟨?_, fun copyBlock linkChains stop failed => ?_⟩
  · rcases (replays _ rfl).1 with ⟨live, replayed⟩
    rw [replayed]
    exact Option.some_ne_none live
  · rcases mprofileSave_mergedLog fresh _ failed with ofMerge | ⟨other, -, sorter, same, stopped⟩
    · rcases ofMerge with impossible | ⟨reason, impossible⟩
      · cases impossible
      · cases impossible
    · rcases replays sorter same with ⟨⟨live, replayed⟩, bare⟩
      rcases buildChains_linked sorter bare replayed with ⟨linked, built, -⟩
      rw [stopped] at built
      cases built

/-- A block moves, and another thread is given the old address after its record is drawn. -/
def recycledRun : List (PoolLabel (Fin 2) Call Answer) :=
  callOf threadA (.malloc 8) [0, 0, 4096, 0] ++ callOf threadA (.realloc 4112 24) [8192] ++
    [.step threadA (answering 0)] ++ callOf threadB (.malloc 8) [0, 0, 4096, 0]

theorem mergedLog_replays_recycledRun : Exists fun pool =>
    exec (HookPool.next .trace Fin.val) (HookPool.init (Fin 2) false) recycledRun = .ok pool ∧
      pool.shared.prof.mergedLog.map MprofileRecord.mprMem = [4112, 8208, 4112] ∧
        replay pool.shared.prof.mergedLog ≠ none := by
  have reached : Exists fun pool =>
      exec (HookPool.next .trace Fin.val) (HookPool.init (Fin 2) false) recycledRun = .ok pool ∧
        pool.shared.prof.mergedLog.map MprofileRecord.mprMem = [4112, 8208, 4112] :=
    reaches_of_check (by decide +kernel)
  rcases reached with ⟨pool, executed, addresses⟩
  have replays := mergedLog_replays (by decide) Fin.val recycledRun
    (meets_of_check (by decide +kernel)) (meets_of_check (by decide +kernel)) pool executed
  exact ⟨pool, executed, addresses, replays.1⟩

/-- A block moves, and another thread draws a record for the old address first. -/
def overtakenRun : List (PoolLabel (Fin 2) Call Answer) :=
  callOf threadA (.malloc 8) [0, 0, 4096, 0] ++ callOf threadA (.realloc 4112 24) [8192] ++
    callOf threadB (.malloc 8) [0, 0, 4096, 0] ++ [.step threadA (answering 0)]

theorem overtakenRun_conflicts :
    ¬ forall (labels : List (PoolLabel (Fin 2) Call Answer)) pool,
      Meets (HookPool.next .trace Fin.val) Granted (HookPool.init (Fin 2) false) labels ->
      exec (HookPool.next .trace Fin.val) (HookPool.init (Fin 2) false) labels = .ok pool ->
        replay pool.shared.prof.mergedLog ≠ none := by
  intro always
  have reached : Exists fun pool =>
      exec (HookPool.next .trace Fin.val) (HookPool.init (Fin 2) false) overtakenRun = .ok pool ∧
        replay pool.shared.prof.mergedLog = none := reaches_of_check (by decide +kernel)
  rcases reached with ⟨pool, executed, conflict⟩
  exact always overtakenRun pool (meets_of_check (by decide +kernel)) executed conflict

end Mprofile
end OsslScripts
