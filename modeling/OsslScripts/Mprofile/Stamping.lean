import OsslScripts.Mprofile.SavedLog
import OsslScripts.Mprofile.TimeAxis

namespace OsslScripts
namespace Mprofile

open Foundation

/-!
# Time stamps and ids

A record takes its time stamp in `create_mprofile_record` and its id in the
function that fills it in, and any number of steps of other threads may lie in
between.  `stamping` is the discipline of a hook towards both: a record takes a
stamp once the thread has a profile, and draws its id with that stamp before
the thread does anything else.

The stamps are in the order of the ids as long as no thread draws an id while
another one still holds an earlier stamp.  The start of the axis is taken with
the first profile, and again with later ones as long as its seconds are 0.
-/

/-- Where a call stands with its stamp. -/
structure Stamping where
  /-- The profile of the thread is known. -/
  ready : Bool
  /-- The stamp of the record that has no id yet. -/
  pending : Option Timespec

def Stamping.idle : Stamping := ⟨false, none⟩

/-- The thread has its profile, and no stamp is pending. -/
def Stamping.found : Stamping := ⟨true, none⟩

/-- What a call may do to stamps and ids. -/
def stamping : Protocol hookMachine Stamping where
  may := fun g o =>
    match o with
    | .clockGettime => g.ready = true ∧ g.pending = none
    | .setSpecific _ _ => g.ready = true ∧ g.pending = none
    | .drawId mpr => g.pending = some mpr.mprTs
    | _ => g.pending = none
  fits := fun _ o _ =>
    match o with
    | .mprofileAdd mp => mp ≠ 0
    | _ => True
  after := fun g o r =>
    match o, r with
    | .getSpecific _, mp => { g with ready := decide (mp ≠ 0) }
    | .mprofileCreate, mp => { g with ready := decide (mp ≠ 0) }
    | .clockGettime, now => { g with pending := some now }
    | .drawId _, _ => { g with pending := none }
    | _, _ => g
  loops := fun g _ => g.pending = none
  leave := fun g => g

/-- How a call ends: its record has its id. -/
def stampEnds (g : Stamping) : Prop := g.pending = none

/-- Operations that have nothing to do with stamps. -/
def Stampless : HookOp -> Prop
  | .getSpecific _ => False
  | .setSpecific _ _ => False
  | .mprofileCreate => False
  | .clockGettime => False
  | .drawId _ => False
  | _ => True

/-! ## The hooks keep to the discipline -/

section Text

variable {α β : Type} {ends : Stamping -> α -> Prop}

abbrev Stampfree (program : HookM α) : Prop := Protocol.Uses (M := hookMachine) Stampless program

/-- Skip over a program that has nothing to do with stamps. -/
theorem stamping_skip {program : HookM β} {rest : β -> HookM α} (uses : Stampfree program)
    (onward : forall value, stamping.Follows ends (rest value) .found) :
    stamping.Follows ends (program >>= rest) .found := by
  have skipped : stamping.Follows (fun g _ => g = .found) program .found := by
    apply Protocol.Follows.of_neutral Stamping.found _ _ (fun _ => rfl) rfl uses
    · intro o kind
      cases o <;> first | rfl | exact kind.elim
    · intro o r kind
      cases o <;> first | rfl | exact kind.elim
  apply Protocol.Follows.bind skipped
  rintro g value rfl
  exact onward value

theorem stampfree_recordStack (mp mprId : Nat) (mps : Option MprofileStack) :
    Stampfree (recordStack mp mprId mps) := by
  cases mps with
  | none => trivial
  | some mps => exact ⟨trivial, fun _ => ⟨trivial, fun _ => trivial⟩⟩

theorem stampfree_checkMemhdr (b : UInt64) : Stampfree (checkMemhdr b) := by
  refine ⟨trivial, fun hdr => ?_⟩
  change Stampfree (if _ then _ else _)
  split_ifs
  · exact ⟨trivial, fun impossible => impossible.elim⟩
  · trivial

theorem stampfree_mallocHeaded (sz : UInt64) : Stampfree (mallocHeaded sz) := by
  refine ⟨trivial, fun mh => ?_⟩
  change Stampfree (if mh ≠ 0 then _ else _)
  split_ifs
  · exact ⟨trivial, fun _ => trivial⟩
  · trivial

theorem stampfree_initStackBuf : Stampfree initStackBuf := ⟨trivial, fun _ => trivial⟩

theorem stampfree_collectBacktrace (mps : Option MprofileStack) :
    Stampfree (collectBacktrace mps) :=
  ⟨trivial, fun _ => trivial⟩

/-- The thread finds its profile or makes one. -/
theorem stamping_getMprofile {tid : Nat} {rest : Nat -> HookM α}
    (onward : forall mp, stamping.Follows ends (rest mp) .found) :
    stamping.Follows ends (getMprofile tid >>= rest) .idle := by
  refine follows_perform rfl (fun mp _ => ?_)
  change stamping.Follows ends (Prog.bind (if mp = 0 then _ else _) rest) ⟨decide (mp ≠ 0), none⟩
  by_cases null : mp = 0
  · rw [if_pos null]
    refine follows_perform rfl (fun created _ => ?_)
    refine follows_perform rfl (fun _ added => ?_)
    have isProfile : decide (created ≠ 0) = true := decide_eq_true added
    refine follows_perform ⟨isProfile, rfl⟩ (fun _ _ => ?_)
    change stamping.Follows ends (rest created) ⟨decide (created ≠ 0), none⟩
    rw [isProfile]
    exact onward created
  · rw [if_neg null, decide_eq_true null]
    exact onward mp

/-- A record draws its id with the stamp that it has taken. -/
theorem stamping_record {mp : Nat} {fill : MprofileRecord -> MprofileRecord}
    {mps : Option MprofileStack}
    {rest : Unit -> HookM α} (stamped : forall mpr, (fill mpr).mprTs = mpr.mprTs)
    (onward : stamping.Follows ends (rest ()) .found) :
    stamping.Follows ends
      ((createMprofileRecord >>= fun created => match created with
        | none => return ()
        | some mpr => appendRecord mp (fill mpr) mps) >>= rest) .found := by
  refine follows_perform rfl (fun ok _ => ?_)
  cases ok with
  | false => exact onward
  | true =>
      refine follows_perform ⟨rfl, rfl⟩ (fun now _ => ?_)
      have kept := stamped { (default : MprofileRecord) with mprTs := now }
      refine follows_perform (congrArg some kept.symm) (fun mprId _ => ?_)
      refine follows_perform rfl (fun _ _ => ?_)
      exact stamping_skip (stampfree_recordStack mp mprId mps) (fun _ => onward)

theorem stamping_recordMalloc (mp : Nat) (rv sz : UInt64) (mps : Option MprofileStack) :
    stamping.Follows (fun g _ => stampEnds g)
      (do if mp ≠ 0 then mprofileRecordAlloc mp rv sz mps
          return rv) .found := by
  split_ifs
  · exact stamping_record (fun _ => rfl) rfl
  · exact rfl

theorem stamping_freeTraced (mp : Nat) (b : UInt64) (mps : Option MprofileStack) :
    stamping.Follows (fun g _ => stampEnds g)
      (do if b ≠ 0 then
            let hdr ← checkMemhdr b
            if mp ≠ 0 then mprofileRecordFree mp b hdr.mhSize mps
            perform (.libcFree (b - sizeofMemhdr))
          else
            if mp ≠ 0 then mprofileRecordFree mp b 0 mps
            perform (.libcFree 0)) .found := by
  have released : forall p, stamping.Follows (fun g _ => stampEnds g) (perform (.libcFree p))
      .found :=
    fun p => ⟨rfl, fun _ _ => rfl⟩
  split_ifs
  · refine stamping_skip (stampfree_checkMemhdr b) (fun hdr => ?_)
    exact stamping_record (fun _ => rfl) (released _)
  · exact stamping_skip (stampfree_checkMemhdr b) (fun hdr => released _)
  · exact stamping_record (fun _ => rfl) (released _)
  · exact released _

theorem stamping_reallocTraceTail {collect : HookM (Option MprofileStack)}
    (collects : Stampfree collect)
    (mp : Nat) (b sz : UInt64) (saveMh : Memhdr) (mh : UInt64) :
    stamping.Follows (fun g _ => stampEnds g) (reallocTraceTail collect mp b sz saveMh mh)
      .found := by
  unfold reallocTraceTail
  split_ifs
  · exact rfl
  · exact rfl
  · refine stamping_skip collects (fun mps => follows_perform rfl (fun _ _ => ?_))
    exact stamping_record (fun _ => rfl) rfl
  · refine stamping_skip collects (fun mps => follows_perform rfl (fun _ _ => ?_))
    exact stamping_record (fun _ => rfl) rfl
  · exact stamping_skip collects (fun mps => rfl)

theorem stamping_reallocTraced {collect : HookM (Option MprofileStack)}
    (collects : Stampfree collect)
    (mp : Nat) (mps : Option MprofileStack) (b sz : UInt64) :
    stamping.Follows (fun g _ => stampEnds g) (reallocTraced mp mps collect b sz) .found := by
  have asks : forall p saveMh, stamping.Follows (fun g _ => stampEnds g)
      (perform (.libcRealloc p (reallocSize sz)) >>= fun mh =>
        reallocTraceTail collect mp b sz saveMh mh) .found :=
    fun p saveMh =>
      follows_perform rfl (fun mh _ => stamping_reallocTraceTail collects mp b sz saveMh mh)
  unfold reallocTraced
  split_ifs
  · refine stamping_skip (stampfree_checkMemhdr b) (fun saveMh => ?_)
    exact stamping_record (fun _ => rfl) (asks _ _)
  · exact stamping_skip (stampfree_checkMemhdr b) (fun saveMh => asks _ _)
  · exact stamping_record (fun _ => rfl) (asks _ _)
  · exact asks _ _

/-- Every tracing hook keeps to the discipline. -/
theorem stamping_hook {family : Family} (traced : family ≠ .stats) (tid : Nat) (k : Call) :
    stamping.Follows (fun g _ => stampEnds g) (hook family tid k) .idle := by
  have returns : forall g (value : Unit), stampEnds g ->
      stamping.Follows (fun g _ => stampEnds g) (pure 0 : HookM UInt64) g := fun _ _ ended => ended
  have collects : Stampfree (return (none : Option MprofileStack)) := trivial
  cases family with
  | stats => exact absurd rfl traced
  | trace =>
      cases k with
      | malloc sz =>
          refine stamping_getMprofile (fun mp => ?_)
          exact stamping_skip (stampfree_mallocHeaded sz)
            (fun rv => stamping_recordMalloc mp rv sz none)
      | free b =>
          exact Protocol.Follows.bind
            (stamping_getMprofile (fun mp => stamping_freeTraced mp b none)) returns
      | realloc b sz =>
        exact stamping_getMprofile (fun mp => stamping_reallocTraced collects mp none b sz)
  | traceWithStack =>
      cases k with
      | malloc sz =>
          refine stamping_getMprofile (fun mp => ?_)
          refine stamping_skip stampfree_initStackBuf (fun mps => ?_)
          refine stamping_skip (stampfree_mallocHeaded sz) (fun rv => ?_)
          exact stamping_skip (stampfree_collectBacktrace mps)
            (fun mps => stamping_recordMalloc mp rv sz mps)
      | free b =>
          apply Protocol.Follows.bind (stamping_getMprofile (fun mp => ?_)) returns
          refine stamping_skip stampfree_initStackBuf (fun mps => ?_)
          exact stamping_skip (stampfree_collectBacktrace mps)
            (fun mps => stamping_freeTraced mp b mps)
      | realloc b sz =>
          refine stamping_getMprofile (fun mp => ?_)
          refine stamping_skip stampfree_initStackBuf (fun mps => ?_)
          exact stamping_reallocTraced (stampfree_collectBacktrace mps) mp mps b sz

end Text

/-! ## The invariant -/

section Invariant

variable {Thread : Type} [DecidableEq Thread] {C : Client Thread Call UInt64} {family : Family}
  {tid : Thread -> Nat} {drawn : List MprofileRecord} {clock : Timespec} {w w' : World}
  {gs : Thread -> Stamping} {t : Thread} {g : Stamping} {answer : Answer}

/-- A stamp that some record has, or is about to draw its id with. -/
def Taken (drawn : List MprofileRecord) (gs : Thread -> Stamping) (stamp : Timespec) : Prop :=
  (Exists fun mpr => mpr ∈ drawn ∧ mpr.mprTs = stamp) ∨ Exists fun t => (gs t).pending = some stamp

/-- The records drawn so far are in the order of their stamps, and the clock is
past everything that was read from it. -/
structure Stamped (drawn : List MprofileRecord) (clock : Timespec) (w : World)
    (gs : Thread -> Stamping) :
    Prop where
  sorted : drawn.Pairwise (fun earlier later => earlier.mprTs.NotAfter later.mprTs)
  ordered : forall t stamp, (gs t).pending = some stamp -> forall mpr, mpr ∈ drawn ->
    mpr.mprTs.NotAfter stamp
  taken : forall stamp, Taken drawn gs stamp ->
    stamp.Readable ∧ stamp.NotAfter clock ∧ 1 < w.prof.mprofileTop ∧
      w.prof.startTimeTv.NotAfter stamp
  started : 1 < w.prof.mprofileTop ∨ w.prof.startTimeTv.tvSec ≠ 0 ->
    w.prof.startTimeTv.Readable ∧ w.prof.startTimeTv.NotAfter clock
  ready : forall t, (gs t).ready = true -> 1 < w.prof.mprofileTop
  specific : forall u, w.prof.specific u ≠ 0 -> 1 < w.prof.mprofileTop
  top : 0 < w.prof.mprofileTop

/-- What the invariant reads of the profiler. -/
structure SameStart (w w' : World) : Prop where
  startTimeTv : w'.prof.startTimeTv = w.prof.startTimeTv
  mprofileTop : w'.prof.mprofileTop = w.prof.mprofileTop
  specific : w'.prof.specific = w.prof.specific

theorem SameStart.of_prof (same : w'.prof = w.prof) : SameStart w w' := by
  constructor <;> rw [same]

omit [DecidableEq Thread] in
theorem Stamped.keep (stamped : Stamped drawn clock w gs) (same : SameStart w w') :
    Stamped drawn clock w' gs where
  sorted := stamped.sorted
  ordered := stamped.ordered
  taken := by
    rw [same.startTimeTv, same.mprofileTop]
    exact stamped.taken
  started := by
    rw [same.startTimeTv, same.mprofileTop]
    exact stamped.started
  ready := by
    rw [same.mprofileTop]
    exact stamped.ready
  specific := by
    rw [same.specific, same.mprofileTop]
    exact stamped.specific
  top := by
    rw [same.mprofileTop]
    exact stamped.top

omit [DecidableEq Thread] in
/-- The clock goes on. -/
theorem Stamped.later {clock' : Timespec} (stamped : Stamped drawn clock w gs)
    (order : clock.NotAfter clock') : Stamped drawn clock' w gs where
  sorted := stamped.sorted
  ordered := stamped.ordered
  taken := fun stamp taken => by
    rcases stamped.taken stamp taken with ⟨readable, before, made, start⟩
    exact ⟨readable, before.trans order, made, start⟩
  started := fun made => ⟨(stamped.started made).1, (stamped.started made).2.trans order⟩
  ready := stamped.ready
  specific := stamped.specific
  top := stamped.top

/-- A thread may change its part if it takes up no stamp and no profile. -/
theorem Stamped.change (stamped : Stamped drawn clock w gs)
    (pending : g.pending = none ∨ g.pending = (gs t).pending)
    (ready : g.ready = true -> 1 < w.prof.mprofileTop) :
    Stamped drawn clock w (Function.update gs t g) := by
  have before : forall u stamp, (Function.update gs t g u).pending = some stamp ->
      (gs u).pending = some stamp := by
    intro u stamp isPending
    by_cases here : u = t
    · subst here
      rw [Function.update_self] at isPending
      rcases pending with none | same
      · rw [none] at isPending
        cases isPending
      · exact same ▸ isPending
    · rwa [Function.update_of_ne here] at isPending
  refine ⟨stamped.sorted, fun u stamp isPending =>
    stamped.ordered u stamp (before u stamp isPending),
    fun stamp taken => stamped.taken stamp (taken.imp id ?_), stamped.started, fun u isReady => ?_,
    stamped.specific, stamped.top⟩
  · rintro ⟨u, isPending⟩
    exact ⟨u, before u stamp isPending⟩
  · by_cases here : u = t
    · subst here
      rw [Function.update_self] at isReady
      exact ready isReady
    · rw [Function.update_of_ne here] at isReady
      exact stamped.ready u isReady

/-- A stamp is taken now. -/
theorem Stamped.take (stamped : Stamped drawn clock w gs) (readable : clock.Readable)
    (isReady : (gs t).ready = true) :
    Stamped drawn clock w (Function.update gs t { gs t with pending := some clock }) := by
  have made := stamped.ready t isReady
  have start := stamped.started (Or.inl made)
  have split : forall u stamp,
      (Function.update gs t { gs t with pending := some clock } u).pending = some stamp ->
      stamp = clock ∨ (gs u).pending = some stamp := by
    intro u stamp isPending
    by_cases here : u = t
    · subst here
      rw [Function.update_self] at isPending
      exact Or.inl (Option.some.inj isPending).symm
    · rw [Function.update_of_ne here] at isPending
      exact Or.inr isPending
  refine ⟨stamped.sorted, fun u stamp isPending mpr member => ?_, fun stamp taken => ?_,
    stamped.started,
    fun u ready => ?_, stamped.specific, stamped.top⟩
  · rcases split u stamp isPending with rfl | before
    · exact (stamped.taken mpr.mprTs (Or.inl ⟨mpr, member, rfl⟩)).2.1
    · exact stamped.ordered u stamp before mpr member
  · rcases taken with inLog | ⟨u, isPending⟩
    · exact stamped.taken stamp (Or.inl inLog)
    · rcases split u stamp isPending with rfl | before
      · exact ⟨readable, .refl _, made, start.2⟩
      · exact stamped.taken stamp (Or.inr ⟨u, before⟩)
  · by_cases here : u = t
    · exact made
    · rw [Function.update_of_ne here] at ready
      exact stamped.ready u ready

/-- An id is drawn with the earliest of the pending stamps. -/
theorem Stamped.draw {mpr : MprofileRecord} (stamped : Stamped drawn clock w gs) (mprId : Nat)
    (isPending : (gs t).pending = some mpr.mprTs)
    (earliest : forall u stamp, (gs u).pending = some stamp -> mpr.mprTs.NotAfter stamp) :
    Stamped (drawn ++ [{ mpr with mprId := mprId }]) clock w
      (Function.update gs t { gs t with pending := none }) := by
  have before : forall u stamp,
      (Function.update gs t { gs t with pending := none } u).pending = some stamp ->
        (gs u).pending = some stamp := by
    intro u stamp pending
    by_cases here : u = t
    · subst here
      rw [Function.update_self] at pending
      cases pending
    · rwa [Function.update_of_ne here] at pending
  refine ⟨?_, fun u stamp pending => ?_, fun stamp taken => ?_, stamped.started, fun u ready => ?_,
    stamped.specific, stamped.top⟩
  · rw [List.pairwise_append]
    refine ⟨stamped.sorted, List.pairwise_singleton _ _, fun earlier member later isNew => ?_⟩
    rw [List.mem_singleton.mp isNew]
    exact stamped.ordered t mpr.mprTs isPending earlier member
  · intro other member
    rcases List.mem_append.mp member with inLog | isNew
    · exact stamped.ordered u stamp (before u stamp pending) other inLog
    · rw [List.mem_singleton.mp isNew]
      exact earliest u stamp (before u stamp pending)
  · rcases taken with ⟨other, member, rfl⟩ | ⟨u, pending⟩
    · rcases List.mem_append.mp member with inLog | isNew
      · exact stamped.taken _ (Or.inl ⟨other, inLog, rfl⟩)
      · rw [List.mem_singleton.mp isNew]
        exact stamped.taken _ (Or.inr ⟨t, isPending⟩)
    · exact stamped.taken stamp (Or.inr ⟨u, before u stamp pending⟩)
  · by_cases here : u = t
    · subst here
      rw [Function.update_self] at ready
      exact stamped.ready u ready
    · rw [Function.update_of_ne here] at ready
      exact stamped.ready u ready

theorem mprofileCreate_startTimeTv (prof : Profiler) (answer : Answer) :
    (prof.mprofileCreate answer).1.startTimeTv =
      if prof.startTimeTv.tvSec = 0 then answer.startTime else prof.startTimeTv := by
  unfold Profiler.mprofileCreate
  split_ifs <;> rfl

omit [DecidableEq Thread] in
/-- A profile is made, and the start of the axis is read if it has no seconds yet. -/
theorem Stamped.create (stamped : Stamped drawn clock w gs) (readable : answer.startTime.Readable)
    (past : answer.startTime.NotAfter clock)
    (first : w.prof.startTimeTv.tvSec = 0 -> forall stamp, Taken drawn gs stamp ->
      answer.startTime.NotAfter stamp) :
    Stamped drawn clock { w with prof := (w.prof.mprofileCreate answer).1 } gs ∧
      ((w.prof.mprofileCreate answer).2 ≠ 0 ->
        1 < (w.prof.mprofileCreate answer).1.mprofileTop) := by
  rcases mprofileCreate_cases w.prof answer with ⟨⟨-, specific, -⟩, made⟩
  have start := mprofileCreate_startTimeTv w.prof answer
  have grows : w.prof.mprofileTop ≤ (w.prof.mprofileCreate answer).1.mprofileTop := by
    rcases made with ⟨-, -, top⟩ | ⟨-, top, -⟩
    · exact Nat.le_of_eq top.symm
    · rw [top]
      exact Nat.le_succ _
  have begun : (w.prof.mprofileCreate answer).1.startTimeTv.Readable ∧
      (w.prof.mprofileCreate answer).1.startTimeTv.NotAfter clock := by
    rw [start]
    split_ifs with unset
    · exact ⟨readable, past⟩
    · exact stamped.started (Or.inr unset)
  constructor
  · exact {
      sorted := stamped.sorted
      ordered := stamped.ordered
      taken := fun stamp taken => by
        rcases stamped.taken stamp taken with ⟨isReadable, before, isMade, order⟩
        refine ⟨isReadable, before, Nat.lt_of_lt_of_le isMade grows, ?_⟩
        change (w.prof.mprofileCreate answer).1.startTimeTv.NotAfter stamp
        rw [start]
        split_ifs with unset
        · exact first unset stamp taken
        · exact order
      started := fun _ => begun
      ready := fun u isReady => Nat.lt_of_lt_of_le (stamped.ready u isReady) grows
      specific := fun u isProfile => by
        change (w.prof.mprofileCreate answer).1.specific u ≠ 0 at isProfile
        rw [specific] at isProfile
        exact Nat.lt_of_lt_of_le (stamped.specific u isProfile) grows
      top := Nat.lt_of_lt_of_le stamped.top grows }
  · intro isProfile
    rcases made with ⟨failed, -⟩ | ⟨-, top, -⟩
    · exact absurd failed isProfile
    · rw [top]
      exact Nat.succ_lt_succ stamped.top

/-- The condition on an operation under which it keeps the order of the stamps. -/
def KeepsOrder (drawn : List MprofileRecord) (gs : Thread -> Stamping) (answer : Answer)
    (w : World) :
    HookOp -> Prop
  | .drawId mpr => forall u stamp, (gs u).pending = some stamp -> mpr.mprTs.NotAfter stamp
  | .mprofileCreate => w.prof.startTimeTv.tvSec = 0 ->
      forall stamp, Taken drawn gs stamp -> answer.startTime.NotAfter stamp
  | _ => True

/-- The clock readings of one step. -/
structure Ticks (clock : Timespec) (answer : Answer) : Prop where
  start : answer.startTime.Readable
  stamp : answer.now.Readable
  past : answer.startTime.NotAfter clock
  now : answer.now = clock

/-- Every operation that keeps the order keeps the invariant. -/
theorem stamped_op {o : HookOp} (stamped : Stamped drawn clock w gs)
    (ticks : Ticks clock answer) (keeps : KeepsOrder drawn gs answer w o)
    {after : List MprofileRecord}
    (draws : forall w' r, o.exec answer w = .ok (w', r) -> after = drawn ++ o.drawn r) :
    stamping.OpSoundAt (fun w' gs' => Stamped after clock w' gs') answer t o w gs := by
  intro w' r may executed
  change o.exec answer w = .ok (w', r) at executed
  rw [draws w' r executed]
  -- operations that neither touch the start nor the stamps
  have other : SameStart w w' -> Stamped (drawn ++ []) clock w' (Function.update gs t (gs t)) := by
    intro same
    rw [Function.update_eq_self, List.append_nil]
    exact stamped.keep same
  cases o with
  | libcMalloc size => exact ⟨trivial, other (.of_prof (prof_of_blocks executed id))⟩
  | libcRealloc p size => exact ⟨trivial, other (.of_prof (prof_of_blocks executed id))⟩
  | libcFree p => exact ⟨trivial, other (.of_prof (prof_of_blocks executed id))⟩
  | loadMemhdr p => exact ⟨trivial, other (.of_prof (prof_of_blocks executed id))⟩
  | storeMemhdr p hdr => exact ⟨trivial, other (.of_prof (prof_of_blocks executed id))⟩
  | abort => cases executed
  | addFetch c delta =>
      cases executed
      exact ⟨trivial, other ⟨rfl, rfl, rfl⟩⟩
  | subFetch c delta =>
      cases executed
      exact ⟨trivial, other ⟨rfl, rfl, rfl⟩⟩
  | loadMax =>
      cases executed
      exact ⟨trivial, other ⟨rfl, rfl, rfl⟩⟩
  | allocRecord =>
      cases executed
      exact ⟨trivial, other ⟨rfl, rfl, rfl⟩⟩
  | stackBuf =>
      cases executed
      exact ⟨trivial, other ⟨rfl, rfl, rfl⟩⟩
  | backtrace =>
      cases executed
      exact ⟨trivial, other ⟨rfl, rfl, rfl⟩⟩
  | setStackId mp mprId stackId =>
      cases executed
      exact ⟨trivial, other ⟨rfl, rfl, rfl⟩⟩
  | mprofileAdd mp =>
      rw [HookOp.exec] at executed
      split_ifs at executed with null
      cases executed
      exact ⟨null, other ⟨rfl, rfl, rfl⟩⟩
  | insertTail mp mpr =>
      rw [HookOp.exec] at executed
      split_ifs at executed with null
      cases executed
      exact ⟨trivial, other ⟨rfl, rfl, rfl⟩⟩
  | addStack mp mps =>
      rw [HookOp.exec] at executed
      split_ifs at executed with apart
      cases executed
      exact ⟨trivial, other ⟨rfl, rfl, rfl⟩⟩
  | getSpecific tid =>
      cases executed
      refine ⟨trivial, ?_⟩
      change Stamped (drawn ++ []) clock w (Function.update gs t { gs t with ready := _ })
      rw [List.append_nil]
      exact stamped.change (Or.inr rfl)
        (fun isReady => stamped.specific tid (of_decide_eq_true isReady))
  | setSpecific tid mp =>
      cases executed
      refine ⟨trivial, ?_⟩
      have made := stamped.ready t may.1
      change Stamped (drawn ++ []) clock _ (Function.update gs t (gs t))
      rw [Function.update_eq_self, List.append_nil]
      refine ⟨stamped.sorted, stamped.ordered, stamped.taken, stamped.started, stamped.ready,
        fun u isProfile => made, stamped.top⟩
  | mprofileCreate =>
      cases executed
      refine ⟨trivial, ?_⟩
      rcases stamped.create ticks.start ticks.past keeps with ⟨created, isReady⟩
      change Stamped (drawn ++ []) clock _ (Function.update gs t { gs t with ready := _ })
      rw [List.append_nil]
      exact created.change (Or.inr rfl) (fun ready => isReady (of_decide_eq_true ready))
  | clockGettime =>
      cases executed
      refine ⟨trivial, ?_⟩
      change Stamped (drawn ++ []) clock w
        (Function.update gs t { gs t with pending := some answer.now })
      rw [List.append_nil, ticks.now]
      exact stamped.take (ticks.now ▸ ticks.stamp) may.1
  | drawId mpr =>
      cases executed
      refine ⟨trivial, ?_⟩
      have drew := stamped.draw (w.prof.mprId + 1) may keeps
      exact drew.keep ⟨rfl, rfl, rfl⟩

/-- Operations other than the draw of an id and the making of a profile keep it. -/
theorem stamped_other {o : HookOp} (draws : forall mpr, o ≠ .drawId mpr)
    (makes : o ≠ .mprofileCreate)
    (stamped : Stamped drawn clock w gs) (ticks : Ticks clock answer) :
    stamping.OpSoundAt (fun w' gs' => Stamped drawn clock w' gs') answer t o w gs := by
  apply stamped_op stamped ticks
  · cases o with
    | drawId mpr => exact absurd rfl (draws mpr)
    | mprofileCreate => exact absurd rfl makes
    | _ => trivial
  · intro w' r _
    rw [drawn_of_other draws r, List.append_nil]

theorem stamped_discipline (traced : family ≠ .stats) (tid : Thread -> Nat)
    (drawn : List MprofileRecord)
    (clock : Timespec) :
    Pool.Discipline (M := hookMachine) (C := C) (Ticks clock) (fun t k => hook family (tid t) k)
      (fun _ => stamping) (fun _ g _ => stampEnds g) .idle (fun _ => Stamped drawn clock) where
  silentSound := fun k client answer t o ticks quiet w gs stamped =>
    stamped_other (fun mpr same => by rw [same] at quiet; cases quiet)
      (fun same => by rw [same] at quiet; cases quiet) stamped ticks
  bodySound := fun k client t w gs l stamped quiet again => by
    refine ⟨?_, quiet⟩
    change Stamped drawn clock (comparePeak l w).1 gs
    unfold comparePeak
    split_ifs
    · exact stamped.keep ⟨rfl, rfl, rfl⟩
    · exact stamped
  leaveSound := fun k client t w gs l stamped quiet again => by
    rw [show stamping.leave (gs t) = gs t from rfl, Function.update_eq_self]
    exact stamped
  start := fun k client client' w gs t started stamped idle => by
    refine ⟨.idle, ?_, stamping_hook traced (tid t) k⟩
    rw [← idle, Function.update_eq_self]
    exact stamped
  finish := fun k value client w gs t stamped ends =>
    stamped.change (Or.inl rfl) (fun impossible => by cases impossible)

/-! ## Runs -/

/-- The stamp with which a thread draws an id at its next step. -/
def waitingStamp (pool : Pool hookMachine C) (t : Thread) : Option Timespec :=
  match pool.headOf t with
  | some (.drawId mpr) => some mpr.mprTs
  | _ => none

/-- The thread makes a profile at its next step. -/
def makesProfile (pool : Pool hookMachine C) (t : Thread) : Bool :=
  match pool.headOf t with
  | some .mprofileCreate => true
  | _ => false

/-- An id is drawn with the earliest stamp of all threads that are about to draw
one, and the start of the axis is not read after a stamp that is earlier. -/
def InStampOrder (both : Pool hookMachine C × RecordHistory Thread) :
    PoolLabel Thread Call Answer -> Prop
  | .call _ _ _ => True
  | .step t answer =>
      (forall stamp, stamp ∈ waitingStamp both.1 t ->
        forall u, forall other, other ∈ waitingStamp both.1 u ->
        stamp.NotAfter other) ∧
      (makesProfile both.1 t = true -> both.1.shared.prof.startTimeTv.tvSec = 0 ->
        (forall entry, entry ∈ both.2.recorded -> answer.startTime.NotAfter entry.mpr.mprTs) ∧
          forall u, forall stamp, stamp ∈ waitingStamp both.1 u -> answer.startTime.NotAfter stamp)

instance [Fintype Thread] (both : Pool hookMachine C × RecordHistory Thread) :
    (l : PoolLabel Thread Call Answer) -> Decidable (InStampOrder both l)
  | .call _ _ _ => instDecidableTrue
  | .step _ _ => inferInstanceAs (Decidable (_ ∧ _))

/-- The clock readings of a run, in their order. -/
def readings (labels : List (PoolLabel Thread Call Answer)) : List Timespec :=
  labels.flatMap (fun l => [l.env.startTime, l.env.now])

/-- The clock never goes back. -/
structure ClockForward (labels : List (PoolLabel Thread Call Answer)) : Prop where
  ascends : (readings labels).Pairwise Timespec.NotAfter
  readable : forall reading, reading ∈ readings labels -> reading.Readable

/-- The invariant of the pool and of the history of its records. -/
def InOrderUpTo (clock : Timespec) (both : Pool hookMachine C × RecordHistory Thread) : Prop :=
  Exists fun gs => Pool.Holds (fun _ => stamping) (fun _ g _ => stampEnds g) Stamping.idle
    (fun _ => Stamped (both.2.recorded.map Recorded.mpr) clock) both.1 gs

omit [DecidableEq Thread] in
theorem inOrderUpTo_init (clock : Timespec) (client : C.State) :
    InOrderUpTo clock (⟨World.init, client, fun _ => none⟩, RecordHistory.empty Thread) := by
  refine ⟨fun _ => .idle, ?_, fun _ => rfl⟩
  exact {
    sorted := List.Pairwise.nil
    ordered := fun t stamp impossible => by cases impossible
    taken := by
      rintro stamp (⟨mpr, impossible, -⟩ | ⟨t, impossible⟩)
      · cases impossible
      · cases impossible
    started := by
      rintro (impossible | impossible)
      · exact absurd impossible (Nat.lt_irrefl 1)
      · exact absurd rfl impossible
    ready := fun t impossible => by cases impossible
    specific := fun u impossible => absurd rfl impossible
    top := Nat.one_pos }

omit [DecidableEq Thread] in
/-- A thread whose stamp is pending is about to draw an id with it. -/
theorem waitingStamp_of_pending {pool : Pool hookMachine C} {stamp : Timespec} {t : Thread}
    (ok : Pool.ThreadOk (fun _ => stamping) (fun _ g _ => stampEnds g) Stamping.idle (gs t)
      (pool.thread t))
    (pending : (gs t).pending = some stamp) : stamp ∈ waitingStamp pool t := by
  unfold waitingStamp Pool.headOf
  cases busy : pool.thread t with
  | none =>
      rw [busy] at ok
      rw [show gs t = Stamping.idle from ok] at pending
      cases pending
  | some entry =>
      rcases entry with ⟨k, program⟩
      rw [busy] at ok
      cases program with
      | ret value => exact absurd rfl (ok.2.2 value)
      | spin l next =>
          have quiet : (gs t).pending = none := ok.1.1
          rw [pending] at quiet
          cases quiet
      | op o next =>
          have may := ok.1.1
          cases o with
          | drawId mpr =>
              have own : (gs t).pending = some mpr.mprTs := may
              exact own.symm.trans pending
          | clockGettime =>
              have quiet : (gs t).pending = none := may.2
              rw [pending] at quiet
              cases quiet
          | setSpecific tid mp =>
              have quiet : (gs t).pending = none := may.2
              rw [pending] at quiet
              cases quiet
          | _ =>
              have quiet : (gs t).pending = none := may
              rw [pending] at quiet
              cases quiet

omit [DecidableEq Thread] in
/-- What the condition on a step means for the operation that it performs. -/
theorem keepsOrder_of_inStampOrder {both : Pool hookMachine C × RecordHistory Thread} {o : HookOp}
    (threads : forall u, Pool.ThreadOk (fun _ => stamping) (fun _ g _ => stampEnds g)
      Stamping.idle (gs u)
      (both.1.thread u))
    (here : both.1.headOf t = some o) (inOrder : InStampOrder both (.step t answer)) :
    KeepsOrder (both.2.recorded.map Recorded.mpr) gs answer both.1.shared o := by
  have waits : forall u stamp, (gs u).pending = some stamp -> stamp ∈ waitingStamp both.1 u :=
    fun u stamp pending => waitingStamp_of_pending (threads u) pending
  cases o with
  | drawId mpr =>
      have own : mpr.mprTs ∈ waitingStamp both.1 t := by
        rw [waitingStamp, here]
        exact rfl
      exact fun u stamp pending => inOrder.1 mpr.mprTs own u stamp (waits u stamp pending)
  | mprofileCreate =>
      have makes : makesProfile both.1 t = true := by rw [makesProfile, here]
      intro unset stamp taken
      rcases taken with ⟨mpr, member, rfl⟩ | ⟨u, pending⟩
      · rcases List.mem_map.mp member with ⟨entry, recorded, rfl⟩
        exact (inOrder.2 makes unset).1 entry recorded
      · exact (inOrder.2 makes unset).2 u stamp (waits u stamp pending)
  | _ => trivial

/-- One step that meets the condition, by a clock that has not gone back. -/
theorem InOrderUpTo.next (traced : family ≠ .stats)
    {both both' : Pool hookMachine C × RecordHistory Thread} {l : PoolLabel Thread Call Answer}
    (holds : InOrderUpTo clock both) (ticks : Ticks l.env.now l.env)
    (forward : clock.NotAfter l.env.now)
    (inOrder : InStampOrder both l) (stepped : recordingNext family tid both l = .ok both') :
    InOrderUpTo l.env.now both' := by
  rcases withHistory_ok stepped with ⟨moved, noted⟩
  rcases holds with ⟨gs, holds⟩
  have now : Pool.Holds (fun _ => stamping) (fun _ g _ => stampEnds g) Stamping.idle
      (fun _ => Stamped (both.2.recorded.map Recorded.mpr) l.env.now) both.1 gs :=
    ⟨holds.invariant.later forward, holds.threads⟩
  rw [InOrderUpTo, noted]
  by_cases draws : Exists fun t => Exists fun answer => Exists fun mpr =>
      l = .step t answer ∧ both.1.headOf t = some (.drawId mpr)
  · rcases draws with ⟨t, answer, mpr, rfl, here⟩
    rcases busy_of_headOf here with ⟨k, rest, busy⟩
    have recorded : (noteRecord both.2 both.1 (.step t answer) both'.1).recorded.map Recorded.mpr =
        both.2.recorded.map Recorded.mpr ++
            [{ mpr with mprId := both.1.shared.prof.mprId + 1 }] := by
      unfold noteRecord
      simp only [here, List.map_append, List.map_singleton]
    rw [recorded]
    apply Pool.next_op_sound (stamped_discipline traced tid _ _) now.threads ticks busy _ moved
    apply stamped_op now.invariant ticks (keepsOrder_of_inStampOrder now.threads here inOrder)
    intro w' r executed
    cases executed
    rfl
  · have other : forall t answer mpr, l = .step t answer -> both.1.headOf t ≠ some (.drawId mpr) :=
      fun t answer mpr same here => draws ⟨t, answer, mpr, same, here⟩
    rw [noteRecord_other other]
    apply Pool.next_sound (stamped_discipline traced tid _ _) now ticks _ moved
    cases l with
    | call t k answer => trivial
    | step t answer =>
        intro k program o busy here
        have atHead : both.1.headOf t = some o := by rw [Pool.headOf, busy]; exact here
        have noDraw : forall mpr, o ≠ .drawId mpr :=
          fun mpr same => other t answer mpr rfl (same ▸ atHead)
        apply stamped_op now.invariant ticks (keepsOrder_of_inStampOrder now.threads atHead inOrder)
        intro w' r _
        rw [drawn_of_other noDraw, List.append_nil]

/-- A whole run whose steps meet the condition. -/
theorem InOrderUpTo.exec (traced : family ≠ .stats) {labels : List (PoolLabel Thread Call Answer)} :
    forall {clock : Timespec} {both both' : Pool hookMachine C × RecordHistory Thread},
      InOrderUpTo clock both ->
      (forall reading, reading ∈ readings labels -> clock.NotAfter reading) ->
        ClockForward labels ->
      Meets (recordingNext family tid) InStampOrder both labels ->
      Foundation.exec (recordingNext family tid) both labels = .ok both' ->
        Exists fun clock' => InOrderUpTo clock' both' := by
  induction labels with
  | nil =>
      intro clock both both' holds _ _ _ executed
      cases executed
      exact ⟨clock, holds⟩
  | cons l rest inductionHypothesis =>
      intro clock both both' holds forward clocked meets executed
      rcases exec_cons_ok executed with ⟨middle, stepped, onward⟩
      have split : readings (l :: rest) = l.env.startTime :: l.env.now :: readings rest := rfl
      have ascends := clocked.ascends
      rw [split, List.pairwise_cons, List.pairwise_cons] at ascends
      rw [split] at forward
      have readable := clocked.readable
      rw [split] at readable
      have first : l.env.now ∈ l.env.startTime :: l.env.now :: readings rest :=
        List.mem_cons_of_mem _ List.mem_cons_self
      have ticks : Ticks l.env.now l.env := {
        start := readable _ List.mem_cons_self
        stamp := readable _ first
        past := ascends.1 _ List.mem_cons_self
        now := rfl }
      have held := holds.next traced ticks (forward _ first) meets.1 stepped
      apply inductionHypothesis held ascends.2.1 _ (meets.2 middle stepped) onward
      exact ⟨ascends.2.2, fun reading member => readable reading
        (List.mem_cons_of_mem _ (List.mem_cons_of_mem _ member))⟩

omit [DecidableEq Thread] in
/-- A log with the stamps of the records drawn is chronological. -/
theorem Stamped.chronological {log : List MprofileRecord} (stamped : Stamped drawn clock w gs)
    (same : log.map MprofileRecord.mprTs = drawn.map MprofileRecord.mprTs) :
    Chronological w.prof.startTimeTv log := by
  have found : forall mr, mr ∈ log -> Taken drawn gs mr.mprTs := by
    intro mr member
    have stamp := List.mem_map_of_mem (f := MprofileRecord.mprTs) member
    rw [same] at stamp
    exact Or.inl (List.mem_map.mp stamp)
  constructor
  · have sorted : (drawn.map MprofileRecord.mprTs).Pairwise Timespec.NotAfter :=
      List.pairwise_map.mpr stamped.sorted
    rw [← same] at sorted
    exact List.pairwise_map.mp sorted
  · exact fun mr member => (stamped.taken _ (found mr member)).1
  · intro mr member
    rcases stamped.taken _ (found mr member) with ⟨-, -, made, order⟩
    exact ⟨(stamped.started (Or.inl made)).1, order⟩

end Invariant

/-- In every run in which ids are drawn in the order of the stamps, the records
drawn so far are in that order; a log saved when no call is in progress is, and
its time axis ascends from 0, with and without sampling. -/
theorem timeAxis_follows_log {Thread : Type} [DecidableEq Thread] {C : Client Thread Call UInt64}
    {family : Family} (traced : family ≠ .stats) (tid : Thread -> Nat) (client : C.State)
    (labels : List (PoolLabel Thread Call Answer)) (clocked : ClockForward labels)
    (inOrder : Meets (recordingNext family tid) InStampOrder
      ((⟨World.init, client, fun _ => none⟩ : Pool hookMachine C), .empty Thread) labels)
    (both : Pool hookMachine C × RecordHistory Thread)
    (executed : exec (recordingNext family tid) (⟨World.init, client, fun _ => none⟩, .empty Thread)
      labels = .ok both) :
    both.2.recorded.Pairwise (fun earlier later => earlier.mpr.mprTs.NotAfter later.mpr.mprTs) ∧
      (both.1.Quiescent -> forall copyBlock linkChains doc,
        mprofileSave copyBlock linkChains both.1.shared.prof = .ok doc ->
          doc.allocations.Pairwise (fun earlier later =>
            earlier.mprId < later.mprId ∧ earlier.mprTs.NotAfter later.mprTs) ∧
          (SampledProfile.ofDocument doc).getTimeAxis.Pairwise
            (fun earlier later => earlier ≤ later) ∧
          forall samplesCount, 1 ≤ samplesCount -> Exists fun sampled =>
            (SampledProfile.ofDocument doc).takeSamples samplesCount = some sampled ∧
              sampled.getTimeAxis.Pairwise (fun earlier later => earlier ≤ later)) := by
  have first : forall reading, reading ∈ readings labels ->
      Timespec.NotAfter ⟨-2 ^ 53, 0⟩ reading := by
    intro reading member
    have bound := (clocked.readable reading member).1
    rcases Int.lt_or_eq_of_le bound with less | same
    · exact Or.inl less
    · exact Or.inr ⟨same, Nat.zero_le _⟩
  rcases InOrderUpTo.exec traced (inOrderUpTo_init ⟨-2 ^ 53, 0⟩ client) first clocked inOrder
      executed with
    ⟨clock, gs, holds⟩
  have stamped : Stamped _ clock both.1.shared gs := holds.invariant
  have sorted := stamped.sorted
  rw [List.pairwise_map] at sorted
  refine ⟨sorted, fun quiescent copyBlock linkChains doc saved => ?_⟩
  rcases (recording_exec traced executed).saved quiescent saved with ⟨recorded, dense⟩
  have stamps : doc.allocations.map MprofileRecord.mprTs =
      (both.2.recorded.map Recorded.mpr).map MprofileRecord.mprTs := by
    rw [← recorded, List.map_map]
    rfl
  have chronological := stamped.chronological stamps
  have ids : doc.allocations.Pairwise (fun earlier later => earlier.mprId < later.mprId) := by
    apply List.pairwise_map.mp
    rw [dense]
    exact List.pairwise_lt_range'
  refine ⟨ids.and chronological.sorted, SampledProfile.timeAxes_sorted ?_⟩
  rw [mprofileSave_startTime saved]
  exact chronological

/-! ## Two threads -/

/-- The clock shows this time during the step. -/
def atTime (time : Timespec) : PoolLabel (Fin 2) Call Answer -> PoolLabel (Fin 2) Call Answer
  | .call t k answer => .call t k { answer with startTime := time, now := time }
  | .step t answer => .step t { answer with startTime := time, now := time }

/-- One second for each step. -/
def ticking (labels : List (PoolLabel (Fin 2) Call Answer)) :
    List (PoolLabel (Fin 2) Call Answer) :=
  labels.zipIdx.map (fun (l, i) => atTime ⟨i + 1, 0⟩ l)

/-- Both threads hold a stamp, and the first one draws its id first. -/
def straightRun : List (PoolLabel (Fin 2) Call Answer) :=
  ticking (callOf threadA (.malloc 8) [0, 0, 4096] ++ callOf threadB (.malloc 24) [0, 0, 8192] ++
    [.step threadA (answering 0), .step threadB (answering 0)])

theorem timeAxis_follows_log_straightRun : Exists fun both => Exists fun doc =>
    exec (recordingNext .trace Fin.val) (HookPool.init (Fin 2) false, .empty (Fin 2)) straightRun =
        .ok both ∧
      mprofileSave (fun _ => none) true both.1.shared.prof = .ok doc ∧
      doc.allocations.map MprofileRecord.mprTs = [⟨4, 0⟩, ⟨8, 0⟩] ∧
      (SampledProfile.ofDocument doc).getTimeAxis.Pairwise
        (fun earlier later => earlier ≤ later) := by
  have reached : Exists fun both =>
      exec (recordingNext .trace Fin.val) (HookPool.init (Fin 2) false, .empty (Fin 2))
          straightRun = .ok both ∧
        (forall t, both.1.thread t = none) ∧
        (mprofileSave (fun _ => none) true both.1.shared.prof).toOption.map
          (fun doc => doc.allocations.map MprofileRecord.mprTs) = some [⟨4, 0⟩, ⟨8, 0⟩] :=
    reaches_of_check (by decide +kernel)
  rcases reached with ⟨both, executed, quiescent, document⟩
  have clocked : ClockForward straightRun := ⟨by decide +kernel, by decide +kernel⟩
  have inOrder : Meets (recordingNext .trace Fin.val) InStampOrder
      (HookPool.init (Fin 2) false, .empty (Fin 2)) straightRun :=
        meets_of_check (by decide +kernel)
  cases saved : mprofileSave (fun _ => none) true both.1.shared.prof with
  | error fault => rw [saved] at document; cases document
  | ok doc =>
      rw [saved] at document
      have follows := timeAxis_follows_log (C := application (Fin 2) false) (by decide) Fin.val
        Holdings.none straightRun clocked inOrder both executed
      exact ⟨both, doc, executed, saved, Option.some.inj document,
        (follows.2 quiescent (fun _ => none) true doc saved).2.1⟩

/-- The second thread draws its id while the first one holds an earlier stamp. -/
def overtakingRun : List (PoolLabel (Fin 2) Call Answer) :=
  ticking (callOf threadA (.malloc 8) [0, 0, 4096] ++ callOf threadB (.malloc 24) [0, 0, 8192, 0] ++
    [.step threadA (answering 0)])

/-- The saved log then has the later stamp first. -/
theorem timeAxis_not_sorted : ¬ forall (labels : List (PoolLabel (Fin 2) Call Answer))
    (both : Pool hookMachine (application (Fin 2) false) × RecordHistory (Fin 2)) (doc : Document),
    ClockForward labels ->
    exec (recordingNext .trace Fin.val) (HookPool.init (Fin 2) false, .empty (Fin 2)) labels =
      .ok both ->
    both.1.Quiescent -> mprofileSave (fun _ => none) true both.1.shared.prof = .ok doc ->
      doc.allocations.Pairwise (fun earlier later => earlier.mprTs.NotAfter later.mprTs) := by
  intro always
  have reached : Exists fun both =>
      exec (recordingNext .trace Fin.val) (HookPool.init (Fin 2) false, .empty (Fin 2))
          overtakingRun = .ok both ∧
        (forall t, both.1.thread t = none) ∧
        (mprofileSave (fun _ => none) true both.1.shared.prof).toOption.map
          (fun doc => doc.allocations.map MprofileRecord.mprTs) = some [⟨8, 0⟩, ⟨4, 0⟩] :=
    reaches_of_check (by decide +kernel)
  rcases reached with ⟨both, executed, quiescent, document⟩
  have clocked : ClockForward overtakingRun := ⟨by decide +kernel, by decide +kernel⟩
  cases saved : mprofileSave (fun _ => none) true both.1.shared.prof with
  | error fault => rw [saved] at document; cases document
  | ok doc =>
      rw [saved] at document
      have stamps : doc.allocations.map MprofileRecord.mprTs = [⟨8, 0⟩, ⟨4, 0⟩] :=
        Option.some.inj document
      have sorted : (doc.allocations.map MprofileRecord.mprTs).Pairwise Timespec.NotAfter :=
        List.pairwise_map.mpr (always overtakingRun both doc clocked executed quiescent saved)
      rw [stamps] at sorted
      exact absurd sorted (by decide)

end Mprofile
end OsslScripts
