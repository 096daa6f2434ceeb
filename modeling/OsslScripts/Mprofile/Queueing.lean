import OsslScripts.Mprofile.LiveLog

namespace OsslScripts
namespace Mprofile

open Foundation

/-!
# What a tracing hook does to the queues

`queueing` is the part of the discipline that concerns the queues alone: a call
registers the profile it has made, draws the id of one record at a time, and
appends that record to its own profile before it does anything that another
thread can see.  It asks nothing of libc, and a record that the profiler gets no
memory for is simply not drawn.

Every operation of a call that keeps to it keeps `ProfileList` and `Queues`, and
the stricter discipline of `Logging` is an instance.
-/

/-- The record that an operation draws, with its id. -/
def HookOp.drawn : (o : HookOp) -> o.Res -> List MprofileRecord
  | .drawId mpr, mprId => [{ mpr with mprId := mprId }]
  | _, _ => []

/-- What a call may do to the queues and to the list of profiles. -/
def queueing : Protocol hookMachine Filing where
  may := fun g o =>
    match o with
    | .libcMalloc _ => g.due = none
    | .libcFree _ => g.due = none
    | .libcRealloc _ _ => g.due = none
    | .addFetch _ _ => g.due = none
    | .subFetch _ _ => g.due = none
    | .loadMax => g.due = none
    | .setSpecific _ mp => mp = g.profile ∧ mp ≠ 0
    | .mprofileCreate => g.due = none ∧ g.created = 0
    | .mprofileAdd mp => g.due = none ∧ g.created = mp
    | .drawId mpr => g.due = none ∧ mpr.Blank
    | .insertTail mp mpr => g.due = some mpr ∧ mp = g.profile
    | _ => True
  fits := fun _ o _ =>
    match o with
    | .mprofileAdd mp => mp ≠ 0
    | _ => True
  after := fun g o r =>
    match o, r with
    | .getSpecific _, mp => { g with profile := mp }
    | .mprofileCreate, mp => { g with created := mp }
    | .mprofileAdd mp, _ => { g with created := 0, profile := mp }
    | .drawId mpr, mprId => { g with due := some { mpr with mprId := mprId } }
    | .insertTail _ _, _ => { g with due := none }
    | _, _ => g
  loops := fun g _ => g.due = none
  leave := fun g => g

/-- Two filings that mean the same to the queues. -/
structure Filing.SameQueue (g g' : Filing) : Prop where
  due : g.due = g'.due
  created : g.created = g'.created
  profile : g.profile = g'.profile

theorem Filing.SameQueue.refl (g : Filing) : g.SameQueue g := ⟨rfl, rfl, rfl⟩

/-! ## The operations -/

section Operations

variable {Thread : Type} [DecidableEq Thread] {w w' : World} {drawn : List MprofileRecord}
  {t : Thread}
  {answer : Answer} {o : HookOp} {r : o.Res}

/-- Operations on blocks have nothing to do with profiles. -/
theorem prof_of_blocks (executed : o.exec answer w = .ok (w', r)) (blocks : ¬ Blockless o) :
    w'.prof = w.prof := by
  cases o with
  | libcMalloc size =>
      rw [HookOp.exec] at executed
      cases answered : Libc.malloc w.heap size answer with
      | error fault => rw [answered] at executed; cases executed
      | ok result => rw [answered] at executed; cases executed; rfl
  | libcFree p =>
      rw [HookOp.exec] at executed
      cases answered : Libc.free w.heap p with
      | error fault => rw [answered] at executed; cases executed
      | ok result => rw [answered] at executed; cases executed; rfl
  | libcRealloc p size =>
      rw [HookOp.exec] at executed
      cases answered : Libc.realloc w.heap p size answer with
      | error fault => rw [answered] at executed; cases executed
      | ok result => rw [answered] at executed; cases executed; rfl
  | loadMemhdr p =>
      rw [HookOp.exec] at executed
      cases found : memhdrAt w.heap p with
      | none => rw [found] at executed; cases executed
      | some hdr => rw [found] at executed; cases executed; rfl
  | storeMemhdr p hdr =>
      rw [HookOp.exec] at executed
      split at executed
      · cases executed; rfl
      · cases executed
  | abort => cases executed
  | _ => exact absurd trivial blocks

/-- Every operation keeps the lists and the queues. -/
theorem queues_op (gs : Thread -> Filing) {g : Filing} (may : queueing.may (gs t) o)
    (same : g.SameQueue (queueing.after (gs t) o r)) (executed : o.exec answer w = .ok (w', r))
    (list : ProfileList w.prof gs) (queues : Queues w.prof gs drawn) :
    ProfileList w'.prof (Function.update gs t g) ∧
      Queues w'.prof (Function.update gs t g) (drawn ++ o.drawn r) := by
  -- what is left of an operation that changes no list and no queue
  have quiet : w'.prof = w.prof -> g.SameQueue (gs t) ->
      ProfileList w'.prof (Function.update gs t g) ∧
        Queues w'.prof (Function.update gs t g) (drawn ++ []) := by
    intro unchanged alike
    rw [unchanged, List.append_nil]
    exact ⟨list.keep t g rfl rfl (fun mp _ empty => empty) alike.created
      (by rw [alike.profile]; exact list.found t) list.specific,
      queues.congr rfl rfl alike.due⟩
  have stays : g.profile = (gs t).profile -> g.profile ≠ 0 -> g.profile ∈ w.prof.profiles := by
    intro alike
    rw [alike]
    exact list.found t
  cases o with
  | libcMalloc size => exact quiet (prof_of_blocks executed id) same
  | libcRealloc p size => exact quiet (prof_of_blocks executed id) same
  | libcFree p => exact quiet (prof_of_blocks executed id) same
  | loadMemhdr p => exact quiet (prof_of_blocks executed id) same
  | storeMemhdr p hdr => exact quiet (prof_of_blocks executed id) same
  | abort => cases executed
  | addFetch c delta => cases executed; exact quiet rfl same
  | subFetch c delta => cases executed; exact quiet rfl same
  | loadMax => cases executed; exact quiet rfl same
  | getSpecific tid =>
      cases executed
      refine ⟨list.keep t g rfl rfl (fun mp _ empty => empty) same.created ?_ list.specific, ?_⟩
      · rw [same.profile]
        exact list.specific tid
      · change Queues w.prof _ (drawn ++ [])
        rw [List.append_nil]
        exact queues.congr rfl rfl same.due
  | setSpecific tid mp =>
      cases executed
      rcases may with ⟨mine, isProfile⟩
      have listed : mp ∈ w.prof.profiles := by
        rw [mine] at isProfile ⊢
        exact list.found t isProfile
      refine ⟨list.keep t g rfl rfl (fun mp _ empty => empty) same.created (stays same.profile)
        (fun u isU => ?_), ?_⟩
      · by_cases here : u = tid
        · subst here
          simp only [Function.update_self]
          exact listed
        · simp only [Function.update_of_ne here] at isU ⊢
          exact list.specific u isU
      · change Queues _ _ (drawn ++ [])
        rw [List.append_nil]
        exact queues.congr rfl rfl same.due
  | mprofileCreate =>
      cases executed
      have made := list.create t g answer same.created same.profile
      refine ⟨made.1, ?_⟩
      change Queues _ _ (drawn ++ [])
      rw [List.append_nil]
      exact queues.congr (mprofileCreate_cases w.prof answer).1.2.2 (by rw [made.2]) same.due
  | mprofileAdd mp =>
      rw [HookOp.exec] at executed
      by_cases null : mp = 0
      · rw [if_pos null] at executed
        cases executed
      · rw [if_neg null] at executed
        cases executed
        have added := list.add t g null may.2 same.created same.profile
        refine ⟨added.1, ?_⟩
        change Queues _ _ (drawn ++ [])
        rw [List.append_nil]
        exact queues.congr rfl (by rw [added.2]) same.due
  | drawId mpr =>
      cases executed
      refine ⟨list.keep t g rfl rfl (fun mp _ empty => empty) same.created (stays same.profile)
        list.specific, ?_⟩
      exact queues.draw may.1 may.2 rfl same.due
  | insertTail mp mpr =>
      rw [HookOp.exec] at executed
      by_cases null : mp = 0
      · rw [if_pos null] at executed
        cases executed
      · rw [if_neg null] at executed
        cases executed
        have listed : mp ∈ w.prof.profiles := by
          rw [may.2] at null ⊢
          exact list.found t null
        refine ⟨list.keep t g rfl rfl (fun q outside empty => ?_) same.created (stays same.profile)
          list.specific, ?_⟩
        · have different : q ≠ mp := fun equal => outside (equal ▸ listed)
          change ((Function.update w.prof.mprofile mp _) q).mpTqhead = []
          rw [Function.update_of_ne different]
          exact empty
        · change Queues _ _ (drawn ++ [])
          rw [List.append_nil]
          exact queues.insertTail may.1 listed list.nodup same.due
  | setStackId mp mprId stackId =>
      cases executed
      refine ⟨list.keep t g rfl rfl (fun q outside empty => ?_) same.created (stays same.profile)
        list.specific, ?_⟩
      · change ((Function.update w.prof.mprofile mp _) q).mpTqhead = []
        by_cases here : q = mp
        · subst here
          rw [Function.update_self, empty, List.map_nil]
        · rw [Function.update_of_ne here]
          exact empty
      · change Queues _ _ (drawn ++ [])
        rw [List.append_nil]
        exact queues.congr rfl (records_setStackId mp mprId stackId) same.due
  | addStack mp mps =>
      rw [HookOp.exec] at executed
      by_cases apart : w.prof.stackHeap.freshBlock answer.copyBlock
      · rw [if_pos apart] at executed
        cases executed
        refine ⟨list.keep t g rfl rfl (fun mp _ empty => empty) same.created (stays same.profile)
          list.specific, ?_⟩
        change Queues _ _ (drawn ++ [])
        rw [List.append_nil]
        exact queues.congr rfl rfl same.due
      · rw [if_neg apart] at executed
        cases executed
  | allocRecord => cases executed; exact quiet rfl same
  | clockGettime => cases executed; exact quiet rfl same
  | stackBuf => cases executed; exact quiet rfl same
  | backtrace => cases executed; exact quiet rfl same

end Operations

/-! ## The hooks keep to the discipline -/

/-- Operations that have no part in it. -/
def Unqueued : HookOp -> Prop
  | .getSpecific _ => False
  | .setSpecific _ _ => False
  | .mprofileCreate => False
  | .mprofileAdd _ => False
  | .drawId _ => False
  | .insertTail _ _ => False
  | _ => True

section Text

variable {α β : Type} {ends : Filing -> α -> Prop} {g : Filing}

/-- The program leaves the filing of the thread as it is. -/
abbrev KeepsFiling (g : Filing) (program : HookM α) : Prop :=
  queueing.Follows (fun after _ => after = g) program g

/-- Go on from the same filing. -/
theorem KeepsFiling.follows {program : HookM β} {rest : β -> HookM α}
    (first : KeepsFiling g program)
    (onward : forall value, queueing.Follows ends (rest value) g) :
    queueing.Follows ends (program >>= rest) g :=
  Protocol.Follows.bind first (fun _ value same => by rw [same]; exact onward value)

theorem keepsFiling_unqueued (quiet : g.due = none) {program : HookM α}
    (uses : Protocol.Uses (M := hookMachine) Unqueued program) : KeepsFiling g program := by
  refine Protocol.Follows.of_neutral g (fun o kind => ?_) (fun o r kind => ?_) (fun _ => quiet)
    rfl uses
  · cases o <;> first | exact quiet | trivial
  · cases o <;> first | rfl | exact kind.elim

theorem keepsFiling_appendRecord {mp : Nat} {mpr : MprofileRecord} (mps : Option MprofileStack)
    (quiet : g.due = none) (mine : mp = g.profile) (blank : mpr.Blank) :
    KeepsFiling g (appendRecord mp mpr mps) := by
  refine follows_perform ⟨quiet, blank⟩ (fun mprId _ => ?_)
  refine follows_perform ⟨rfl, mine⟩ (fun _ _ => ?_)
  have back : ({ g with due := none } : Filing) = g := by rw [← quiet]
  change queueing.Follows _ _ { g with due := none }
  rw [back]
  apply keepsFiling_unqueued quiet
  cases mps with
  | none => trivial
  | some mps => exact ⟨trivial, fun _ => ⟨trivial, fun _ => trivial⟩⟩

/-- A record is drawn if the profiler gets the memory for it. -/
theorem keepsFiling_record {fill : MprofileRecord -> HookM Unit}
    (filled : forall now, KeepsFiling g (fill { (default : MprofileRecord) with mprTs := now })) :
    KeepsFiling g
      (createMprofileRecord >>= fun created => match created with
        | none => pure ()
        | some mpr => fill mpr) := by
  apply follows_perform trivial
  intro ok _
  cases ok with
  | false => exact rfl
  | true => exact follows_perform trivial (fun now _ => filled now)

theorem keepsFiling_mprofileRecordAlloc (quiet : g.due = none) (buf bufSz : UInt64)
    (mps : Option MprofileStack) : KeepsFiling g (mprofileRecordAlloc g.profile buf bufSz mps) :=
  keepsFiling_record (fun _ => keepsFiling_appendRecord mps quiet rfl ⟨rfl, rfl, rfl⟩)

theorem keepsFiling_mprofileRecordFree (quiet : g.due = none) (buf sz : UInt64)
    (mps : Option MprofileStack) : KeepsFiling g (mprofileRecordFree g.profile buf sz mps) :=
  keepsFiling_record (fun _ => keepsFiling_appendRecord mps quiet rfl ⟨rfl, rfl, rfl⟩)

theorem keepsFiling_mprofileRecordRealloc (quiet : g.due = none) (buf bufSz origSz oldBuf : UInt64)
    (mps : Option MprofileStack) :
    KeepsFiling g (mprofileRecordRealloc g.profile buf bufSz origSz oldBuf mps) :=
  keepsFiling_record (fun _ => keepsFiling_appendRecord mps quiet rfl ⟨rfl, rfl, rfl⟩)

/-- The filing of a thread whose profile is known. -/
abbrev Filing.at (mp : Nat) : Filing := .during mp none none

/-- The thread finds its profile, or makes one and puts it into the list. -/
theorem queueing_getMprofile {tid : Nat} {rest : Nat -> HookM α}
    (onward : forall mp, queueing.Follows ends (rest mp) (.at mp)) :
    queueing.Follows ends (getMprofile tid >>= rest) .idle := by
  apply follows_perform trivial
  intro mp _
  change queueing.Follows ends (Prog.bind (if mp = 0 then _ else _) rest) (.at mp)
  by_cases null : mp = 0
  · rw [if_pos null]
    refine follows_perform ⟨rfl, rfl⟩ (fun created _ => ?_)
    refine follows_perform ⟨rfl, rfl⟩ (fun _ added => ?_)
    exact follows_perform ⟨rfl, added⟩ (fun _ _ => onward created)
  · rw [if_neg null]
    exact onward mp

theorem unqueued_checkMemhdr (b : UInt64) :
    Protocol.Uses (M := hookMachine) Unqueued (checkMemhdr b) := by
  refine ⟨trivial, fun hdr => ?_⟩
  change Protocol.Uses (M := hookMachine) Unqueued (if mkChk _ _ ≠ _ then _ else _)
  split_ifs
  · exact ⟨trivial, fun impossible => Empty.elim impossible⟩
  · trivial

theorem unqueued_mallocHeaded (sz : UInt64) :
    Protocol.Uses (M := hookMachine) Unqueued (mallocHeaded sz) := by
  refine ⟨trivial, fun mh => ?_⟩
  change Protocol.Uses (M := hookMachine) Unqueued (if mh ≠ 0 then _ else _)
  split_ifs
  · exact ⟨trivial, fun _ => trivial⟩
  · trivial

/-- The last step of the tracing `malloc` hooks. -/
theorem keepsFiling_recordMalloc (mp : Nat) (rv sz : UInt64) (mps : Option MprofileStack) :
    KeepsFiling (.at mp)
      (do if mp ≠ 0 then mprofileRecordAlloc mp rv sz mps
          return rv) := by
  by_cases null : mp = 0
  · rw [if_neg (not_not.mpr null)]
    exact rfl
  · rw [if_pos null]
    exact (keepsFiling_mprofileRecordAlloc (g := .at mp) rfl rv sz mps).follows (fun _ => rfl)

theorem keepsFiling_freeTraced (mp : Nat) (b sz p : UInt64) (mps : Option MprofileStack) :
    KeepsFiling (.at mp)
      (do if mp ≠ 0 then mprofileRecordFree mp b sz mps
          perform (.libcFree p)) := by
  have released : KeepsFiling (.at mp) (perform (.libcFree p)) := ⟨rfl, fun _ _ => rfl⟩
  by_cases null : mp = 0
  · rw [if_neg (not_not.mpr null)]
    exact released
  · rw [if_pos null]
    exact (keepsFiling_mprofileRecordFree (g := .at mp) rfl b sz mps).follows (fun _ => released)

/-- The common end of the tracing `free` hooks. -/
theorem keepsFiling_freeTail (mp : Nat) (b : UInt64) (mps : Option MprofileStack) :
    KeepsFiling (.at mp)
      (do if b ≠ 0 then
            let hdr ← checkMemhdr b
            if mp ≠ 0 then mprofileRecordFree mp b hdr.mhSize mps
            perform (.libcFree (b - sizeofMemhdr))
          else
            if mp ≠ 0 then mprofileRecordFree mp b 0 mps
            perform (.libcFree 0)) := by
  by_cases null : b = 0
  · rw [if_neg (not_not.mpr null)]
    exact keepsFiling_freeTraced mp b 0 0 mps
  · rw [if_pos null]
    exact (keepsFiling_unqueued rfl (unqueued_checkMemhdr b)).follows
      (fun hdr => keepsFiling_freeTraced mp b hdr.mhSize _ mps)

/-- The tracing `realloc` hooks from the answer of libc on. -/
theorem keepsFiling_reallocTraceTail {collect : HookM (Option MprofileStack)} (mp : Nat)
    (b sz : UInt64)
    (saveMh : Memhdr) (mh : UInt64) (collects : KeepsFiling (.at mp) collect) :
    KeepsFiling (.at mp) (reallocTraceTail collect mp b sz saveMh mh) := by
  unfold reallocTraceTail
  by_cases failed : mh = 0
  · rw [if_pos failed]
    exact rfl
  · rw [if_neg failed]
    by_cases zeroSize : sz = 0
    · rw [if_pos zeroSize]
      exact rfl
    · rw [if_neg zeroSize]
      apply collects.follows
      intro mps
      by_cases null : mp = 0
      · rw [if_neg (not_not.mpr null)]
        exact rfl
      · rw [if_pos null]
        apply follows_perform trivial
        intro _ _
        by_cases fresh : b = 0
        · rw [if_pos fresh]
          exact (keepsFiling_mprofileRecordAlloc (g := .at mp) rfl _ sz mps).follows (fun _ => rfl)
        · rw [if_neg fresh]
          exact (keepsFiling_mprofileRecordRealloc (g := .at mp) rfl _ sz _ b mps).follows
            (fun _ => rfl)

/-- The request of the tracing `realloc` hooks, and what follows it. -/
theorem keepsFiling_reallocRequest {collect : HookM (Option MprofileStack)} (mp : Nat)
    (b sz p : UInt64)
    (saveMh : Memhdr) (hdrSz : UInt64) (mps : Option MprofileStack)
    (collects : KeepsFiling (.at mp) collect) :
    KeepsFiling (.at mp)
      (do if sz = 0 then mprofileRecordFree mp b hdrSz mps
          let mh ← perform (.libcRealloc p (reallocSize sz))
          reallocTraceTail collect mp b sz saveMh mh) := by
  have request : KeepsFiling (.at mp)
      (do let mh ← perform (.libcRealloc p (reallocSize sz))
          reallocTraceTail collect mp b sz saveMh mh) :=
    follows_perform rfl (fun mh _ => keepsFiling_reallocTraceTail mp b sz saveMh mh collects)
  by_cases zeroSize : sz = 0
  · rw [if_pos zeroSize]
    exact (keepsFiling_mprofileRecordFree (g := .at mp) rfl b hdrSz mps).follows (fun _ => request)
  · rw [if_neg zeroSize]
    exact request

theorem keepsFiling_reallocTraced {collect : HookM (Option MprofileStack)} (mp : Nat)
    (mps : Option MprofileStack) (b sz : UInt64) (collects : KeepsFiling (.at mp) collect) :
    KeepsFiling (.at mp) (reallocTraced mp mps collect b sz) := by
  unfold reallocTraced
  by_cases null : b = 0
  · rw [if_neg (not_not.mpr null)]
    exact keepsFiling_reallocRequest mp b sz _ _ _ mps collects
  · rw [if_pos null]
    exact (keepsFiling_unqueued rfl (unqueued_checkMemhdr b)).follows
      (fun hdr => keepsFiling_reallocRequest mp b sz _ hdr _ mps collects)

theorem keepsFiling_initStackBuf (mp : Nat) : KeepsFiling (.at mp) initStackBuf :=
  follows_perform trivial (fun _ _ => rfl)

theorem keepsFiling_collectBacktrace (mp : Nat) (mps : Option MprofileStack) :
    KeepsFiling (.at mp) (collectBacktrace mps) :=
  follows_perform trivial (fun _ _ => rfl)

/-- How a call ends: its record is in the queue, and its profile in the list. -/
def queueEnds (g : Filing) : Prop := g.due = none ∧ g.created = 0

theorem KeepsFiling.finishes {mp : Nat} {program : HookM α} (keeps : KeepsFiling (.at mp) program) :
    queueing.Follows (fun g _ => queueEnds g) program (.at mp) :=
  keeps.weaken (fun g _ same => by rw [same]; exact ⟨rfl, rfl⟩)

/-- Every tracing hook keeps to the discipline. -/
theorem queueing_hook {family : Family} (traced : family ≠ .stats) (tid : Nat) (k : Call) :
    queueing.Follows (fun g _ => queueEnds g) (hook family tid k) .idle := by
  cases k with
  | malloc sz =>
      cases family with
      | stats => exact absurd rfl traced
      | trace =>
          apply queueing_getMprofile
          intro mp
          apply (keepsFiling_unqueued rfl (unqueued_mallocHeaded sz)).follows
          exact fun rv => (keepsFiling_recordMalloc mp rv sz none).finishes
      | traceWithStack =>
          apply queueing_getMprofile
          intro mp
          apply (keepsFiling_initStackBuf mp).follows
          intro mps
          apply (keepsFiling_unqueued rfl (unqueued_mallocHeaded sz)).follows
          intro rv
          apply (keepsFiling_collectBacktrace mp mps).follows
          exact fun mps => (keepsFiling_recordMalloc mp rv sz mps).finishes
  | free b =>
      have returns : forall g (value : Unit), queueEnds g ->
          queueing.Follows (fun g _ => queueEnds g) (pure 0 : HookM UInt64) g :=
            fun _ _ ended => ended
      cases family with
      | stats => exact absurd rfl traced
      | trace =>
          refine Protocol.Follows.bind (queueing_getMprofile (fun mp => ?_)) returns
          exact (keepsFiling_freeTail mp b none).finishes
      | traceWithStack =>
          refine Protocol.Follows.bind (queueing_getMprofile (fun mp => ?_)) returns
          apply (keepsFiling_initStackBuf mp).follows
          intro mps
          apply (keepsFiling_collectBacktrace mp mps).follows
          exact fun mps => (keepsFiling_freeTail mp b mps).finishes
  | realloc b sz =>
      cases family with
      | stats => exact absurd rfl traced
      | trace =>
          apply queueing_getMprofile
          intro mp
          have collects : KeepsFiling (.at mp) (pure none : HookM (Option MprofileStack)) := rfl
          exact (keepsFiling_reallocTraced mp none b sz collects).finishes
      | traceWithStack =>
          apply queueing_getMprofile
          intro mp
          apply (keepsFiling_initStackBuf mp).follows
          intro mps
          exact (keepsFiling_reallocTraced mp mps b sz
            (keepsFiling_collectBacktrace mp mps)).finishes

end Text

end Mprofile
end OsslScripts
