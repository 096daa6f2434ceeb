import OsslScripts.Mprofile.Ownership

namespace OsslScripts
namespace Mprofile

open Foundation

/-!
# What a tracing hook logs

`logging` is the discipline of a tracing hook towards the log.  A thread may be
responsible for one pointer that is live in the log, the one its call was given
or returns, and for one that libc has handed out and that no record mentions
yet.  Drawing the id of a record trades the first for the second, so a record
consumes what is live for its call and produces what is fresh for it.

The discipline says nothing about other threads.  Whether a fresh pointer is
still live in the log on behalf of another call is a matter of the schedule
(`MergedLog`).
-/

/-- Where a call stands with the log. -/
structure Filing where
  /-- The pointer that is live in the log on behalf of the call. -/
  live : Option UInt64
  /-- The pointer from libc that the next record produces. -/
  fresh : Option UInt64
  /-- The record that has its id and is in no queue yet. -/
  due : Option MprofileRecord
  /-- The profile that is not in the list yet, or 0. -/
  created : Nat
  /-- The profile of the thread once it is known, or 0. -/
  profile : Nat

namespace Filing

/-- Between two records. -/
def during (profile : Nat) (live fresh : Option UInt64) : Filing := ⟨live, fresh, none, 0, profile⟩

def idle : Filing := during 0 none none

end Filing

/-- The log after an answer of libc to this call. -/
def Filing.obtain (g : Filing) (k : Call) (p : UInt64) : Filing :=
  match k with
  | .realloc _ sz => if sz = 0 then g else { g with fresh := some (p + sizeofMemhdr) }
  | _ => { g with fresh := some (p + sizeofMemhdr) }

/-- The pointer that is live when the call asks libc for a block: the one it is to resize. -/
def Call.resized : Call -> Option UInt64
  | .realloc b sz => if sz = 0 ∨ b = 0 then none else some b
  | _ => none

/-- The answer of an allocation function which does not fail. -/
def Call.served (k : Call) (p : UInt64) : Prop :=
  match k with
  | .realloc _ sz => sz ≠ 0 -> p ≠ 0
  | _ => p ≠ 0

/-- A new record: nothing of it is known but what the recording functions set. -/
def MprofileRecord.Blank (mpr : MprofileRecord) : Prop :=
  mpr.mprPrevId = 0 ∧ mpr.mprNextId = 0 ∧ mpr.mprStackId = 0

/-- What a call may do to the log and to the profiles. -/
def logging (k : Call) : Protocol hookMachine Filing where
  may := fun g o =>
    match o with
    | .libcMalloc _ => g.due = none ∧ g.live = none ∧ g.fresh = none
    | .libcFree _ => g.due = none ∧ g.live = none ∧ g.fresh = none
    | .libcRealloc _ _ => g.due = none ∧ g.live = k.resized ∧ g.fresh = none
    | .addFetch _ _ => False
    | .subFetch _ _ => False
    | .loadMax => False
    | .setSpecific _ mp => mp = g.profile ∧ mp ≠ 0
    | .mprofileCreate => g.due = none ∧ g.fresh = none ∧ g.created = 0
    | .mprofileAdd mp => g.due = none ∧ g.fresh = none ∧ g.created = mp
    | .drawId mpr => g.due = none ∧ mpr.consumes = g.live ∧ mpr.produces = g.fresh ∧ mpr.Blank
    | .insertTail mp mpr => g.due = some mpr ∧ mp = g.profile
    | _ => True
  fits := fun _ o r =>
    match o, r with
    | .libcMalloc _, p => k.served p
    | .libcRealloc _ _, p => k.served p
    | .allocRecord, ok => ok = true
    | .mprofileAdd mp, _ => mp ≠ 0
    | _, _ => True
  after := fun g o r =>
    match o, r with
    | .libcMalloc _, p => g.obtain k p
    | .libcRealloc _ _, p => g.obtain k p
    | .getSpecific _, mp => { g with profile := mp }
    | .mprofileCreate, mp => { g with created := mp }
    | .mprofileAdd mp, _ => { g with created := 0, profile := mp }
    | .drawId mpr, mprId =>
        { g with live := mpr.produces, fresh := none, due := some { mpr with mprId := mprId } }
    | .insertTail _ _, _ => { g with due := none }
    | _, _ => g
  loops := fun _ _ => False
  leave := fun g => g

/-- How a call starts: a pointer that is handed to it stays live in the log. -/
def filingStarts (k : Call) (g : Filing) : Prop :=
  match k with
  | .malloc _ => g = .idle
  | .free b => g = .during 0 (if b = 0 then none else some b) none
  | .realloc b _ => g = .during 0 (if b = 0 then none else some b) none

/-- How a call ends: a pointer that it returns is live in the log. -/
def filingEnds (k : Call) (g : Filing) (rv : UInt64) : Prop :=
  g.due = none ∧ g.fresh = none ∧
    match k with
    | .malloc _ => g.live = some rv
    | .free _ => g.live = none
    | .realloc _ sz => g.live = if sz = 0 then none else some rv

section Text

variable {k : Call} {α : Type} {ends : Filing -> α -> Prop} {mp : Nat} {live fresh : Option UInt64}

/-- The stack of a record is filed when the record is in its queue. -/
theorem logging_recordStack (g : Filing) (mprId : Nat) (mps : Option MprofileStack) :
    (logging k).Follows (fun g' _ => g' = g) (recordStack mp mprId mps) g := by
  cases mps with
  | none => rfl
  | some mps => exact ⟨trivial, fun stackId _ => ⟨trivial, fun _ _ => rfl⟩⟩

/-- A complete record trades what is live for what is fresh. -/
theorem logging_appendRecord {mpr : MprofileRecord} (mps : Option MprofileStack)
    (consumes : mpr.consumes = live) (produces : mpr.produces = fresh) (blank : mpr.Blank) :
    (logging k).Follows (fun g _ => g = .during mp fresh none) (appendRecord mp mpr mps)
      (.during mp live fresh) := by
  refine follows_perform ⟨rfl, consumes, produces, blank⟩ (fun mprId _ => ?_)
  refine follows_perform ⟨rfl, rfl⟩ (fun _ _ => ?_)
  rw [← produces]
  exact logging_recordStack _ mprId mps

/-- A new record is created, so what is to be recorded is recorded. -/
theorem logging_record {g : Filing} {fill : MprofileRecord -> HookM α}
    {without : HookM α}
    (filled : forall now, (logging k).Follows ends
      (fill { (default : MprofileRecord) with mprTs := now }) g) :
    (logging k).Follows ends
      (createMprofileRecord >>= fun created => match created with
        | none => without
        | some mpr => fill mpr) g := by
  refine follows_perform trivial (fun ok granted => ?_)
  have isOk : ok = true := granted
  subst isOk
  exact follows_perform trivial (fun now _ => filled now)

/-- Go on from a known filing. -/
theorem follows_then {β : Type} {program : HookM β} {rest : β -> HookM α} {g g' : Filing}
    (first : (logging k).Follows (fun after _ => after = g') program g)
    (onward : forall value, (logging k).Follows ends (rest value) g') :
    (logging k).Follows ends (program >>= rest) g :=
  Protocol.Follows.bind first (fun _ value same => by rw [same]; exact onward value)

theorem logging_mprofileRecordAlloc (buf bufSz : UInt64) (mps : Option MprofileStack) :
    (logging k).Follows (fun g _ => g = .during mp (some buf) none)
      (mprofileRecordAlloc mp buf bufSz mps) (.during mp none (some buf)) :=
  logging_record (fun _ => logging_appendRecord mps rfl rfl ⟨rfl, rfl, rfl⟩)

theorem logging_mprofileRecordFree (buf sz : UInt64) (mps : Option MprofileStack) :
    (logging k).Follows (fun g _ => g = .during mp none none) (mprofileRecordFree mp buf sz mps)
      (.during mp (if buf = 0 then none else some buf) none) :=
  logging_record (fun _ => logging_appendRecord mps rfl rfl ⟨rfl, rfl, rfl⟩)

theorem logging_mprofileRecordRealloc (buf bufSz origSz oldBuf : UInt64)
    (mps : Option MprofileStack) :
    (logging k).Follows (fun g _ => g = .during mp (some buf) none)
      (mprofileRecordRealloc mp buf bufSz origSz oldBuf mps)
      (.during mp (some oldBuf) (some buf)) :=
  logging_record (fun _ => logging_appendRecord mps rfl rfl ⟨rfl, rfl, rfl⟩)

/-- The thread's profile is in the list when the hook goes on. -/
theorem follows_findMprofile {tid : Nat} {rest : Nat -> HookM α}
    (onward : forall mp, mp ≠ 0 -> (logging k).Follows ends (rest mp) (.during mp live none)) :
    (logging k).Follows ends (getMprofile tid >>= rest) (.during 0 live none) := by
  refine follows_perform trivial (fun mp _ => ?_)
  change (logging k).Follows ends (Prog.bind (if mp = 0 then _ else _) rest) (.during mp live none)
  by_cases null : mp = 0
  · rw [if_pos null]
    refine follows_perform ⟨rfl, rfl, rfl⟩ (fun created _ => ?_)
    refine follows_perform ⟨rfl, rfl, rfl⟩ (fun _ added => ?_)
    exact follows_perform ⟨rfl, added⟩ (fun _ _ => onward created added)
  · rw [if_neg null]
    exact onward mp null

theorem follows_readMemhdr {b : UInt64} {rest : Memhdr -> HookM α} {g : Filing}
    (onward : forall hdr, (logging k).Follows ends (rest hdr) g) :
    (logging k).Follows ends (checkMemhdr b >>= rest) g := by
  refine follows_perform trivial (fun hdr _ => ?_)
  change (logging k).Follows ends (Prog.bind (if _ then _ else _) rest) g
  split_ifs
  · exact ⟨trivial, fun impossible _ => Empty.elim impossible⟩
  · exact onward hdr

theorem follows_stackBuf {rest : Option MprofileStack -> HookM α} {g : Filing}
    (onward : forall mps, (logging k).Follows ends (rest mps) g) :
    (logging k).Follows ends (initStackBuf >>= rest) g :=
  follows_perform trivial (fun _ _ => onward _)

theorem follows_collect {mps : Option MprofileStack} {rest : Option MprofileStack -> HookM α}
    {g : Filing} (onward : forall mps, (logging k).Follows ends (rest mps) g) :
    (logging k).Follows ends (collectBacktrace mps >>= rest) g :=
  follows_perform trivial (fun _ _ => onward _)

/-- The block of a tracing `malloc` hook is fresh. -/
theorem follows_obtain {sz : UInt64} {rest : UInt64 -> HookM α}
    (onward : forall rv, (logging (.malloc sz)).Follows ends (rest rv)
      (.during mp none (some rv))) :
    (logging (.malloc sz)).Follows ends (mallocHeaded sz >>= rest) (.during mp none none) := by
  refine follows_perform ⟨rfl, rfl, rfl⟩ (fun mh served => ?_)
  have isBlock : mh ≠ 0 := served
  change (logging (.malloc sz)).Follows ends (Prog.bind (if mh ≠ 0 then _ else _) rest) _
  rw [if_pos isBlock]
  exact follows_perform trivial (fun _ _ => onward _)

/-! ## The hooks keep to the discipline -/

/-- The last step of the tracing `malloc` hooks. -/
theorem logging_recordMalloc (profiled : mp ≠ 0) (rv sz : UInt64) (mps : Option MprofileStack) :
    (logging (.malloc sz)).Follows (filingEnds (.malloc sz))
      (do if mp ≠ 0 then mprofileRecordAlloc mp rv sz mps
          return rv) (.during mp none (some rv)) := by
  rw [if_pos profiled]
  exact follows_then (logging_mprofileRecordAlloc rv sz mps) (fun _ => ⟨rfl, rfl, rfl⟩)

theorem logging_mpCryptoMallocTrace (tid : Nat) (sz : UInt64) :
    (logging (.malloc sz)).Follows (filingEnds (.malloc sz)) (mpCryptoMallocTrace tid sz) .idle :=
  follows_findMprofile (fun _ profiled =>
    follows_obtain (fun rv => logging_recordMalloc profiled rv sz none))

theorem logging_mpCryptoMallocTraceWithStack (tid : Nat) (sz : UInt64) :
    (logging (.malloc sz)).Follows (filingEnds (.malloc sz)) (mpCryptoMallocTraceWithStack tid sz)
      .idle :=
  follows_findMprofile (fun _ profiled =>
    follows_stackBuf (fun _ =>
      follows_obtain (fun rv =>
        follows_collect (fun mps => logging_recordMalloc profiled rv sz mps))))

/-- The block of a `free` hook is out of the log when libc takes it. -/
theorem logging_libcFree (p : UInt64) :
    (logging k).Follows (fun g _ => g = .during mp none none) (perform (.libcFree p))
      (.during mp none none) :=
  ⟨⟨rfl, rfl, rfl⟩, fun _ _ => rfl⟩

/-- The common end of the tracing `free` hooks. -/
theorem logging_freeTraced (b : UInt64) (profiled : mp ≠ 0) (mps : Option MprofileStack) :
    (logging k).Follows (fun g _ => g = .during mp none none)
      (do if b ≠ 0 then
            let hdr ← checkMemhdr b
            if mp ≠ 0 then mprofileRecordFree mp b hdr.mhSize mps
            perform (.libcFree (b - sizeofMemhdr))
          else
            if mp ≠ 0 then mprofileRecordFree mp b 0 mps
            perform (.libcFree 0)) (.during mp (if b = 0 then none else some b) none) := by
  by_cases null : b = 0
  · rw [if_neg (not_not.mpr null), if_pos profiled]
    exact follows_then (logging_mprofileRecordFree b 0 mps) (fun _ => logging_libcFree 0)
  · rw [if_pos null]
    refine follows_readMemhdr (fun hdr => ?_)
    rw [if_pos profiled]
    exact follows_then (logging_mprofileRecordFree b _ mps) (fun _ => logging_libcFree _)

theorem logging_mpCryptoFreeTrace (tid : Nat) (b : UInt64) :
    (logging k).Follows (fun g _ => Exists fun mp => g = .during mp none none)
      (mpCryptoFreeTrace tid b) (.during 0 (if b = 0 then none else some b) none) :=
  follows_findMprofile (fun mp profiled =>
    (logging_freeTraced b profiled none).weaken (fun _ _ same => ⟨mp, same⟩))

theorem logging_mpCryptoFreeTraceWithStack (tid : Nat) (b : UInt64) :
    (logging k).Follows (fun g _ => Exists fun mp => g = .during mp none none)
      (mpCryptoFreeTraceWithStack tid b) (.during 0 (if b = 0 then none else some b) none) :=
  follows_findMprofile (fun mp profiled =>
    follows_stackBuf (fun _ => follows_collect (fun mps =>
      (logging_freeTraced b profiled mps).weaken (fun _ _ same => ⟨mp, same⟩))))

/-- The tracing `realloc` hooks from the answer of libc on. -/
theorem logging_reallocTraceTail {b sz : UInt64} (saveMh : Memhdr)
    {collect : HookM (Option MprofileStack)}
    (collects : forall g, (logging (.realloc b sz)).Follows (fun g' _ => g' = g) collect g)
    (profiled : mp ≠ 0) {mh : UInt64} (served : (Call.realloc b sz).served mh) :
    (logging (.realloc b sz)).Follows (filingEnds (.realloc b sz))
      (reallocTraceTail collect mp b sz saveMh mh)
      ((Filing.during mp (Call.realloc b sz).resized none).obtain (.realloc b sz) mh) := by
  unfold reallocTraceTail
  by_cases zeroSize : sz = 0
  · have nothingLive : (Filing.during mp (Call.realloc b sz).resized none).obtain
        (.realloc b sz) mh = .during mp none none := by
      rw [Filing.obtain, if_pos zeroSize, Call.resized, if_pos (Or.inl zeroSize)]
    rw [nothingLive]
    have ended : forall rv, filingEnds (.realloc b sz) (.during mp none none) rv :=
      fun rv => ⟨rfl, rfl, (if_pos zeroSize).symm⟩
    split_ifs
    · exact ended 0
    · exact ended b
  · have isBlock : mh ≠ 0 := served zeroSize
    have isFresh : (Filing.during mp (Call.realloc b sz).resized none).obtain (.realloc b sz) mh =
        .during mp (if b = 0 then none else some b) (some (mh + sizeofMemhdr)) := by
      rw [Filing.obtain, if_neg zeroSize, Call.resized]
      by_cases null : b = 0
      · rw [if_pos (Or.inr null), if_pos null]; rfl
      · rw [if_neg (not_or.mpr ⟨zeroSize, null⟩), if_neg null]; rfl
    have ended : filingEnds (.realloc b sz) (.during mp (some (mh + sizeofMemhdr)) none)
        (mh + sizeofMemhdr) := ⟨rfl, rfl, (if_neg zeroSize).symm⟩
    rw [isFresh, if_neg isBlock, if_neg zeroSize]
    refine Protocol.Follows.bind (collects _) (fun g' mps same => ?_)
    rw [same, if_pos profiled]
    refine follows_perform trivial (fun _ _ => ?_)
    by_cases null : b = 0
    · rw [if_pos null, if_pos null]
      exact follows_then (logging_mprofileRecordAlloc _ sz mps) (fun _ => ended)
    · rw [if_neg null, if_neg null]
      exact follows_then (logging_mprofileRecordRealloc _ sz _ b mps) (fun _ => ended)

/-- A block that the call gives up is out of the log when libc takes it. -/
theorem logging_reallocRequest {b sz hdrSz p : UInt64} (mps : Option MprofileStack)
    {rest : UInt64 -> HookM UInt64} {ends : Filing -> UInt64 -> Prop}
    (onward : forall mh, (Call.realloc b sz).served mh ->
      (logging (.realloc b sz)).Follows ends (rest mh)
        ((Filing.during mp (Call.realloc b sz).resized none).obtain (.realloc b sz) mh)) :
    (logging (.realloc b sz)).Follows ends
      (do if sz = 0 then mprofileRecordFree mp b hdrSz mps
          let mh ← perform (.libcRealloc p (reallocSize sz))
          rest mh) (.during mp (if b = 0 then none else some b) none) := by
  have request : (logging (.realloc b sz)).Follows ends
      (perform (.libcRealloc p (reallocSize sz)) >>= rest)
      (.during mp (Call.realloc b sz).resized none) :=
    follows_perform ⟨rfl, rfl, rfl⟩ onward
  by_cases zeroSize : sz = 0
  · rw [Call.resized, if_pos (Or.inl zeroSize)] at request
    rw [if_pos zeroSize]
    exact follows_then (logging_mprofileRecordFree b hdrSz mps) (fun _ => request)
  · rw [if_neg zeroSize]
    have same : (if b = 0 then none else some b) = (Call.realloc b sz).resized := by
      rw [Call.resized]
      simp only [zeroSize, false_or]
    rw [same]
    exact request

/-- The common part of the tracing `realloc` hooks. -/
theorem logging_reallocTraced {b sz : UInt64} (profiled : mp ≠ 0) (mps : Option MprofileStack)
    {collect : HookM (Option MprofileStack)}
    (collects : forall g, (logging (.realloc b sz)).Follows (fun g' _ => g' = g) collect g) :
    (logging (.realloc b sz)).Follows (filingEnds (.realloc b sz))
      (reallocTraced mp mps collect b sz)
      (.during mp (if b = 0 then none else some b) none) := by
  unfold reallocTraced
  by_cases null : b = 0
  · rw [if_neg (not_not.mpr null)]
    exact logging_reallocRequest mps
      (fun mh served => logging_reallocTraceTail default collects profiled served)
  · rw [if_pos null]
    refine follows_readMemhdr (fun hdr => ?_)
    exact logging_reallocRequest mps
      (fun mh served => logging_reallocTraceTail hdr collects profiled served)

/-- Every tracing hook keeps to the discipline. -/
theorem logging_hook {family : Family} (traced : family ≠ .stats) (tid : Nat) {k : Call}
    {g : Filing}
    (starts : filingStarts k g) : (logging k).Follows (filingEnds k) (hook family tid k) g := by
  cases k with
  | malloc sz =>
      have atIdle : g = .idle := starts
      subst atIdle
      cases family with
      | stats => exact absurd rfl traced
      | trace => exact logging_mpCryptoMallocTrace tid sz
      | traceWithStack => exact logging_mpCryptoMallocTraceWithStack tid sz
  | free b =>
      have atStart : g = .during 0 (if b = 0 then none else some b) none := starts
      subst atStart
      have returns : forall g' (value : Unit), (Exists fun mp => g' = Filing.during mp none none) ->
          (logging (.free b)).Follows (filingEnds (.free b)) (pure 0 : HookM UInt64) g' := by
        rintro g' value ⟨mp, rfl⟩
        exact ⟨rfl, rfl, rfl⟩
      cases family with
      | stats => exact absurd rfl traced
      | trace => exact Protocol.Follows.bind (logging_mpCryptoFreeTrace tid b) returns
      | traceWithStack =>
          exact Protocol.Follows.bind (logging_mpCryptoFreeTraceWithStack tid b) returns
  | realloc b sz =>
      have atStart : g = .during 0 (if b = 0 then none else some b) none := starts
      subst atStart
      cases family with
      | stats => exact absurd rfl traced
      | trace =>
          exact follows_findMprofile (fun mp profiled =>
            logging_reallocTraced profiled none (fun g => rfl))
      | traceWithStack =>
          exact follows_findMprofile (fun mp profiled =>
            follows_stackBuf (fun mps =>
              logging_reallocTraced profiled mps (fun g => ⟨trivial, fun _ _ => rfl⟩)))

end Text

end Mprofile
end OsslScripts
