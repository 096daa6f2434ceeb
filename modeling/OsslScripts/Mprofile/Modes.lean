import OsslScripts.Foundation.Observer
import OsslScripts.Foundation.Transition
import OsslScripts.Mprofile.Sequential

namespace OsslScripts
namespace Mprofile

open Foundation

/-!
# The same application in every mode

One sequence of calls is made under each of the three hook families, and libc
gives the same answers in each of them.  The modes agree as long as every call
asks libc for the same, returns the same pointer and leaves the same heap.

The families differ in what `realloc (b, 0)` returns when libc answers with a
pointer: the counting hook returns the address behind that pointer, and the
tracing hooks return `b`.
-/

/-! ## What libc is asked for -/

/-- A request to libc on behalf of the application. -/
inductive LibcRequest where
  | malloc (size : UInt64)
  | free (p : UInt64)
  | realloc (p size : UInt64)
deriving DecidableEq, Repr

def HookOp.requests : HookOp -> List LibcRequest
  | .libcMalloc size => [.malloc size]
  | .libcFree p => [.free p]
  | .libcRealloc p size => [.realloc p size]
  | _ => []

/-- What every family asks libc for in a call. -/
def Call.request : Call -> LibcRequest
  | .malloc sz => .malloc (sz + sizeofMemhdr)
  | .free b => .free (argumentBlock b)
  | .realloc b sz => .realloc (argumentBlock b) (reallocSize sz)

def noteRequests (seen : List LibcRequest) (o : HookOp) (_ : World) : List LibcRequest :=
  seen ++ o.requests

/-- The hooks next to the requests that they made. -/
abbrev requestMachine : Machine := hookMachine.observed noteRequests

/-- The requests in the text of a program. -/
def requesting : Protocol hookMachine (List LibcRequest) where
  may := fun _ _ => True
  fits := fun _ _ _ => True
  after := fun seen o _ => seen ++ o.requests
  loops := fun _ _ => True
  leave := fun seen => seen

/-- The program asks libc for nothing. -/
def Quiet {α : Type} (program : HookM α) : Prop :=
  Protocol.Uses (M := hookMachine) (fun o => HookOp.requests o = []) program

section Requests

variable {α β : Type} {seen : List LibcRequest} {final : List LibcRequest}

theorem Quiet.follows {program : HookM α} (quiet : Quiet program) :
    requesting.Follows (fun seen' _ => seen' = seen) program seen := by
  refine Protocol.Follows.of_neutral seen (fun _ _ => trivial) (fun o _ silent => ?_)
    (fun _ => trivial)
    rfl quiet
  exact (congrArg (seen ++ ·) silent).trans (List.append_nil seen)

theorem requests_after {program : HookM α} {rest : α -> HookM β} (quiet : Quiet program)
    (onward : forall value, requesting.Follows (fun seen' _ => seen' = final) (rest value) seen) :
    requesting.Follows (fun seen' _ => seen' = final) (program >>= rest) seen :=
  Protocol.Follows.bind quiet.follows (fun _ value same => by rw [same]; exact onward value)

theorem quiet_bind {program : HookM α} {rest : α -> HookM β} (first : Quiet program)
    (second : forall value, Quiet (rest value)) : Quiet (program >>= rest) :=
  Protocol.Uses.bind first second

theorem quiet_perform {o : HookOp} (silent : o.requests = []) : Quiet (perform o) :=
  ⟨silent, fun _ => trivial⟩

theorem quiet_recordStack (mp mprId : Nat) (mps : Option MprofileStack) :
    Quiet (recordStack mp mprId mps) := by
  cases mps with
  | none => trivial
  | some mps => exact ⟨rfl, fun _ => ⟨rfl, fun _ => trivial⟩⟩

theorem quiet_record (mp : Nat) (fill : MprofileRecord -> MprofileRecord)
    (mps : Option MprofileStack) :
    Quiet (createMprofileRecord >>= fun created => match created with
      | none => return ()
      | some mpr => appendRecord mp (fill mpr) mps) := by
  refine quiet_bind ⟨rfl, fun ok => ?_⟩ (fun created => ?_)
  · cases ok with
    | false => trivial
    | true => exact ⟨rfl, fun _ => trivial⟩
  · cases created with
    | none => trivial
    | some mpr => exact ⟨rfl, fun mprId => ⟨rfl, fun _ => quiet_recordStack mp mprId mps⟩⟩

theorem quiet_mprofileRecordAlloc (mp : Nat) (buf bufSz : UInt64) (mps : Option MprofileStack) :
    Quiet (mprofileRecordAlloc mp buf bufSz mps) :=
  quiet_record mp _ mps

theorem quiet_mprofileRecordFree (mp : Nat) (buf sz : UInt64) (mps : Option MprofileStack) :
    Quiet (mprofileRecordFree mp buf sz mps) :=
  quiet_record mp _ mps

theorem quiet_mprofileRecordRealloc (mp : Nat) (buf bufSz origSz oldBuf : UInt64)
    (mps : Option MprofileStack) : Quiet (mprofileRecordRealloc mp buf bufSz origSz oldBuf mps) :=
  quiet_record mp _ mps

theorem quiet_getMprofile (tid : Nat) : Quiet (getMprofile tid) := by
  refine ⟨rfl, fun mp => ?_⟩
  change Quiet (if mp = 0 then _ else _)
  split_ifs
  · exact ⟨rfl, fun created => ⟨rfl, fun _ => ⟨rfl, fun _ => trivial⟩⟩⟩
  · trivial

theorem quiet_checkMemhdr (b : UInt64) : Quiet (checkMemhdr b) := by
  refine ⟨rfl, fun hdr => ?_⟩
  change Quiet (if _ then _ else _)
  split_ifs
  · exact ⟨rfl, fun impossible => impossible.elim⟩
  · trivial

theorem quiet_addCounter (c : Counter) (delta : UInt64) : Quiet (addCounter c delta) :=
  ⟨rfl, fun _ => trivial⟩

theorem quiet_updateAlloc (delta : UInt64) : Quiet (updateAlloc delta) :=
  ⟨rfl, fun _ => ⟨rfl, fun _ => trivial⟩⟩

theorem quiet_updateRelease (delta : UInt64) : Quiet (updateRelease delta) :=
  ⟨rfl, fun _ => trivial⟩

theorem quiet_recordMalloc (mp : Nat) (rv sz : UInt64) (mps : Option MprofileStack) :
    Quiet (do if mp ≠ 0 then mprofileRecordAlloc mp rv sz mps
              return rv) := by
  split_ifs
  · exact quiet_bind (quiet_mprofileRecordAlloc mp rv sz mps) (fun _ => trivial)
  · trivial

theorem quiet_countAlloc (sz rv : UInt64) : Quiet (do
    addCounter .allocs 1
    addCounter .totalAllocated sz
    updateAlloc sz
    return rv) :=
  quiet_bind (quiet_addCounter _ _) (fun _ =>
    quiet_bind (quiet_addCounter _ _) (fun _ =>
      quiet_bind (quiet_updateAlloc _) (fun _ => trivial)))

theorem quiet_reallocStatsTail (b sz : UInt64) (saveMh : Memhdr) (mh : UInt64) :
    Quiet (reallocStatsTail b sz saveMh mh) := by
  unfold reallocStatsTail
  split_ifs
  · trivial
  · trivial
  · exact quiet_bind (quiet_perform rfl) (fun _ => quiet_countAlloc sz _)
  · exact quiet_bind (quiet_perform rfl) (fun _ => quiet_bind (quiet_addCounter _ _) (fun _ =>
      quiet_bind (quiet_updateRelease _) (fun _ =>
        quiet_bind (quiet_addCounter _ _) (fun _ => trivial))))
  · exact quiet_bind (quiet_perform rfl) (fun _ => quiet_bind (quiet_addCounter _ _) (fun _ =>
      quiet_bind (quiet_addCounter _ _) (fun _ =>
        quiet_bind (quiet_updateAlloc _) (fun _ => trivial))))

theorem quiet_reallocTraceTail {collect : HookM (Option MprofileStack)} (collects : Quiet collect)
    (mp : Nat) (b sz : UInt64) (saveMh : Memhdr) (mh : UInt64) :
    Quiet (reallocTraceTail collect mp b sz saveMh mh) := by
  unfold reallocTraceTail
  split_ifs
  · trivial
  · trivial
  · refine quiet_bind collects (fun mps => quiet_bind (quiet_perform rfl) (fun _ => ?_))
    exact quiet_bind (quiet_mprofileRecordAlloc _ _ _ _) (fun _ => trivial)
  · refine quiet_bind collects (fun mps => quiet_bind (quiet_perform rfl) (fun _ => ?_))
    exact quiet_bind (quiet_mprofileRecordRealloc _ _ _ _ _ _) (fun _ => trivial)
  · exact quiet_bind collects (fun mps => trivial)

theorem quiet_collectBacktrace (mps : Option MprofileStack) : Quiet (collectBacktrace mps) :=
  ⟨rfl, fun _ => trivial⟩

theorem quiet_initStackBuf : Quiet initStackBuf := ⟨rfl, fun _ => trivial⟩

/-- A request, and nothing after it. -/
theorem requests_perform {o : HookOp} {rest : o.Res -> HookM β} (one : o.requests = final)
    (quiet : forall r, Quiet (rest r)) :
    requesting.Follows (fun seen' _ => seen' = final) (perform o >>= rest) [] := by
  refine ⟨trivial, fun r _ => ?_⟩
  change requesting.Follows _ (rest r) ([] ++ o.requests)
  rw [List.nil_append, one]
  exact (quiet r).follows

theorem requests_mallocHeaded {sz : UInt64} {rest : UInt64 -> HookM β}
    (quiet : forall rv, Quiet (rest rv)) :
    requesting.Follows (fun seen' _ => seen' = [(Call.malloc sz).request])
      (mallocHeaded sz >>= rest) [] := by
  have own : mallocHeaded sz >>= rest = perform (.libcMalloc (sz + sizeofMemhdr)) >>= fun mh =>
      (if mh ≠ 0 then do
        perform (.storeMemhdr mh ⟨sz, mkChk mh sz⟩)
        return mh + sizeofMemhdr
      else return 0) >>= rest := rfl
  rw [own]
  refine requests_perform rfl (fun mh => quiet_bind ?_ quiet)
  split_ifs
  · exact quiet_bind (quiet_perform rfl) (fun _ => trivial)
  · trivial

theorem requests_mpCryptoMallocStats (sz : UInt64) :
    requesting.Follows (fun seen' _ => seen' = [(Call.malloc sz).request]) (mpCryptoMallocStats sz)
      [] := by
  refine requests_perform rfl (fun mh => ?_)
  split_ifs
  · exact quiet_bind (quiet_perform rfl) (fun _ => quiet_countAlloc sz _)
  · trivial

theorem requests_last {o : HookOp} (one : o.requests = final) :
    requesting.Follows (fun seen' _ => seen' = final) (perform o) [] :=
  requests_perform one (fun _ => trivial)

theorem requests_before {program : HookM α} {rest : α -> HookM β}
    (first : requesting.Follows (fun seen' _ => seen' = final) program [])
    (quiet : forall value, Quiet (rest value)) :
    requesting.Follows (fun seen' _ => seen' = final) (program >>= rest) [] :=
  Protocol.Follows.bind first (fun _ value same => by rw [same]; exact (quiet value).follows)

theorem requests_libcFree {b p : UInt64} (isBlock : argumentBlock b = p) :
    requesting.Follows (fun seen' _ => seen' = [(Call.free b).request]) (perform (.libcFree p))
      [] := by
  subst isBlock
  exact requests_last rfl

theorem requests_mpCryptoFreeStats (b : UInt64) :
    requesting.Follows (fun seen' _ => seen' = [(Call.free b).request]) (mpCryptoFreeStats b)
      [] := by
  unfold mpCryptoFreeStats
  by_cases null : b = 0
  · rw [if_neg (not_not.mpr null)]
    exact requests_libcFree (if_neg (not_not.mpr null))
  · rw [if_pos null]
    refine requests_after (quiet_checkMemhdr b) (fun hdr => ?_)
    refine requests_after (quiet_addCounter _ _) (fun _ => ?_)
    refine requests_after (quiet_addCounter _ _) (fun _ => ?_)
    exact requests_after (quiet_updateRelease _) (fun _ => requests_libcFree (if_pos null))

theorem requests_freeTraced (mp : Nat) (b : UInt64) (mps : Option MprofileStack) :
    requesting.Follows (fun seen' _ => seen' = [(Call.free b).request]) (do
        if b ≠ 0 then
          let hdr ← checkMemhdr b
          if mp ≠ 0 then mprofileRecordFree mp b hdr.mhSize mps
          perform (.libcFree (b - sizeofMemhdr))
        else
          if mp ≠ 0 then mprofileRecordFree mp b 0 mps
          perform (.libcFree 0)) [] := by
  by_cases null : b = 0
  · rw [if_neg (not_not.mpr null)]
    have request := requests_libcFree (b := b) (if_neg (not_not.mpr null))
    split_ifs
    · exact requests_after (quiet_mprofileRecordFree _ _ _ _) (fun _ => request)
    · exact request
  · rw [if_pos null]
    have request := requests_libcFree (b := b) (if_pos null)
    refine requests_after (quiet_checkMemhdr b) (fun hdr => ?_)
    split_ifs
    · exact requests_after (quiet_mprofileRecordFree _ _ _ _) (fun _ => request)
    · exact request

theorem requests_mpCryptoReallocStats (b sz : UInt64) :
    requesting.Follows (fun seen' _ => seen' = [(Call.realloc b sz).request])
      (mpCryptoReallocStats b sz)
      [] := by
  have request : forall p saveMh, argumentBlock b = p ->
      requesting.Follows (fun seen' _ => seen' = [(Call.realloc b sz).request])
        (perform (.libcRealloc p (reallocSize sz)) >>= fun mh => reallocStatsTail b sz saveMh mh)
            [] := by
    rintro p saveMh rfl
    exact requests_perform rfl (fun mh => quiet_reallocStatsTail b sz saveMh mh)
  unfold mpCryptoReallocStats
  by_cases null : b = 0
  · rw [if_neg (not_not.mpr null)]
    exact request 0 default (if_neg (not_not.mpr null))
  · rw [if_pos null]
    have isBlock : argumentBlock b = b - sizeofMemhdr := if_pos null
    refine requests_after (quiet_checkMemhdr b) (fun saveMh => ?_)
    split_ifs
    · refine requests_after (quiet_addCounter _ _) (fun _ => ?_)
      refine requests_after (quiet_addCounter _ _) (fun _ => ?_)
      exact requests_after (quiet_updateRelease _) (fun _ => request _ saveMh isBlock)
    · exact request _ saveMh isBlock

theorem requests_reallocTraced {collect : HookM (Option MprofileStack)} (collects : Quiet collect)
    (mp : Nat) (mps : Option MprofileStack) (b sz : UInt64) :
    requesting.Follows (fun seen' _ => seen' = [(Call.realloc b sz).request])
      (reallocTraced mp mps collect b sz) [] := by
  have request : forall p saveMh, argumentBlock b = p ->
      requesting.Follows (fun seen' _ => seen' = [(Call.realloc b sz).request])
        (perform (.libcRealloc p (reallocSize sz)) >>= fun mh =>
          reallocTraceTail collect mp b sz saveMh mh) [] := by
    rintro p saveMh rfl
    exact requests_perform rfl (fun mh => quiet_reallocTraceTail collects mp b sz saveMh mh)
  unfold reallocTraced
  by_cases null : b = 0
  · rw [if_neg (not_not.mpr null)]
    have noBlock : argumentBlock b = 0 := if_neg (not_not.mpr null)
    split_ifs
    · exact requests_after (quiet_mprofileRecordFree _ _ _ _) (fun _ => request 0 default noBlock)
    · exact request 0 default noBlock
  · rw [if_pos null]
    have isBlock : argumentBlock b = b - sizeofMemhdr := if_pos null
    refine requests_after (quiet_checkMemhdr b) (fun saveMh => ?_)
    split_ifs
    · exact requests_after (quiet_mprofileRecordFree _ _ _ _) (fun _ => request _ saveMh isBlock)
    · exact request _ saveMh isBlock

/-- Every family asks libc for one thing, and for the same. -/
theorem requests_hook (family : Family) (tid : Nat) (call : Call) :
    requesting.Follows (fun seen' _ => seen' = [call.request]) (hook family tid call) [] := by
  cases call with
  | malloc sz =>
      cases family with
      | stats => exact requests_mpCryptoMallocStats sz
      | trace =>
          exact requests_after (quiet_getMprofile tid) (fun mp =>
            requests_mallocHeaded (fun rv => quiet_recordMalloc mp rv sz none))
      | traceWithStack =>
          refine requests_after (quiet_getMprofile tid) (fun mp => ?_)
          refine requests_after quiet_initStackBuf (fun mps => ?_)
          refine requests_mallocHeaded (fun rv => ?_)
          exact quiet_bind (quiet_collectBacktrace mps) (fun mps => quiet_recordMalloc mp rv sz mps)
  | free b =>
      have returned : forall value : Unit, Quiet (return (0 : UInt64)) := fun _ => trivial
      cases family with
      | stats => exact requests_before (requests_mpCryptoFreeStats b) returned
      | trace =>
          have free : requesting.Follows (fun seen' _ => seen' = [(Call.free b).request])
              (mpCryptoFreeTrace tid b) [] :=
            requests_after (quiet_getMprofile tid) (fun mp => requests_freeTraced mp b none)
          exact requests_before free returned
      | traceWithStack =>
          have free : requesting.Follows (fun seen' _ => seen' = [(Call.free b).request])
              (mpCryptoFreeTraceWithStack tid b) [] := by
            refine requests_after (quiet_getMprofile tid) (fun mp => ?_)
            refine requests_after quiet_initStackBuf (fun mps => ?_)
            exact requests_after (quiet_collectBacktrace mps)
              (fun mps => requests_freeTraced mp b mps)
          exact requests_before free returned
  | realloc b sz =>
      cases family with
      | stats => exact requests_mpCryptoReallocStats b sz
      | trace =>
          have collects : Quiet (return (none : Option MprofileStack)) := trivial
          exact requests_after (quiet_getMprofile tid) (fun mp =>
            requests_reallocTraced collects mp none b sz)
      | traceWithStack =>
          refine requests_after (quiet_getMprofile tid) (fun mp => ?_)
          refine requests_after quiet_initStackBuf (fun mps => ?_)
          exact requests_reallocTraced (quiet_collectBacktrace mps) mp mps b sz

/-- A hook call with its requests is the hook call, and the one request of the call. -/
theorem run_requests (fuel : Nat) (family : Family) (tid : Nat) (call : Call) (answer : Answer)
    (w : World) :
    requestMachine.run fuel answer (hook family tid call) (w, []) =
      (hookMachine.run fuel answer (hook family tid call) w).map
        (fun result => ((result.1, [call.request]), result.2)) :=
  Machine.observed_run (fun _ _ _ _ => rfl) (fun _ _ _ => trivial) (fun _ => rfl) w
    (requests_hook family tid call)

end Requests

/-! ## Three modes side by side -/

/-- A call of the application, and what the environment decides in each mode. -/
structure ModeCall where
  tid : Nat
  call : Call
  answer : Family -> Answer

inductive ModeStop where
  /-- The application sees another pointer, libc another request, or one mode fails alone. -/
  | differs
  | fault (f : HookFault)
deriving DecidableEq, Repr

/-- The call in one mode, with its requests. -/
def ModeCall.run (fuel : Nat) (modes : Family -> World) (step : ModeCall) (family : Family) :
    Except HookFault ((World × List LibcRequest) × UInt64) :=
  requestMachine.run (fuel + 2) (step.answer family) (hook family step.tid step.call)
    (modes family, [])

/-- One call in all modes. -/
def nextModes (fuel : Nat) (modes : Family -> World) (step : ModeCall) :
    Except ModeStop (Family -> World) :=
  match step.run fuel modes .stats, step.run fuel modes .trace,
      step.run fuel modes .traceWithStack with
  | .ok a, .ok b, .ok c =>
      if (b.2 = a.2 ∧ c.2 = a.2) ∧ b.1.2 = a.1.2 ∧ c.1.2 = a.1.2 then
        .ok (fun family => match family with
          | .stats => a.1.1
          | .trace => b.1.1
          | .traceWithStack => c.1.1)
      else .error .differs
  | .error a, .error b, .error c => if b = a ∧ c = a then .error (.fault a) else .error .differs
  | _, _, _ => .error .differs

/-- The same live blocks with the same headers in every mode. -/
def HeapsAgree (modes : Family -> World) : Prop :=
  forall family, (modes family).heap = (modes .stats).heap

/-- No call shows the application a difference, and the heaps stay the same. -/
def SeenAlike (fuel : Nat) (modes : Family -> World) (steps : List ModeCall) : Prop :=
  exec (nextModes fuel) modes steps ≠ .error .differs ∧
    forall modes', exec (nextModes fuel) modes steps = .ok modes' -> HeapsAgree modes'

/-- The pointer that is handed to the call. -/
def Call.argument : Call -> UInt64
  | .malloc _ => 0
  | .free b => b
  | .realloc b _ => b

/-- The parts of an answer that come from libc. -/
def Answer.SameLibc (a b : Answer) : Prop := a.ptr = b.ptr ∧ a.junk = b.junk ∧ a.keep = b.keep

/-- The argument is null or a live block with its header, libc answers as the
standard allows and in each mode the same, and a copy of a stack gets a block of
its own. -/
structure LegalStep (modes : Family -> World) (step : ModeCall) : Prop where
  argument : Exists fun sz => argumentSize (modes .stats).heap step.call.argument = .ok sz
  libc : forall family, (step.answer family).SameLibc (step.answer .stats)
  allowed : step.call.measured (modes .stats).heap (step.answer .stats) ≠ .error .notLibc
  fresh : forall family, family ≠ .stats ->
    (modes family).prof.stackHeap.freshBlock (step.answer family).copyBlock

/-- A request of size 0 for `b` gets null, or the block in front of `b`. -/
def Call.AnsweredAlike (call : Call) (ptr : UInt64) : Prop :=
  match call with
  | .realloc b sz => sz = 0 -> ptr = 0 ∨ ptr + sizeofMemhdr = b
  | _ => True

/-- The thread has a profile, or gets one. -/
def Profiled (w : World) (tid : Nat) (answer : Answer) : Prop :=
  w.prof.specific tid ≠ 0 ∨ answer.createOk = true

/-- The condition on one call. -/
def NeutralStep (modes : Family -> World) (step : ModeCall) : Prop :=
  step.call.AnsweredAlike (step.answer .stats).ptr ∧
    forall family, family ≠ .stats -> Profiled (modes family) step.tid (step.answer family)

/-- The handle of the next profile is not null. -/
def ModesValid (modes : Family -> World) : Prop :=
  forall family, (modes family).prof.mprofileTop ≠ 0

section Outcomes

variable {heap : UInt64 -> Option Block} {answer answer' : Answer} {call : Call}

theorem malloc_sameLibc (same : answer.SameLibc answer') (size : UInt64) :
    Libc.malloc heap size answer = Libc.malloc heap size answer' := by
  unfold Libc.malloc
  rw [same.1, same.2.1]

theorem realloc_sameLibc (same : answer.SameLibc answer') (p size : UInt64) :
    Libc.realloc heap p size answer = Libc.realloc heap p size answer' := by
  unfold Libc.realloc
  rw [malloc_sameLibc same, same.1, same.2.2]
  cases heap p with
  | none => rfl
  | some block =>
      simp only
      rw [malloc_sameLibc same]

/-- What a tracing hook does depends on libc's part of the answer. -/
theorem traced_sameLibc (same : answer.SameLibc answer') (call : Call) :
    call.traced heap answer = call.traced heap answer' := by
  cases call with
  | malloc sz =>
      rw [Call.traced, Call.traced, malloc_sameLibc same]
  | free b => rfl
  | realloc b sz =>
      rw [Call.traced, Call.traced]
      simp only [realloc_sameLibc same]

/-- What a counting and a tracing hook come to from the same heap. -/
def SameEffect (alike : Prop) : Except HookFault MeasuredCall -> Except HookFault TracedCall -> Prop
  | .error fault, .error fault' => fault' = fault
  | .ok m, .ok t => t.heap = m.heap ∧ (t.rv = m.rv ↔ alike)
  | _, _ => False

theorem sameEffect_malloc (sz : UInt64) :
    SameEffect True ((Call.malloc sz).measured heap answer)
      ((Call.malloc sz).traced heap answer) := by
  rw [Call.measured, Call.traced]
  cases Libc.malloc heap (sz + sizeofMemhdr) answer with
  | error fault => rfl
  | ok taken =>
      simp only [ok_bind, pure_ok]
      split_ifs
      · exact ⟨rfl, Iff.of_eq (eq_self _)⟩
      · cases storeHeader taken.1 taken.2 ⟨sz, mkChk taken.2 sz⟩ with
        | error fault => rfl
        | ok heap => exact ⟨rfl, Iff.of_eq (eq_self _)⟩

theorem sameEffect_free (b : UInt64) :
    SameEffect True ((Call.free b).measured heap answer) ((Call.free b).traced heap answer) := by
  rw [Call.measured, Call.traced]
  cases argumentSize heap b with
  | error fault => rfl
  | ok sz =>
      simp only [ok_bind, pure_ok]
      cases Libc.free heap (argumentBlock b) with
      | error fault => rfl
      | ok heap => exact ⟨rfl, Iff.of_eq (eq_self _)⟩

theorem sameEffect_realloc (b sz : UInt64) :
    SameEffect (sz = 0 -> answer.ptr = 0 ∨ answer.ptr + sizeofMemhdr = b)
      ((Call.realloc b sz).measured heap answer) ((Call.realloc b sz).traced heap answer) := by
  rw [Call.measured, Call.traced]
  cases argumentSize heap b with
  | error fault => rfl
  | ok origSz =>
      simp only [ok_bind, pure_ok]
      cases answered : Libc.realloc heap (argumentBlock b) (reallocSize sz) answer with
      | error fault => rfl
      | ok taken =>
          simp only [ok_bind]
          by_cases zeroSize : sz = 0
          · have request : reallocSize sz = 0 := if_neg (not_not.mpr zeroSize)
            rw [request] at answered
            rw [if_pos zeroSize, if_pos zeroSize, ← realloc_result answered]
            refine ⟨rfl, ?_⟩
            change (if taken.2 = 0 then 0 else b) =
              (if taken.2 = 0 then 0 else taken.2 + sizeofMemhdr) ↔ _
            by_cases null : taken.2 = 0
            · rw [if_pos null, if_pos null]
              exact ⟨fun _ _ => Or.inl null, fun _ => rfl⟩
            · rw [if_neg null, if_neg null]
              constructor
              · exact fun same _ => Or.inr same.symm
              · intro alike
                rcases alike zeroSize with isNull | same
                · exact absurd isNull null
                · exact same.symm
          · have anything : sz = 0 -> answer.ptr = 0 ∨ answer.ptr + sizeofMemhdr = b :=
              fun impossible => absurd impossible zeroSize
            rw [if_neg zeroSize, if_neg zeroSize]
            by_cases null : taken.2 = 0
            · rw [if_pos null, if_pos null]
              exact ⟨rfl, fun _ => anything, fun _ => rfl⟩
            · rw [if_neg null, if_neg null]
              cases storeHeader taken.1 taken.2 ⟨sz, mkChk taken.2 sz⟩ with
                | error fault => rfl
                | ok heap => exact ⟨rfl, fun _ => anything, fun _ => rfl⟩

/-- The two kinds of hooks do the same to the heap, and differ in what they
return for a request of size 0. -/
theorem sameEffect (heap : UInt64 -> Option Block) (call : Call) (answer : Answer) :
    SameEffect (call.AnsweredAlike answer.ptr) (call.measured heap answer)
      (call.traced heap answer) := by
  cases call with
  | malloc sz => exact sameEffect_malloc sz
  | free b => exact sameEffect_free b
  | realloc b sz => exact sameEffect_realloc b sz

theorem storeHeader_fault {p : UInt64} {hdr : Memhdr} {fault : HookFault}
    (failed : storeHeader heap p hdr = .error fault) : fault = .wildHeader := by
  unfold storeHeader at failed
  split at failed
  · cases failed
  · cases failed
    rfl

/-- If libc answers as it may, a call with a legal argument fails only where a block
is too short for its header. -/
theorem measured_fault {fault : HookFault} (failed : call.measured heap answer = .error fault)
    (legal : Exists fun sz => argumentSize heap call.argument = .ok sz) :
    fault = .notLibc ∨ (fault = .wildHeader ∧ call.AnsweredAlike answer.ptr) := by
  rcases legal with ⟨origSz, read⟩
  cases call with
  | malloc sz =>
      rw [Call.measured] at failed
      cases taken : Libc.malloc heap (sz + sizeofMemhdr) answer with
      | error other =>
          rw [taken] at failed
          cases failed
          exact Or.inl (malloc_fault taken)
      | ok taken' =>
          rw [taken] at failed
          simp only [ok_bind, pure_ok] at failed
          split_ifs at failed
          cases stored : storeHeader taken'.1 taken'.2 ⟨sz, mkChk taken'.2 sz⟩ with
          | error other =>
              rw [stored] at failed
              cases failed
              exact Or.inr ⟨storeHeader_fault stored, trivial⟩
          | ok heap => rw [stored] at failed; cases failed
  | free b =>
      have size : argumentSize heap b = .ok origSz := read
      rcases free_of_argumentSize size with ⟨heap', freed⟩
      rw [Call.measured, size] at failed
      simp only [ok_bind, freed] at failed
      cases failed
  | realloc b sz =>
      have size : argumentSize heap b = .ok origSz := read
      rw [Call.measured, size] at failed
      simp only [ok_bind, pure_ok] at failed
      cases answered : Libc.realloc heap (argumentBlock b) (reallocSize sz) answer with
      | error other =>
          rw [answered] at failed
          cases failed
          exact Or.inl (realloc_fault (live_of_argumentSize size) answered)
      | ok taken =>
          rw [answered] at failed
          simp only [ok_bind] at failed
          by_cases zeroSize : sz = 0
          · rw [if_pos zeroSize] at failed
            cases failed
          · rw [if_neg zeroSize] at failed
            split_ifs at failed
            all_goals
              cases stored : storeHeader taken.1 taken.2 ⟨sz, mkChk taken.2 sz⟩ with
              | error other =>
                  rw [stored] at failed
                  cases failed
                  exact Or.inr ⟨storeHeader_fault stored,
                    fun impossible => absurd impossible zeroSize⟩
              | ok heap => rw [stored] at failed; cases failed

end Outcomes

section Steps

variable {fuel tid : Nat} {modes : Family -> World} {step : ModeCall} {w : World} {answer : Answer}
  {family : Family}

theorem mprofileCreate_valid {prof : Profiler} (valid : prof.mprofileTop ≠ 0)
    (granted : answer.createOk = true) :
    (prof.mprofileCreate answer).2 ≠ 0 ∧ (prof.mprofileCreate answer).1.mprofileTop ≠ 0 ∧
      (prof.mprofileCreate answer).1.stackHeap.mps = prof.stackHeap.mps ∧
      (prof.mprofileCreate answer).1.stackHeap.mpsTop = prof.stackHeap.mpsTop := by
  have created : (mprofileCreateStset prof.stackHeap answer.stsetOk).1.mps = prof.stackHeap.mps ∧
      (mprofileCreateStset prof.stackHeap answer.stsetOk).1.mpsTop = prof.stackHeap.mpsTop := by
    unfold mprofileCreateStset
    split_ifs
    · exact ⟨rfl, rfl⟩
    · exact ⟨rfl, rfl⟩
  unfold Profiler.mprofileCreate
  simp only [if_pos granted]
  split_ifs
  · exact ⟨valid, Nat.succ_ne_zero _, created⟩
  · exact ⟨valid, Nat.succ_ne_zero _, created⟩

theorem getMprofile_profiled (valid : w.prof.mprofileTop ≠ 0) (profiled : Profiled w tid answer) :
    Exists fun found => w.prof.getMprofile tid answer = .ok found ∧
      found.1.mprofileTop ≠ 0 ∧ found.1.stackHeap.mps = w.prof.stackHeap.mps ∧
        found.1.stackHeap.mpsTop = w.prof.stackHeap.mpsTop := by
  rw [Profiler.getMprofile]
  by_cases unknown : w.prof.specific tid = 0
  · have granted : answer.createOk = true := profiled.resolve_left (not_not.mpr unknown)
    have created := mprofileCreate_valid valid granted
    rw [if_pos unknown]
    simp only [if_neg created.1]
    exact ⟨_, rfl, created.2⟩
  · rw [if_neg unknown]
    exact ⟨_, rfl, valid, rfl, rfl⟩

theorem getMprofile_unprofiled (unprofiled : ¬ Profiled w tid answer) :
    w.prof.getMprofile tid answer = .error .nullDereference := by
  rcases not_or.mp unprofiled with ⟨unknown, refused⟩
  have null : (w.prof.mprofileCreate answer).2 = 0 := by
    unfold Profiler.mprofileCreate
    rw [if_neg refused]
  rw [Profiler.getMprofile, if_pos (not_not.mp unknown)]
  simp only [if_pos null]

theorem freshBlock_congr {heap heap' : StackHeap} {block : Option (Int -> UInt64)}
    (mps : heap'.mps = heap.mps) (top : heap'.mpsTop = heap.mpsTop)
    (fresh : heap.freshBlock block) :
    heap'.freshBlock block := by
  cases block with
  | none => trivial
  | some words =>
      intro p below
      rw [mps]
      rw [top] at below
      exact fresh p below

theorem log_granted {prof : Profiler} (fresh : prof.stackHeap.freshBlock answer.copyBlock)
    (mp : Nat)
    (logged : Option MprofileRecord) (mps : Option MprofileStack) :
    Exists fun prof' => prof.log mp logged mps answer = .ok prof' ∧
      prof'.mprofileTop = prof.mprofileTop := by
  cases logged with
  | none => exact ⟨prof, rfl, rfl⟩
  | some mpr =>
      rw [Profiler.log]
      split_ifs
      · cases mps with
        | none => exact ⟨_, rfl, rfl⟩
        | some mps =>
            have sameHeap : forall mpr, (prof.enqueue mp mpr).stackHeap = prof.stackHeap :=
              fun _ => rfl
            rw [Profiler.append, Profiler.addStack, sameHeap, if_pos fresh]
            exact ⟨_, rfl, rfl⟩
      · exact ⟨prof, rfl, rfl⟩

/-- A call in mode 1. -/
theorem run_mode_stats (fuel : Nat) (modes : Family -> World) (step : ModeCall) :
    step.run fuel modes .stats =
      (step.call.measured (modes .stats).heap (step.answer .stats)).map (fun m =>
        (({ modes .stats with heap := m.heap, ms := (modes .stats).ms.count m.counted },
          [step.call.request]), m.rv)) := by
  rw [ModeCall.run, run_requests, run_hook_stats]
  cases step.call.measured (modes .stats).heap (step.answer .stats) with
  | error fault => rfl
  | ok m => rfl

/-- A call in a tracing mode whose heap is that of mode 1. -/
inductive TracedCase (modes : Family -> World) (step : ModeCall) (family : Family) :
    Except HookFault ((World × List LibcRequest) × UInt64) -> Prop where
  | unprofiled (lacking : ¬ Profiled (modes family) step.tid (step.answer family)) :
      TracedCase modes step family (.error .nullDereference)
  | failed (profiled : Profiled (modes family) step.tid (step.answer family)) (fault : HookFault)
      (same : step.call.measured (modes .stats).heap (step.answer .stats) = .error fault) :
      TracedCase modes step family (.error fault)
  | returned (profiled : Profiled (modes family) step.tid (step.answer family)) (m : MeasuredCall)
      (same : step.call.measured (modes .stats).heap (step.answer .stats) = .ok m) (w : World)
      (rv : UInt64) (heap : w.heap = m.heap) (valid : w.prof.mprofileTop ≠ 0)
      (alike : rv = m.rv ↔ step.call.AnsweredAlike (step.answer .stats).ptr) :
      TracedCase modes step family (.ok ((w, [step.call.request]), rv))

theorem tracedCase (traced : family ≠ .stats) (agree : HeapsAgree modes) (valid : ModesValid modes)
    (legal : LegalStep modes step) : TracedCase modes step family (step.run fuel modes family) := by
  rw [ModeCall.run, run_requests, run_hook_traced traced]
  by_cases profiled : Profiled (modes family) step.tid (step.answer family)
  · rcases getMprofile_profiled (valid family) profiled with ⟨found, isFound, validFound, mps, top⟩
    rw [isFound]
    simp only [ok_bind, Call.tracedRun]
    rw [agree family, traced_sameLibc (legal.libc family)]
    have effect := sameEffect (modes .stats).heap step.call (step.answer .stats)
    cases measured : step.call.measured (modes .stats).heap (step.answer .stats) with
    | error fault =>
        rw [measured] at effect
        cases done : step.call.traced (modes .stats).heap (step.answer .stats) with
        | error other =>
            rw [done] at effect
            have same : other = fault := effect
            rw [same]
            exact TracedCase.failed profiled fault measured
        | ok t => rw [done] at effect; exact effect.elim
    | ok m =>
        rw [measured] at effect
        cases done : step.call.traced (modes .stats).heap (step.answer .stats) with
        | error other => rw [done] at effect; exact effect.elim
        | ok t =>
            rw [done] at effect
            have fresh := freshBlock_congr mps top (legal.fresh family traced)
            rcases log_granted fresh found.2 t.logged
                (family.filed step.call (step.answer family)) with
              ⟨prof', logged, sameTop⟩
            simp only [ok_bind, logged]
            refine TracedCase.returned profiled m measured _ t.rv effect.1 ?_ effect.2
            rw [← sameTop] at validFound
            exact validFound
  · rw [getMprofile_unprofiled profiled]
    exact TracedCase.unprofiled profiled

theorem neutralStep_iff : NeutralStep modes step ↔
    step.call.AnsweredAlike (step.answer .stats).ptr ∧
      Profiled (modes .trace) step.tid (step.answer .trace) ∧
        Profiled (modes .traceWithStack) step.tid (step.answer .traceWithStack) := by
  constructor
  · intro neutral
    exact ⟨neutral.1, neutral.2 .trace (by decide), neutral.2 .traceWithStack (by decide)⟩
  · rintro ⟨alike, trace, withStack⟩
    refine ⟨alike, fun family traced => ?_⟩
    cases family with
    | stats => exact absurd rfl traced
    | trace => exact trace
    | traceWithStack => exact withStack

/-- What one call comes to, beside the result of mode 1. -/
def StepOutcome (modes : Family -> World) (step : ModeCall)
    (result : Except ModeStop (Family -> World)) :
    Prop :=
  (NeutralStep modes step ∧
      ((Exists fun f => result = .error (.fault f)) ∨
        Exists fun modes' => result = .ok modes' ∧ HeapsAgree modes' ∧ ModesValid modes')) ∨
    (¬ NeutralStep modes step ∧ result = .error .differs)

/-- One call: it is neutral, and the modes agree, or it is not, and they differ. -/
theorem nextModes_cases (fuel : Nat) (agree : HeapsAgree modes) (valid : ModesValid modes)
    (legal : LegalStep modes step) : StepOutcome modes step (nextModes fuel modes step) := by
  have trace : TracedCase modes step .trace (step.run fuel modes .trace) :=
    tracedCase (by decide) agree valid legal
  have withStack : TracedCase modes step .traceWithStack (step.run fuel modes .traceWithStack) :=
    tracedCase (by decide) agree valid legal
  rw [nextModes, run_mode_stats]
  generalize step.run fuel modes .trace = b at trace
  generalize step.run fuel modes .traceWithStack = c at withStack
  rw [StepOutcome, neutralStep_iff]
  cases measured : step.call.measured (modes .stats).heap (step.answer .stats) with
  | error fault =>
      have facts := (measured_fault measured legal.argument).resolve_left
        (fun notLibc => legal.allowed (by rw [measured, notLibc]))
      have other : HookFault.nullDereference ≠ fault := by
        rw [facts.1]
        decide
      cases trace with
      | unprofiled lacking =>
          refine Or.inr ⟨fun neutral => lacking neutral.2.1, ?_⟩
          cases withStack with
          | unprofiled _ => exact if_neg (fun same => other same.1)
          | failed _ _ _ => exact if_neg (fun same => other same.1)
          | returned _ _ _ _ _ _ _ _ => rfl
      | failed profiled f same =>
          cases withStack with
          | unprofiled lacking =>
              exact Or.inr ⟨fun neutral => lacking neutral.2.2, if_neg (fun same => other same.2)⟩
          | failed profiled' f' same' =>
              rw [measured] at same same'
              cases same
              cases same'
              exact Or.inl ⟨⟨facts.2, profiled, profiled'⟩, Or.inl ⟨fault, if_pos ⟨rfl, rfl⟩⟩⟩
          | returned _ m same' _ _ _ _ _ => rw [measured] at same'; cases same'
      | returned _ m same _ _ _ _ _ => rw [measured] at same; cases same
  | ok m =>
      cases trace with
      | unprofiled lacking => exact Or.inr ⟨fun neutral => lacking neutral.2.1, rfl⟩
      | failed _ f same => rw [measured] at same; cases same
      | returned profiled m' same w rv heap validTrace alike =>
          rw [measured] at same
          cases same
          cases withStack with
          | unprofiled lacking => exact Or.inr ⟨fun neutral => lacking neutral.2.2, rfl⟩
          | failed _ f same => rw [measured] at same; cases same
          | returned profiled' m'' same' w' rv' heap' validStack alike' =>
              rw [measured] at same'
              cases same'
              by_cases answered : step.call.AnsweredAlike (step.answer .stats).ptr
              · refine Or.inl ⟨⟨answered, profiled, profiled'⟩, Or.inr ⟨_,
                  if_pos ⟨⟨alike.mpr answered, alike'.mpr answered⟩, rfl, rfl⟩, fun family => ?_,
                  fun family => ?_⟩⟩
                · cases family with
                  | stats => rfl
                  | trace => exact heap
                  | traceWithStack => exact heap'
                · cases family with
                  | stats => exact valid .stats
                  | trace => exact validTrace
                  | traceWithStack => exact validStack
              · exact Or.inr ⟨fun neutral => answered neutral.1,
                  if_neg (fun same => answered (alike.mp same.1.1))⟩

/-- In a legal run the application sees the same in every mode exactly if every call
is neutral: a thread's profile can be created, and `realloc (b, 0)` gets null or the
block in front of `b`. -/
theorem seenAlike_iff (fuel : Nat) (modes : Family -> World) (agree : HeapsAgree modes)
    (valid : ModesValid modes) (steps : List ModeCall)
    (legal : Meets (nextModes fuel) LegalStep modes steps) :
    SeenAlike fuel modes steps ↔ Meets (nextModes fuel) NeutralStep modes steps := by
  induction steps generalizing modes with
  | nil =>
      exact ⟨fun _ => trivial, fun _ =>
          ⟨fun impossible => (by cases impossible), fun modes' same => by
        cases same; exact agree⟩⟩
  | cons step steps inductionHypothesis =>
      rw [SeenAlike, exec]
      rcases nextModes_cases fuel agree valid legal.1 with
        ⟨neutral, ⟨f, failed⟩ | ⟨modes', stepped, agree', valid'⟩⟩ | ⟨harmful, differs⟩
      · rw [failed]
        refine ⟨fun _ => ⟨neutral, fun modes' impossible => ?_⟩, fun _ => ⟨fun impossible => ?_,
          fun modes' impossible => ?_⟩⟩
        · rw [failed] at impossible
          cases impossible
        · cases impossible
        · cases impossible
      · have rest := inductionHypothesis modes' agree' valid' (legal.2 modes' stepped)
        rw [SeenAlike] at rest
        rw [stepped]
        simp only
        rw [rest]
        refine ⟨fun meets => ⟨neutral, fun other same => ?_⟩, fun meets => meets.2 modes' stepped⟩
        rw [stepped] at same
        cases same
        exact meets
      · rw [differs]
        exact ⟨fun alike => absurd rfl alike.1, fun meets => absurd meets.1 harmful⟩

end Steps

/-- A call of thread 0 that libc answers with this pointer in every mode. -/
def answeredCall (call : Call) (ptr : UInt64) : ModeCall := ⟨0, call, fun _ => answering ptr⟩

/-- No process has run a hook yet. -/
def newModes : Family -> World := fun _ => World.init

theorem legal_answeredCall {modes : Family -> World} {call : Call} {ptr sz : UInt64}
    (read : argumentSize (modes .stats).heap call.argument = .ok sz) {m : MeasuredCall}
    (measured : call.measured (modes .stats).heap (answering ptr) = .ok m) :
    LegalStep modes (answeredCall call ptr) := by
  refine ⟨⟨sz, read⟩, fun _ => ⟨rfl, rfl, rfl⟩, fun refused => ?_, fun _ _ => trivial⟩
  have same : call.measured (modes .stats).heap (answering ptr) = .error .notLibc := refused
  rw [measured] at same
  cases same

/-- A block is given back in one request, and libc answers with `ptr`. -/
def returnedBlock (ptr : UInt64) : List ModeCall :=
  [answeredCall (.malloc 8) 4096, answeredCall (.realloc 4112 0) ptr]

theorem legal_returnedBlock {ptr : UInt64} (isAnswer : ptr = 0 ∨ ptr = 8192) :
    Meets (nextModes 0) LegalStep newModes (returnedBlock ptr) := by
  refine ⟨legal_answeredCall rfl rfl, fun modes' stepped => ?_⟩
  cases stepped
  rcases isAnswer with rfl | rfl
  · exact ⟨legal_answeredCall rfl rfl, fun _ _ => trivial⟩
  · exact ⟨legal_answeredCall rfl rfl, fun _ _ => trivial⟩

theorem seenAlike_iff_returnedBlock :
    Exists fun modes' => exec (nextModes 0) newModes (returnedBlock 0) = .ok modes' ∧
      HeapsAgree modes' := by
  have neutral : Meets (nextModes 0) NeutralStep newModes (returnedBlock 0) := by
    refine ⟨⟨trivial, fun _ _ => Or.inr rfl⟩, fun modes' stepped => ?_⟩
    cases stepped
    exact ⟨⟨fun _ => Or.inl rfl, fun _ _ => Or.inr rfl⟩, fun _ _ => trivial⟩
  have alike := (seenAlike_iff 0 newModes (fun _ => rfl) (fun _ => Nat.one_ne_zero) _
    (legal_returnedBlock (Or.inl rfl))).mpr neutral
  exact ⟨_, rfl, alike.2 _ rfl⟩

/-- Mode 1 returns 8208, and the tracing modes return the released 4112. -/
theorem returnedBlock_differs :
    ¬ forall steps, Meets (nextModes 0) LegalStep newModes steps -> SeenAlike 0 newModes steps := by
  intro always
  exact (always _ (legal_returnedBlock (Or.inr rfl))).1 rfl

end Mprofile
end OsslScripts
