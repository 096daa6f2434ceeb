import OsslScripts.Mprofile.Hooks

namespace OsslScripts
namespace Mprofile

open Foundation

/-!
# Hook calls one at a time

What a hook does when no other thread runs in the meantime.  The effect of a
call on libc's heap and its return value do not depend on the profiler, so they
are described apart from what is counted or logged.  `run_hook_traced` and
`run_hook_stats` say that running the program of a hook comes to just that.
-/

/-- Write a header at the start of a live block. -/
def storeHeader (heap : UInt64 -> Option Block) (p : UInt64) (hdr : Memhdr) :
    Except HookFault (UInt64 -> Option Block) :=
  match heap p, memhdrAt heap p with
  | some block, some _ => .ok (Function.update heap p (some { block with hdr := hdr }))
  | _, _ => .error .wildHeader

/-- The header in front of `b`, if it checks. -/
def loadHeader (heap : UInt64 -> Option Block) (b : UInt64) : Except HookFault Memhdr :=
  match memhdrAt heap (b - sizeofMemhdr) with
  | none => .error .wildHeader
  | some hdr => if mkChk (b - sizeofMemhdr) hdr.mhSize ≠ hdr.mhChk then .error .aborted else .ok hdr

/-- The size of the argument of a call, 0 for the null pointer. -/
def argumentSize (heap : UInt64 -> Option Block) (b : UInt64) : Except HookFault UInt64 :=
  if b ≠ 0 then (loadHeader heap b).map Memhdr.mhSize else .ok 0

/-- The block of the argument of a call. -/
def argumentBlock (b : UInt64) : UInt64 := if b ≠ 0 then b - sizeofMemhdr else 0

/-! ## The tracing hooks -/

/-- What a tracing hook did to the heap, what it returned, and what it logs. -/
structure TracedCall where
  heap : UInt64 -> Option Block
  rv : UInt64
  logged : Option MprofileRecord

/-- The record of a `malloc`, up to its id and its time. -/
def allocRecord (buf bufSz : UInt64) : MprofileRecord :=
  { (default : MprofileRecord) with mprMem := buf, mprDelta := toSsize bufSz, mprState := .alloc }

def freeRecord (buf sz : UInt64) : MprofileRecord :=
  { (default : MprofileRecord) with
    mprMem := buf, mprState := .free, mprDelta := toSsize (sz * -1) }

def reallocRecord (buf bufSz origSz oldBuf : UInt64) : MprofileRecord :=
  { (default : MprofileRecord) with
    mprMem := buf
    mprDelta := toSsize (bufSz - origSz)
    mprRealloc := oldBuf
    mprState := .realloc }

/-- A call of a tracing hook. -/
def Call.traced (call : Call) (heap : UInt64 -> Option Block) (answer : Answer) :
    Except HookFault TracedCall :=
  match call with
  | .malloc sz => do
      let taken ← Libc.malloc heap (sz + sizeofMemhdr) answer
      if taken.2 = 0 then return ⟨taken.1, 0, some (allocRecord 0 sz)⟩
      else
        let heap ← storeHeader taken.1 taken.2 ⟨sz, mkChk taken.2 sz⟩
        let rv := taken.2 + sizeofMemhdr
        return ⟨heap, rv, some (allocRecord rv sz)⟩
  | .free b => do
      let sz ← argumentSize heap b
      let heap ← Libc.free heap (argumentBlock b)
      return ⟨heap, 0, some (freeRecord b sz)⟩
  | .realloc b sz => do
      let origSz ← argumentSize heap b
      let taken ← Libc.realloc heap (argumentBlock b) (reallocSize sz) answer
      if sz = 0 then return ⟨taken.1, if taken.2 = 0 then 0 else b, some (freeRecord b origSz)⟩
      else if taken.2 = 0 then return ⟨taken.1, 0, none⟩
      else
        let heap ← storeHeader taken.1 taken.2 ⟨sz, mkChk taken.2 sz⟩
        let rv := taken.2 + sizeofMemhdr
        return ⟨heap, rv,
          some (if b = 0 then allocRecord rv sz else reallocRecord rv sz origSz b)⟩

/-- The profiler and the profile of the thread after `get_mprofile`. -/
def Profiler.getMprofile (prof : Profiler) (tid : Nat) (answer : Answer) :
    Except HookFault (Profiler × Nat) :=
  if prof.specific tid = 0 then
    let created := prof.mprofileCreate answer
    if created.2 = 0 then .error .nullDereference
    else .ok ({ created.1 with
        profiles := created.1.profiles ++ [created.2]
        specific := Function.update created.1.specific tid created.2 }, created.2)
  else .ok (prof, prof.specific tid)

/-- Add a stack to the set of a profile: the profiler, and the id of the stack. -/
def Profiler.addStack (prof : Profiler) (mp : Nat) (mps : MprofileStack) (answer : Answer) :
    Except HookFault (Profiler × Nat) :=
  if prof.stackHeap.freshBlock answer.copyBlock then
    let added := mprofileAddStack prof.stackHeap (prof.mprofile mp).mpStset mps answer.copyBlock
    .ok ({ prof with stackHeap := added.1 }, mprofileGetStackId added.1 added.2)
  else .error .notLibc

/-- Append a record under the next id. -/
def Profiler.enqueue (prof : Profiler) (mp : Nat) (mpr : MprofileRecord) : Profiler :=
  { prof with mprId := prof.mprId + 1 }.insertTail mp { mpr with mprId := prof.mprId + 1 }

/-- Append a record, and file it under its stack. -/
def Profiler.append (prof : Profiler) (mp : Nat) (mpr : MprofileRecord) (mps : Option MprofileStack)
    (answer : Answer) : Except HookFault Profiler :=
  match mps with
  | none => .ok (prof.enqueue mp mpr)
  | some mps => do
      let added ← (prof.enqueue mp mpr).addStack mp mps answer
      return added.1.setStackId mp (prof.mprId + 1) added.2

/-- Log a record, if there is one and the memory for it is granted. -/
def Profiler.log (prof : Profiler) (mp : Nat) (logged : Option MprofileRecord)
    (mps : Option MprofileStack) (answer : Answer) : Except HookFault Profiler :=
  match logged with
  | none => .ok prof
  | some mpr =>
      if answer.recordOk then prof.append mp { mpr with mprTs := answer.now } mps answer
      else .ok prof

/-- The stack in a hook's buffer before the backtrace is collected. -/
def Answer.emptyStack (answer : Answer) : Option MprofileStack :=
  mprofileInitStack answer.stackBuf sizeofStackBuf answer.around

/-- The stack in a hook's buffer after the backtrace is collected. -/
def Answer.fullStack (answer : Answer) : Option MprofileStack :=
  answer.emptyStack.map (fun mps => answer.backtrace.foldl mprofilePushFrame mps)

/-- The stack that a call is filed under. -/
def Family.filed (family : Family) (call : Call) (answer : Answer) : Option MprofileStack :=
  match family, call with
  | .traceWithStack, .realloc _ sz => if sz = 0 then answer.emptyStack else answer.fullStack
  | .traceWithStack, _ => answer.fullStack
  | _, _ => none

/-! ## The counting hooks -/

/-- What a counting hook adds to the counters. -/
inductive Counted where
  | nothing
  | alloc (sz : UInt64)
  | free (sz : UInt64)
  | realloc (origSz sz : UInt64)
deriving DecidableEq, Repr

/-- `update_alloc` when no other thread runs. -/
def Memstats.updateAlloc (ms : Memstats) (delta : UInt64) : Memstats :=
  { ms with
    msCurrent := ms.msCurrent + delta
    msMax := if ms.msMax < ms.msCurrent + delta then ms.msCurrent + delta else ms.msMax }

def Memstats.updateRelease (ms : Memstats) (delta : UInt64) : Memstats :=
  { ms with msCurrent := ms.msCurrent - delta }

def Memstats.count (ms : Memstats) : Counted -> Memstats
  | .nothing => ms
  | .alloc sz =>
      { ms with
        msAllocs := ms.msAllocs + 1, msTotalAllocated := ms.msTotalAllocated + sz }.updateAlloc sz
  | .free sz =>
      { ms with msFree := ms.msFree + 1, msTotalReleased := ms.msTotalReleased + sz }.updateRelease
        sz
  | .realloc origSz sz =>
      if origSz > sz then
        { ms with
          msReallocs := ms.msReallocs + 1
          msTotalReleased := ms.msTotalReleased + (origSz - sz) }.updateRelease (origSz - sz)
      else
        { ms with
          msReallocs := ms.msReallocs + 1
          msTotalAllocated := ms.msTotalAllocated + (sz - origSz) }.updateAlloc (sz - origSz)

/-- What a counting hook did to the heap, what it returned, and what it counts. -/
structure MeasuredCall where
  heap : UInt64 -> Option Block
  rv : UInt64
  counted : Counted

/-- A call of a counting hook. -/
def Call.measured (call : Call) (heap : UInt64 -> Option Block) (answer : Answer) :
    Except HookFault MeasuredCall :=
  match call with
  | .malloc sz => do
      let taken ← Libc.malloc heap (sz + sizeofMemhdr) answer
      if taken.2 = 0 then return ⟨taken.1, 0, .nothing⟩
      else
        let heap ← storeHeader taken.1 taken.2 ⟨sz, mkChk taken.2 sz⟩
        return ⟨heap, taken.2 + sizeofMemhdr, .alloc sz⟩
  | .free b => do
      let sz ← argumentSize heap b
      let heap ← Libc.free heap (argumentBlock b)
      return ⟨heap, 0, if b = 0 then .nothing else .free sz⟩
  | .realloc b sz => do
      let origSz ← argumentSize heap b
      let taken ← Libc.realloc heap (argumentBlock b) (reallocSize sz) answer
      if sz = 0 then
        return ⟨taken.1, if taken.2 = 0 then 0 else taken.2 + sizeofMemhdr,
          if b = 0 then .nothing else .free origSz⟩
      else if taken.2 = 0 then return ⟨taken.1, 0, .nothing⟩
      else
        let heap ← storeHeader taken.1 taken.2 ⟨sz, mkChk taken.2 sz⟩
        return ⟨heap, taken.2 + sizeofMemhdr, if b = 0 then .alloc sz else .realloc origSz sz⟩

/-! ## The programs -/

section Runs

variable {fuel : Nat} {answer : Answer} {α β : Type} {w : World}

@[simp] theorem ok_bind {ε : Type} (value : α) (rest : α -> Except ε β) :
    ((Except.ok value : Except ε α) >>= rest) = rest value := rfl

@[simp] theorem error_bind {ε : Type} (fault : ε) (rest : α -> Except ε β) :
    ((Except.error fault : Except ε α) >>= rest) = .error fault := rfl

@[simp] theorem pure_ok {ε : Type} (value : α) : (pure value : Except ε α) = .ok value := rfl

/-- The rest of a program runs on what its first operation leaves. -/
theorem run_perform (o : HookOp) (rest : o.Res -> HookM β) (w : World) :
    hookMachine.run fuel answer (perform o >>= rest) w =
      (do let result ← o.exec answer w
          hookMachine.run fuel answer (rest result.2) result.1) := by
  rw [perform, Prog.bind_def, Prog.op_bind, Machine.run_op]
  have same : hookMachine.exec o answer w = o.exec answer w := rfl
  rw [same]
  cases o.exec answer w with
  | error fault => rfl
  | ok result => rfl

theorem run_performed (o : HookOp) (w : World) :
    hookMachine.run fuel answer (perform o) w = o.exec answer w := by
  rw [perform, Machine.run_op]
  have same : hookMachine.exec o answer w = o.exec answer w := rfl
  rw [same]
  cases o.exec answer w with
  | error fault => rfl
  | ok result => rfl

theorem run_then (program : HookM α) (rest : α -> HookM β) (w : World) :
    hookMachine.run fuel answer (program >>= rest) w =
      (do let result ← hookMachine.run fuel answer program w
          hookMachine.run fuel answer (rest result.2) result.1) := by
  rw [Prog.bind_def, Machine.run_bind]
  cases hookMachine.run fuel answer program w with
  | error fault => rfl
  | ok result => rfl

theorem run_getMprofile (tid : Nat) (w : World) :
    hookMachine.run fuel answer (getMprofile tid) w =
      (do let found ← w.prof.getMprofile tid answer
          return ({ w with prof := found.1 }, found.2)) := by
  unfold getMprofile Profiler.getMprofile
  rw [run_perform]
  change hookMachine.run fuel answer (if w.prof.specific tid = 0 then _ else _) w = _
  by_cases known : w.prof.specific tid = 0
  · rw [if_pos known, if_pos known, run_perform]
    change hookMachine.run fuel answer
      (perform (.mprofileAdd (w.prof.mprofileCreate answer).2) >>= _)
      { w with prof := (w.prof.mprofileCreate answer).1 } = _
    rw [run_perform, HookOp.exec]
    by_cases null : (w.prof.mprofileCreate answer).2 = 0
    · rw [if_pos null]
      simp only [if_pos null]
      rfl
    · rw [if_neg null]
      simp only [if_neg null]
      rfl
  · rw [if_neg known, if_neg known]
    rfl

theorem run_checkMemhdr (b : UInt64) (w : World) :
    hookMachine.run fuel answer (checkMemhdr b) w =
      (do let hdr ← loadHeader w.heap b
          return (w, hdr)) := by
  unfold checkMemhdr loadHeader
  rw [run_perform, HookOp.exec]
  cases found : memhdrAt w.heap (b - sizeofMemhdr) with
  | none => rfl
  | some hdr =>
      change hookMachine.run fuel answer (if _ then _ else _) w = _
      by_cases corrupt : mkChk (b - sizeofMemhdr) hdr.mhSize ≠ hdr.mhChk
      · rw [if_pos corrupt]
        simp only [if_pos corrupt]
        rfl
      · rw [if_neg corrupt]
        simp only [if_neg corrupt]
        rfl

theorem run_storeMemhdr (p : UInt64) (hdr : Memhdr) (w : World) :
    (HookOp.storeMemhdr p hdr).exec answer w =
      (do let heap ← storeHeader w.heap p hdr
          return ({ w with heap := heap }, ())) := by
  rw [HookOp.exec, storeHeader]
  generalize memhdrAt w.heap p = header
  cases w.heap p with
  | none => rfl
  | some block => cases header <;> rfl

theorem run_libcMalloc (size : UInt64) (w : World) :
    (HookOp.libcMalloc size).exec answer w =
      (do let taken ← Libc.malloc w.heap size answer
          return ({ w with heap := taken.1 }, taken.2)) := by
  rw [HookOp.exec]
  cases Libc.malloc w.heap size answer with
  | error fault => rfl
  | ok taken => rfl

theorem run_libcRealloc (p size : UInt64) (w : World) :
    (HookOp.libcRealloc p size).exec answer w =
      (do let taken ← Libc.realloc w.heap p size answer
          return ({ w with heap := taken.1 }, taken.2)) := by
  rw [HookOp.exec]
  cases Libc.realloc w.heap p size answer with
  | error fault => rfl
  | ok taken => rfl

theorem run_libcFree (p : UInt64) (w : World) :
    (HookOp.libcFree p).exec answer w =
      (do let heap ← Libc.free w.heap p
          return ({ w with heap := heap }, ())) := by
  rw [HookOp.exec]
  cases Libc.free w.heap p with
  | error fault => rfl
  | ok heap => rfl

theorem run_addStack (mp : Nat) (mps : MprofileStack) (w : World) :
    (HookOp.addStack mp mps).exec answer w =
      (do let added ← w.prof.addStack mp mps answer
          return ({ w with prof := added.1 }, added.2)) := by
  rw [HookOp.exec, Profiler.addStack]
  split_ifs
  · rfl
  · rfl

theorem run_appendRecord {mp : Nat} (profiled : mp ≠ 0) (mpr : MprofileRecord)
    (mps : Option MprofileStack) (w : World) :
    hookMachine.run fuel answer (appendRecord mp mpr mps) w =
      (do let prof ← w.prof.append mp mpr mps answer
          return ({ w with prof := prof }, ())) := by
  unfold appendRecord
  rw [run_perform, HookOp.exec]
  change hookMachine.run fuel answer (perform (.insertTail mp _) >>= _)
    { w with prof := { w.prof with mprId := w.prof.mprId + 1 } } = _
  rw [run_perform, HookOp.exec, if_neg profiled]
  cases mps with
  | none => rfl
  | some mps =>
      change hookMachine.run fuel answer (perform (.addStack mp mps) >>= _)
        { w with prof := w.prof.enqueue mp mpr } = _
      rw [run_perform, run_addStack, Profiler.append]
      cases (w.prof.enqueue mp mpr).addStack mp mps answer with
      | error fault => rfl
      | ok added => rfl

theorem run_createMprofileRecord (w : World) :
    hookMachine.run fuel answer createMprofileRecord w =
      .ok (w, if answer.recordOk then some { (default : MprofileRecord) with mprTs := answer.now }
        else none) := by
  unfold createMprofileRecord
  rw [run_perform, HookOp.exec]
  change hookMachine.run fuel answer (if answer.recordOk then _ else _) w = _
  by_cases granted : answer.recordOk = true
  · rw [if_pos granted, if_pos granted]
    rfl
  · rw [if_neg granted, if_neg granted]
    rfl

/-- The recording functions differ in how they fill the record. -/
theorem run_record {mp : Nat} (profiled : mp ≠ 0) (fill : MprofileRecord -> MprofileRecord)
    (filled : forall now, fill { (default : MprofileRecord) with mprTs := now } =
      { fill default with mprTs := now }) (mps : Option MprofileStack) (w : World) :
    hookMachine.run fuel answer (createMprofileRecord >>= fun created => match created with
        | none => return ()
        | some mpr => appendRecord mp (fill mpr) mps) w =
      (do let prof ← w.prof.log mp (some (fill default)) mps answer
          return ({ w with prof := prof }, ())) := by
  rw [run_then, run_createMprofileRecord, Profiler.log]
  by_cases granted : answer.recordOk = true
  · simp only [if_pos granted]
    rw [← filled]
    exact run_appendRecord profiled _ mps w
  · simp only [if_neg granted]
    rfl

theorem run_mprofileRecordAlloc {mp : Nat} (profiled : mp ≠ 0) (buf bufSz : UInt64)
    (mps : Option MprofileStack) (w : World) :
    hookMachine.run fuel answer (mprofileRecordAlloc mp buf bufSz mps) w =
      (do let prof ← w.prof.log mp (some (allocRecord buf bufSz)) mps answer
          return ({ w with prof := prof }, ())) :=
  run_record profiled
    (fun mpr => { mpr with mprMem := buf, mprDelta := toSsize bufSz, mprState := .alloc })
    (fun _ => rfl) mps w

theorem run_mprofileRecordFree {mp : Nat} (profiled : mp ≠ 0) (buf sz : UInt64)
    (mps : Option MprofileStack) (w : World) :
    hookMachine.run fuel answer (mprofileRecordFree mp buf sz mps) w =
      (do let prof ← w.prof.log mp (some (freeRecord buf sz)) mps answer
          return ({ w with prof := prof }, ())) :=
  run_record profiled
    (fun mpr => { mpr with mprMem := buf, mprState := .free, mprDelta := toSsize (sz * -1) })
    (fun _ => rfl) mps w

theorem run_mprofileRecordRealloc {mp : Nat} (profiled : mp ≠ 0) (buf bufSz origSz oldBuf : UInt64)
    (mps : Option MprofileStack) (w : World) :
    hookMachine.run fuel answer (mprofileRecordRealloc mp buf bufSz origSz oldBuf mps) w =
      (do let prof ← w.prof.log mp (some (reallocRecord buf bufSz origSz oldBuf)) mps answer
          return ({ w with prof := prof }, ())) :=
  run_record profiled
    (fun mpr => { mpr with
      mprMem := buf
      mprDelta := toSsize (bufSz - origSz)
      mprRealloc := oldBuf
      mprState := .realloc })
    (fun _ => rfl) mps w

theorem run_initStackBuf (w : World) :
    hookMachine.run fuel answer initStackBuf w = .ok (w, answer.emptyStack) := rfl

theorem run_collectBacktrace (mps : Option MprofileStack) (w : World) :
    hookMachine.run fuel answer (collectBacktrace mps) w =
      .ok (w, mps.map (fun mps => answer.backtrace.foldl mprofilePushFrame mps)) := rfl

/-! ### The tracing hooks -/

/-- A hook that has its profile: it does what the call does, and logs it. -/
def Call.tracedRun (call : Call) (mp : Nat) (mps : Option MprofileStack) (answer : Answer)
    (w : World) :
    Except HookFault (World × UInt64) := do
  let out ← call.traced w.heap answer
  let prof ← w.prof.log mp out.logged mps answer
  return ({ w with heap := out.heap, prof := prof }, out.rv)

theorem run_mallocTraced {mp : Nat} {mps : Option MprofileStack} {sz : UInt64}
    {rest : UInt64 -> HookM UInt64}
    (logs : forall rv w, hookMachine.run fuel answer (rest rv) w =
      (do let prof ← w.prof.log mp (some (allocRecord rv sz)) mps answer
          return ({ w with prof := prof }, rv))) (w : World) :
    hookMachine.run fuel answer (mallocHeaded sz >>= rest) w =
      (Call.malloc sz).tracedRun mp mps answer w := by
  rw [mallocHeaded, Call.tracedRun, Call.traced, run_then, run_perform, run_libcMalloc]
  cases Libc.malloc w.heap (sz + sizeofMemhdr) answer with
  | error fault => rfl
  | ok taken =>
      change (hookMachine.run fuel answer (if taken.2 ≠ 0 then _ else _)
          { w with heap := taken.1 } >>= _) = ((if taken.2 = 0 then _ else _) >>= _)
      by_cases null : taken.2 = 0
      · rw [if_neg (not_not.mpr null), if_pos null]
        exact logs 0 _
      · rw [if_pos null, if_neg null, run_perform, run_storeMemhdr]
        cases storeHeader taken.1 taken.2 ⟨sz, mkChk taken.2 sz⟩ with
        | error fault => rfl
        | ok heap => exact logs _ _

theorem run_recordMalloc {mp : Nat} (profiled : mp ≠ 0) (sz : UInt64)
    (mps : Option MprofileStack) (rv : UInt64) (w : World) :
    hookMachine.run fuel answer (do if mp ≠ 0 then mprofileRecordAlloc mp rv sz mps
                                    return rv) w =
      (do let prof ← w.prof.log mp (some (allocRecord rv sz)) mps answer
          return ({ w with prof := prof }, rv)) := by
  rw [if_pos profiled, run_then, run_mprofileRecordAlloc profiled]
  cases w.prof.log mp (some (allocRecord rv sz)) mps answer with
  | error fault => rfl
  | ok prof => rfl

/-- The argument whose header was read is a live block. -/
theorem live_of_argumentSize {heap : UInt64 -> Option Block} {b sz : UInt64}
    (read : argumentSize heap b = .ok sz) : argumentBlock b ≠ 0 ->
      heap (argumentBlock b) ≠ none := by
  intro isBlock
  have isPointer : b ≠ 0 := by
    intro null
    exact isBlock (if_neg (not_not.mpr null))
  have behind : argumentBlock b = b - sizeofMemhdr := if_pos isPointer
  rw [argumentSize, if_pos isPointer, loadHeader, ← behind, memhdrAt] at read
  intro none
  rw [none] at read
  cases read

/-- A block whose header was read can be released. -/
theorem free_of_argumentSize {heap : UInt64 -> Option Block} {b sz : UInt64}
    (read : argumentSize heap b = .ok sz) :
    Exists fun heap' => Libc.free heap (argumentBlock b) = .ok heap' := by
  unfold Libc.free
  by_cases noBlock : argumentBlock b = 0
  · rw [if_pos noBlock]
    exact ⟨heap, rfl⟩
  · rw [if_neg noBlock]
    cases found : heap (argumentBlock b) with
    | none => exact absurd found (live_of_argumentSize read noBlock)
    | some block => exact ⟨_, rfl⟩

theorem run_freeTraced {mp : Nat} (profiled : mp ≠ 0) (b : UInt64) (mps : Option MprofileStack)
    (w : World) :
    hookMachine.run fuel answer (do
        if b ≠ 0 then
          let hdr ← checkMemhdr b
          if mp ≠ 0 then mprofileRecordFree mp b hdr.mhSize mps
          perform (.libcFree (b - sizeofMemhdr))
        else
          if mp ≠ 0 then mprofileRecordFree mp b 0 mps
          perform (.libcFree 0)) w =
      (do let out ← (Call.free b).tracedRun mp mps answer w
          return (out.1, ())) := by
  have released : forall sz, argumentSize w.heap b = .ok sz ->
      hookMachine.run fuel answer
        (mprofileRecordFree mp b sz mps >>= fun _ => perform (.libcFree (argumentBlock b))) w =
      (do let out ← (Call.free b).tracedRun mp mps answer w
          return (out.1, ())) := by
    intro sz read
    rcases free_of_argumentSize read with ⟨heap, freed⟩
    rw [Call.tracedRun, Call.traced, read, run_then, run_mprofileRecordFree profiled]
    simp only [ok_bind, pure_ok, freed]
    cases w.prof.log mp (some (freeRecord b sz)) mps answer with
    | error fault => rfl
    | ok prof =>
        simp only [ok_bind]
        rw [run_performed, run_libcFree]
        simp only [freed]
        rfl
  by_cases null : b = 0
  · rw [if_neg (not_not.mpr null), if_pos profiled]
    have noBlock : argumentBlock b = 0 := if_neg (not_not.mpr null)
    have read : argumentSize w.heap b = .ok 0 := if_neg (not_not.mpr null)
    have result := released 0 read
    rw [noBlock] at result
    exact result
  · rw [if_pos null, run_then, run_checkMemhdr]
    have isBlock : argumentBlock b = b - sizeofMemhdr := if_pos null
    have read : argumentSize w.heap b = (loadHeader w.heap b).map Memhdr.mhSize := if_pos null
    cases loaded : loadHeader w.heap b with
    | error fault =>
        rw [loaded] at read
        rw [Call.tracedRun, Call.traced, read]
        rfl
    | ok hdr =>
        rw [loaded] at read
        have result := released hdr.mhSize read
        rw [isBlock] at result
        simp only [ok_bind, if_pos profiled]
        exact result

theorem log_fault {prof : Profiler} {mp : Nat} {logged : Option MprofileRecord}
    {mps : Option MprofileStack} {fault : HookFault}
    (failed : prof.log mp logged mps answer = .error fault) : fault = .notLibc := by
  cases logged with
  | none => cases failed
  | some mpr =>
      rw [Profiler.log] at failed
      split_ifs at failed
      cases mps with
      | none => cases failed
      | some mps =>
          rw [Profiler.append, Profiler.addStack] at failed
          split_ifs at failed
          · cases failed
          · exact (Except.error.inj failed).symm

/-- The tracing `realloc` hooks from the answer of libc on. -/
theorem run_reallocTraceTail {mp : Nat} (profiled : mp ≠ 0) {collect : HookM (Option MprofileStack)}
    {full : Option MprofileStack}
    (collects : forall w, hookMachine.run fuel answer collect w = .ok (w, full))
    {b sz : UInt64} (isSize : sz ≠ 0) (saveMh : Memhdr) (mh : UInt64) (w : World) :
    hookMachine.run fuel answer (reallocTraceTail collect mp b sz saveMh mh) w =
      if mh = 0 then .ok (w, 0)
      else do
        let heap ← storeHeader w.heap mh ⟨sz, mkChk mh sz⟩
        let rv := mh + sizeofMemhdr
        let prof ← w.prof.log mp
          (some (if b = 0 then allocRecord rv sz else reallocRecord rv sz saveMh.mhSize b))
            full answer
        return ({ w with heap := heap, prof := prof }, rv) := by
  rw [reallocTraceTail]
  by_cases null : mh = 0
  · rw [if_pos null, if_pos null]
    rfl
  · rw [if_neg null, if_neg isSize, if_neg null, run_then, collects]
    simp only [ok_bind, if_pos profiled]
    rw [run_perform, run_storeMemhdr]
    cases storeHeader w.heap mh ⟨sz, mkChk mh sz⟩ with
    | error fault => rfl
    | ok heap =>
        simp only [ok_bind, pure_ok]
        by_cases fromNull : b = 0
        · simp only [if_pos fromNull]
          rw [run_then, run_mprofileRecordAlloc profiled]
          generalize Profiler.log _ mp _ full answer = logged
          cases logged <;> rfl
        · simp only [if_neg fromNull]
          rw [run_then, run_mprofileRecordRealloc profiled]
          generalize Profiler.log _ mp _ full answer = logged
          cases logged <;> rfl

theorem run_reallocRequest {mp : Nat} (profiled : mp ≠ 0) (mps : Option MprofileStack)
    {full : Option MprofileStack} {collect : HookM (Option MprofileStack)}
    (collects : forall w, hookMachine.run fuel answer collect w = .ok (w, full))
    {b : UInt64} (sz : UInt64) (saveMh : Memhdr) (w : World)
    (read : argumentSize w.heap b = .ok saveMh.mhSize) :
    hookMachine.run fuel answer (do
        if sz = 0 then mprofileRecordFree mp b saveMh.mhSize mps
        let mh ← perform (.libcRealloc (argumentBlock b) (reallocSize sz))
        reallocTraceTail collect mp b sz saveMh mh) w =
      (Call.realloc b sz).tracedRun mp (if sz = 0 then mps else full) answer w := by
  rw [Call.tracedRun, Call.traced, read]
  simp only [ok_bind]
  by_cases zeroSize : sz = 0
  · simp only [if_pos zeroSize]
    rw [run_then, run_mprofileRecordFree profiled]
    have request : reallocSize sz = 0 := if_neg (not_not.mpr zeroSize)
    rw [request]
    cases taken : Libc.realloc w.heap (argumentBlock b) 0 answer with
    | error fault =>
        cases logged : w.prof.log mp (some (freeRecord b saveMh.mhSize)) mps answer with
        | error other =>
            rw [log_fault logged, realloc_fault (live_of_argumentSize read) taken]
            rfl
        | ok prof =>
            simp only [ok_bind, pure_ok]
            rw [run_perform, run_libcRealloc]
            simp only [taken]
            rfl
    | ok taken' =>
        simp only [ok_bind, pure_ok]
        cases w.prof.log mp (some (freeRecord b saveMh.mhSize)) mps answer with
        | error fault => rfl
        | ok prof =>
            simp only [ok_bind]
            rw [run_perform, run_libcRealloc]
            simp only [taken, ok_bind, pure_ok]
            rw [reallocTraceTail]
            split_ifs
            · rfl
            · rfl
  · simp only [if_neg zeroSize]
    rw [run_perform, run_libcRealloc]
    cases Libc.realloc w.heap (argumentBlock b) (reallocSize sz) answer with
    | error fault => rfl
    | ok taken =>
        simp only [ok_bind, pure_ok]
        rw [run_reallocTraceTail profiled collects zeroSize]
        by_cases null : taken.2 = 0
        · rw [if_pos null, if_pos null]
          rfl
        · rw [if_neg null, if_neg null]
          simp only
          cases storeHeader taken.1 taken.2 ⟨sz, mkChk taken.2 sz⟩ with
          | error fault => rfl
          | ok heap => rfl

theorem run_reallocTraced {mp : Nat} (profiled : mp ≠ 0) (mps : Option MprofileStack)
    {full : Option MprofileStack} {collect : HookM (Option MprofileStack)}
    (collects : forall w, hookMachine.run fuel answer collect w = .ok (w, full)) (b sz : UInt64)
    (w : World) :
    hookMachine.run fuel answer (reallocTraced mp mps collect b sz) w =
      (Call.realloc b sz).tracedRun mp (if sz = 0 then mps else full) answer w := by
  rw [reallocTraced]
  by_cases null : b = 0
  · rw [if_neg (not_not.mpr null)]
    have noBlock : argumentBlock b = 0 := if_neg (not_not.mpr null)
    have result := run_reallocRequest profiled mps collects sz default w
      (if_neg (not_not.mpr null))
    rw [noBlock] at result
    exact result
  · rw [if_pos null, run_then, run_checkMemhdr]
    have isBlock : argumentBlock b = b - sizeofMemhdr := if_pos null
    have read : argumentSize w.heap b = (loadHeader w.heap b).map Memhdr.mhSize := if_pos null
    cases loaded : loadHeader w.heap b with
    | error fault =>
        rw [loaded] at read
        rw [Call.tracedRun, Call.traced, read]
        rfl
    | ok hdr =>
        rw [loaded] at read
        have result := run_reallocRequest profiled mps collects sz hdr w read
        rw [isBlock] at result
        exact result

theorem getMprofile_ne_zero {prof : Profiler} {tid : Nat} {found : Profiler × Nat}
    (isFound : prof.getMprofile tid answer = .ok found) : found.2 ≠ 0 := by
  unfold Profiler.getMprofile at isFound
  by_cases unknown : prof.specific tid = 0
  · rw [if_pos unknown] at isFound
    simp only at isFound
    split_ifs at isFound with null
    cases isFound
    exact null
  · rw [if_neg unknown] at isFound
    cases isFound
    exact unknown

/-- The hooks go on with the profile of their thread. -/
theorem run_withProfile {tid : Nat} {rest : Nat -> HookM β}
    (goal : Nat -> World -> Except HookFault (World × β))
    (runs : forall mp w, mp ≠ 0 -> hookMachine.run fuel answer (rest mp) w = goal mp w)
    (w : World) :
    hookMachine.run fuel answer (getMprofile tid >>= rest) w =
      (do let found ← w.prof.getMprofile tid answer
          goal found.2 { w with prof := found.1 }) := by
  rw [run_then, run_getMprofile]
  cases isFound : w.prof.getMprofile tid answer with
  | error fault => rfl
  | ok found => exact runs found.2 _ (getMprofile_ne_zero isFound)

/-- `free` returns nothing. -/
theorem tracedRun_free (b : UInt64) (mp : Nat) (mps : Option MprofileStack) (w : World) :
    (do let out ← (Call.free b).tracedRun mp mps answer w
        return (out.1, (0 : UInt64))) = (Call.free b).tracedRun mp mps answer w := by
  rw [Call.tracedRun, Call.traced]
  cases argumentSize w.heap b with
  | error fault => rfl
  | ok sz =>
      simp only [ok_bind]
      cases Libc.free w.heap (argumentBlock b) with
      | error fault => rfl
      | ok heap =>
          simp only [ok_bind, pure_ok]
          cases w.prof.log mp (some (freeRecord b sz)) mps answer with
          | error fault => rfl
          | ok prof => rfl

/-- A tracing hook finds the profile of its thread, does what the call does, and logs it. -/
theorem run_hook_traced {family : Family} (traced : family ≠ .stats) (tid : Nat) (call : Call)
    (w : World) :
    hookMachine.run fuel answer (hook family tid call) w =
      (do let found ← w.prof.getMprofile tid answer
          call.tracedRun found.2 (family.filed call answer) answer { w with prof := found.1 }) := by
  cases call with
  | malloc sz =>
      cases family with
      | stats => exact absurd rfl traced
      | trace =>
          exact run_withProfile (fun mp => (Call.malloc sz).tracedRun mp none answer)
            (fun mp w profiled =>
              run_mallocTraced (fun rv w => run_recordMalloc profiled sz none rv w) w) w
      | traceWithStack =>
          refine run_withProfile (fun mp => (Call.malloc sz).tracedRun mp answer.fullStack answer)
            (fun mp w profiled => ?_) w
          rw [run_then, run_initStackBuf]
          refine run_mallocTraced (fun rv w => ?_) w
          rw [run_then, run_collectBacktrace]
          exact run_recordMalloc profiled sz _ rv w
  | free b =>
      have returned : forall (program : HookM Unit) mps,
          (hookMachine.run fuel answer program w =
            (do let found ← w.prof.getMprofile tid answer
                let out ← (Call.free b).tracedRun found.2 mps answer { w with prof := found.1 }
                return (out.1, ()))) ->
          hookMachine.run fuel answer (program >>= fun _ => return (0 : UInt64)) w =
            (do let found ← w.prof.getMprofile tid answer
                (Call.free b).tracedRun found.2 mps answer { w with prof := found.1 }) := by
        intro program mps runs
        rw [run_then, runs]
        cases w.prof.getMprofile tid answer with
        | error fault => rfl
        | ok found =>
            simp only [ok_bind]
            rw [← tracedRun_free]
            cases (Call.free b).tracedRun found.2 mps answer { w with prof := found.1 } with
            | error fault => rfl
            | ok out => rfl
      cases family with
      | stats => exact absurd rfl traced
      | trace =>
          exact returned (mpCryptoFreeTrace tid b) none
            (run_withProfile _ (fun mp w profiled => run_freeTraced profiled b none w) w)
      | traceWithStack =>
          refine returned (mpCryptoFreeTraceWithStack tid b) answer.fullStack
            (run_withProfile (fun mp w => do
              let out ← (Call.free b).tracedRun mp answer.fullStack answer w
              return (out.1, ())) (fun mp w profiled => ?_) w)
          rw [run_then, run_initStackBuf]
          simp only [ok_bind]
          rw [run_then, run_collectBacktrace]
          exact run_freeTraced profiled b _ w
  | realloc b sz =>
      cases family with
      | stats => exact absurd rfl traced
      | trace =>
          refine run_withProfile (fun mp => (Call.realloc b sz).tracedRun mp none answer)
            (fun mp w profiled => ?_) w
          have collects : forall w : World, hookMachine.run fuel answer (return none) w =
              .ok (w, (none : Option MprofileStack)) := fun _ => rfl
          have result := run_reallocTraced profiled none collects b sz w
          rw [ite_self] at result
          exact result
      | traceWithStack =>
          refine run_withProfile (fun mp => (Call.realloc b sz).tracedRun mp
            (if sz = 0 then answer.emptyStack else answer.fullStack) answer)
            (fun mp w profiled => ?_) w
          rw [run_then, run_initStackBuf]
          exact run_reallocTraced profiled _ (fun w => rfl) b sz w

/-! ### The counting hooks -/

theorem spinRun_leave {l : PeakLoop} (done : ¬ l.max < l.current) (w : World) :
    hookMachine.spinRun fuel l w = some w := by
  have test : hookMachine.again l = false := decide_eq_false done
  cases fuel with
  | zero => rw [Machine.spinRun, test]; rfl
  | succ fuel => rw [Machine.spinRun, test]; rfl

theorem spinRun_iterate {l : PeakLoop} (raises : l.max < l.current) (w : World) :
    hookMachine.spinRun (fuel + 1) l w =
      hookMachine.spinRun fuel (comparePeak l w).2 (comparePeak l w).1 := by
  have test : hookMachine.again l = true := decide_eq_true raises
  rw [Machine.spinRun, test]
  rfl

/-- The loop of `update_alloc` sets the maximum in its first iteration, and learns
of it in its second one. -/
theorem spinRun_raisePeak {l : PeakLoop} {w : World} (loaded : w.ms.msMax = l.max) :
    hookMachine.spinRun (fuel + 2) l w =
      some { w with ms := { w.ms with
        msMax := if w.ms.msMax < l.current then l.current else w.ms.msMax } } := by
  by_cases raises : l.max < l.current
  · have set : comparePeak l w = ({ w with ms := { w.ms with msMax := l.current } }, l) :=
      if_pos loaded
    have learn : comparePeak l { w with ms := { w.ms with msMax := l.current } } =
        ({ w with ms := { w.ms with msMax := l.current } }, { l with max := l.current }) :=
      if_neg (UInt64.ne_of_lt raises).symm
    rw [spinRun_iterate raises, set, spinRun_iterate raises, learn,
      spinRun_leave (UInt64.lt_irrefl l.current), loaded, if_pos raises]
  · rw [spinRun_leave raises, loaded, if_neg raises, ← loaded]

theorem run_updateAlloc (delta : UInt64) (w : World) :
    hookMachine.run (fuel + 2) answer (updateAlloc delta) w =
      .ok ({ w with ms := w.ms.updateAlloc delta }, ()) := by
  rw [updateAlloc, run_perform, HookOp.exec]
  simp only [ok_bind]
  rw [run_perform, HookOp.exec]
  simp only [ok_bind]
  rw [raisePeak, Machine.run, spinRun_raisePeak rfl]
  rfl

theorem run_addCounter (c : Counter) (delta : UInt64) (w : World) :
    hookMachine.run fuel answer (addCounter c delta) w =
      .ok ({ w with ms := w.ms.set c (w.ms.get c + delta) }, ()) := rfl

theorem run_updateRelease (delta : UInt64) (w : World) :
    hookMachine.run fuel answer (updateRelease delta) w =
      .ok ({ w with ms := w.ms.updateRelease delta }, ()) := rfl

/-- A counting hook that has taken its block. -/
theorem run_countAlloc (sz rv : UInt64) (w : World) :
    hookMachine.run (fuel + 2) answer (do
        addCounter .allocs 1
        addCounter .totalAllocated sz
        updateAlloc sz
        return rv) w =
      .ok ({ w with ms := w.ms.count (.alloc sz) }, rv) := by
  rw [run_then, run_addCounter]
  simp only [ok_bind]
  rw [run_then, run_addCounter]
  simp only [ok_bind]
  rw [run_then, run_updateAlloc]
  rfl

theorem run_countFree (sz : UInt64) (rest : HookM β) (w : World) :
    hookMachine.run fuel answer (do
        addCounter .free 1
        addCounter .totalReleased sz
        updateRelease sz
        rest) w =
      hookMachine.run fuel answer rest { w with ms := w.ms.count (.free sz) } := by
  rw [run_then, run_addCounter]
  simp only [ok_bind]
  rw [run_then, run_addCounter]
  simp only [ok_bind]
  rw [run_then, run_updateRelease]
  rfl

theorem run_reallocStatsTail (b : UInt64) {sz : UInt64} (isSize : sz ≠ 0) (saveMh : Memhdr)
    (mh : UInt64)
    (w : World) :
    hookMachine.run (fuel + 2) answer (reallocStatsTail b sz saveMh mh) w =
      if mh = 0 then .ok (w, 0)
      else do
        let heap ← storeHeader w.heap mh ⟨sz, mkChk mh sz⟩
        let counted := if b = 0 then .alloc sz else .realloc saveMh.mhSize sz
        return ({ w with heap := heap, ms := w.ms.count counted }, mh + sizeofMemhdr) := by
  rw [reallocStatsTail]
  by_cases null : mh = 0
  · rw [if_pos null, if_pos null]
    rfl
  · rw [if_neg null, if_neg isSize, if_neg null, run_perform, run_storeMemhdr]
    cases storeHeader w.heap mh ⟨sz, mkChk mh sz⟩ with
    | error fault => rfl
    | ok heap =>
        simp only [ok_bind, pure_ok]
        by_cases fromNull : b = 0
        · rw [if_pos fromNull, if_pos fromNull]
          exact run_countAlloc sz _ _
        · rw [if_neg fromNull, if_neg fromNull, run_then, run_addCounter]
          simp only [ok_bind, Memstats.count]
          by_cases shrinks : saveMh.mhSize > sz
          · rw [if_pos shrinks, if_pos shrinks]
            rfl
          · rw [if_neg shrinks, if_neg shrinks, run_then, run_addCounter]
            simp only [ok_bind]
            rw [run_then, run_updateAlloc]
            rfl

theorem run_reallocStatsRequest (fuel : Nat) (answer : Answer) {b : UInt64} (sz : UInt64)
    (saveMh : Memhdr) (w : World) (read : argumentSize w.heap b = .ok saveMh.mhSize) :
    hookMachine.run (fuel + 2) answer (do
        let mh ← perform (.libcRealloc (argumentBlock b) (reallocSize sz))
        reallocStatsTail b sz saveMh mh)
        (if sz = 0 ∧ b ≠ 0 then { w with ms := w.ms.count (.free saveMh.mhSize) } else w) =
      (do let out ← (Call.realloc b sz).measured w.heap answer
          return ({ w with heap := out.heap, ms := w.ms.count out.counted }, out.rv)) := by
  rw [Call.measured, read, run_perform, run_libcRealloc]
  simp only [ok_bind, pure_ok]
  have sameHeap : (if sz = 0 ∧ b ≠ 0 then { w with ms := w.ms.count (.free saveMh.mhSize) }
        else w).heap = w.heap := by
    split_ifs
    · rfl
    · rfl
  rw [sameHeap]
  cases Libc.realloc w.heap (argumentBlock b) (reallocSize sz) answer with
  | error fault => rfl
  | ok taken =>
      simp only [ok_bind]
      by_cases zeroSize : sz = 0
      · simp only [zeroSize, true_and, reallocStatsTail]
        by_cases fromNull : b = 0
        · simp only [fromNull, ne_eq, not_true_eq_false, if_false, if_true]
          split_ifs
          · rfl
          · rfl
        · simp only [fromNull, ne_eq, not_false_eq_true, if_false, if_true]
          split_ifs
          · rfl
          · rfl
      · rw [if_neg (fun both => zeroSize both.1), if_neg zeroSize, run_reallocStatsTail b zeroSize]
        by_cases null : taken.2 = 0
        · rw [if_pos null, if_pos null]
          rfl
        · rw [if_neg null, if_neg null]
          cases storeHeader taken.1 taken.2 ⟨sz, mkChk taken.2 sz⟩ with
          | error fault => rfl
          | ok heap => rfl

theorem run_mpCryptoMallocStats (sz : UInt64) (w : World) :
    hookMachine.run (fuel + 2) answer (mpCryptoMallocStats sz) w =
      (do let out ← (Call.malloc sz).measured w.heap answer
          return ({ w with heap := out.heap, ms := w.ms.count out.counted }, out.rv)) := by
  rw [mpCryptoMallocStats, Call.measured, run_perform, run_libcMalloc]
  cases Libc.malloc w.heap (sz + sizeofMemhdr) answer with
  | error fault => rfl
  | ok taken =>
      simp only [ok_bind, pure_ok]
      by_cases null : taken.2 = 0
      · rw [if_neg (not_not.mpr null), if_pos null]
        rfl
      · rw [if_pos null, if_neg null, run_perform, run_storeMemhdr]
        cases storeHeader taken.1 taken.2 ⟨sz, mkChk taken.2 sz⟩ with
        | error fault => rfl
        | ok heap => exact run_countAlloc sz _ _

theorem run_mpCryptoFreeStats (b : UInt64) (w : World) :
    hookMachine.run fuel answer (mpCryptoFreeStats b >>= fun _ => return (0 : UInt64)) w =
      (do let out ← (Call.free b).measured w.heap answer
          return ({ w with heap := out.heap, ms := w.ms.count out.counted }, out.rv)) := by
  rw [mpCryptoFreeStats, Call.measured]
  by_cases null : b = 0
  · have noBlock : argumentBlock b = 0 := if_neg (not_not.mpr null)
    have read : argumentSize w.heap b = .ok 0 := if_neg (not_not.mpr null)
    rw [if_neg (not_not.mpr null), read, noBlock, run_perform, run_libcFree]
    simp only [ok_bind, if_pos null]
    rfl
  · have isBlock : argumentBlock b = b - sizeofMemhdr := if_pos null
    have read : argumentSize w.heap b = (loadHeader w.heap b).map Memhdr.mhSize := if_pos null
    rw [if_pos null, run_then]
    simp only [if_neg null]
    rw [run_then, run_checkMemhdr]
    cases loaded : loadHeader w.heap b with
    | error fault =>
        rw [loaded] at read
        rw [read]
        rfl
    | ok hdr =>
        rw [loaded] at read
        have parts : argumentSize w.heap b = .ok hdr.mhSize := read
        rcases free_of_argumentSize parts with ⟨heap, freed⟩
        rw [parts]
        simp only [ok_bind, pure_ok, freed]
        rw [run_countFree, run_performed, run_libcFree, ← isBlock]
        simp only [freed]
        rfl

/-- A counting hook does what the call does, and counts it. -/
theorem run_hook_stats (tid : Nat) (call : Call) (w : World) :
    hookMachine.run (fuel + 2) answer (hook .stats tid call) w =
      (do let out ← call.measured w.heap answer
          return ({ w with heap := out.heap, ms := w.ms.count out.counted }, out.rv)) := by
  cases call with
  | malloc sz => exact run_mpCryptoMallocStats sz w
  | free b => exact run_mpCryptoFreeStats b w
  | realloc b sz =>
      change hookMachine.run (fuel + 2) answer (mpCryptoReallocStats b sz) w = _
      rw [mpCryptoReallocStats]
      by_cases null : b = 0
      · have noBlock : argumentBlock b = 0 := if_neg (not_not.mpr null)
        rw [if_neg (not_not.mpr null), ← noBlock,
          ← run_reallocStatsRequest fuel answer sz default w (if_neg (not_not.mpr null)),
          if_neg (fun both => both.2 null)]
      · have isBlock : argumentBlock b = b - sizeofMemhdr := if_pos null
        have read : argumentSize w.heap b = (loadHeader w.heap b).map Memhdr.mhSize := if_pos null
        rw [if_pos null, run_then, run_checkMemhdr]
        cases loaded : loadHeader w.heap b with
        | error fault =>
            rw [loaded] at read
            rw [Call.measured, read]
            rfl
        | ok hdr =>
            rw [loaded] at read
            have result := run_reallocStatsRequest fuel answer sz hdr w read
            simp only [ok_bind, pure_ok] at result ⊢
            rw [← isBlock]
            by_cases zeroSize : sz = 0
            · rw [if_pos ⟨zeroSize, null⟩] at result
              rw [if_pos zeroSize, run_countFree]
              exact result
            · rw [if_neg (fun both => zeroSize both.1)] at result
              rw [if_neg zeroSize]
              exact result

end Runs

end Mprofile
end OsslScripts
