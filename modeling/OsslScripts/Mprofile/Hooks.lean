import OsslScripts.Mprofile.Process

namespace OsslScripts
namespace Mprofile

open Foundation

/-!
# The hooks

The memory functions that `init.c` installs, and the recording functions of
`record.c` which they call, as programs over the operations of the process.
The text follows the source.  A header that was just read or written is not
read again where the source does so without a write in between.
-/

/-- `(ssize_t)` of a `size_t` -/
def toSsize (size : UInt64) : Int := size.toInt64.toInt

/-! ## `record.c` -/

/-- `create_mprofile_record`.  The record is cleared; `mpr_state` has no meaning
until the caller sets it. -/
def createMprofileRecord : HookM (Option MprofileRecord) := do
  let ok ← perform .allocRecord
  if ok then
    let now ← perform .clockGettime
    return some { (default : MprofileRecord) with mprTs := now }
  else return none

/-- The last part of the recording functions: file the record under its stack. -/
def recordStack (mp mprId : Nat) (mps : Option MprofileStack) : HookM Unit :=
  match mps with
  | none => return ()
  | some mps => do
      let stackId ← perform (.addStack mp mps)
      perform (.setStackId mp mprId stackId)

/-- Draw the id of a complete record, append it, and file its stack. -/
def appendRecord (mp : Nat) (mpr : MprofileRecord) (mps : Option MprofileStack) : HookM Unit := do
  let mprId ← perform (.drawId mpr)
  perform (.insertTail mp { mpr with mprId := mprId })
  recordStack mp mprId mps

/-- `mprofile_record_alloc` -/
def mprofileRecordAlloc (mp : Nat) (buf bufSz : UInt64) (mps : Option MprofileStack) :
    HookM Unit := do
  match ← createMprofileRecord with
  | none => return ()
  | some mpr =>
      appendRecord mp { mpr with mprMem := buf, mprDelta := toSsize bufSz, mprState := .alloc } mps

/-- `mprofile_record_free` -/
def mprofileRecordFree (mp : Nat) (buf sz : UInt64) (mps : Option MprofileStack) :
    HookM Unit := do
  match ← createMprofileRecord with
  | none => return ()
  | some mpr =>
      appendRecord mp { mpr with mprMem := buf, mprState := .free, mprDelta := toSsize (sz * -1) }
        mps

/-- `mprofile_record_realloc` -/
def mprofileRecordRealloc (mp : Nat) (buf bufSz origSz oldBuf : UInt64)
    (mps : Option MprofileStack) : HookM Unit := do
  match ← createMprofileRecord with
  | none => return ()
  | some mpr =>
      appendRecord mp
        { mpr with
          mprMem := buf
          mprDelta := toSsize (bufSz - origSz)
          mprRealloc := oldBuf
          mprState := .realloc } mps

/-! ## `init.c` -/

/-- `get_mprofile` -/
def getMprofile (tid : Nat) : HookM Nat := do
  let mp ← perform (.getSpecific tid)
  if mp = 0 then
    let mp ← perform .mprofileCreate
    perform (.mprofileAdd mp)
    perform (.setSpecific tid mp)
    return mp
  else return mp

/-- `update_alloc` -/
def updateAlloc (delta : UInt64) : HookM Unit := do
  let current ← perform (.addFetch .current delta)
  let max ← perform .loadMax
  raisePeak ⟨current, max⟩

/-- `update_release` -/
def updateRelease (delta : UInt64) : HookM Unit := do
  let _ ← perform (.subFetch .current delta)
  return ()

/-- `(uint64_t)mh ^ sz` -/
def mkChk (mh sz : UInt64) : UInt64 := mh ^^^ sz

/-- Read the header in front of `b` and check it, or abort. -/
def checkMemhdr (b : UInt64) : HookM Memhdr := do
  let mh := b - sizeofMemhdr
  let hdr ← perform (.loadMemhdr mh)
  if mkChk mh hdr.mhSize ≠ hdr.mhChk then
    let impossible ← perform .abort
    return impossible.elim
  else return hdr

/-- `__atomic_add_fetch` whose result is not used -/
def addCounter (c : Counter) (delta : UInt64) : HookM Unit := do
  let _ ← perform (.addFetch c delta)
  return ()

/-- The `malloc` of the three hooks: take a block and write its header. -/
def mallocHeaded (sz : UInt64) : HookM UInt64 := do
  let mh ← perform (.libcMalloc (sz + sizeofMemhdr))
  if mh ≠ 0 then
    perform (.storeMemhdr mh ⟨sz, mkChk mh sz⟩)
    return mh + sizeofMemhdr
  else return 0

/-- `mp_CRYPTO_malloc_stats` -/
def mpCryptoMallocStats (sz : UInt64) : HookM UInt64 := do
  let mh ← perform (.libcMalloc (sz + sizeofMemhdr))
  if mh ≠ 0 then
    perform (.storeMemhdr mh ⟨sz, mkChk mh sz⟩)
    let rv := mh + sizeofMemhdr
    addCounter .allocs 1
    addCounter .totalAllocated sz
    updateAlloc sz
    return rv
  else return 0

/-- `mp_CRYPTO_free_stats` -/
def mpCryptoFreeStats (b : UInt64) : HookM Unit := do
  if b ≠ 0 then
    let mh := b - sizeofMemhdr
    let hdr ← checkMemhdr b
    addCounter .free 1
    addCounter .totalReleased hdr.mhSize
    updateRelease hdr.mhSize
    perform (.libcFree mh)
  else perform (.libcFree 0)

/-- `mp_CRYPTO_realloc_stats` after its `realloc` returned the block `mh`. -/
def reallocStatsTail (b sz : UInt64) (saveMh : Memhdr) (mh : UInt64) : HookM UInt64 := do
  if mh = 0 then return 0
  else if sz = 0 then return mh + sizeofMemhdr
  else
    let rv := mh + sizeofMemhdr
    perform (.storeMemhdr mh ⟨sz, mkChk mh sz⟩)
    if b = 0 then
      addCounter .allocs 1
      addCounter .totalAllocated sz
      updateAlloc sz
      return rv
    else
      addCounter .reallocs 1
      if saveMh.mhSize > sz then
        let delta := saveMh.mhSize - sz
        updateRelease delta
        addCounter .totalReleased delta
        return rv
      else
        let delta := sz - saveMh.mhSize
        addCounter .totalAllocated delta
        updateAlloc delta
        return rv

/-- The size that the `realloc` hooks ask libc for. -/
def reallocSize (sz : UInt64) : UInt64 := if sz ≠ 0 then sz + sizeofMemhdr else 0

/-- `mp_CRYPTO_realloc_stats` -/
def mpCryptoReallocStats (b sz : UInt64) : HookM UInt64 := do
  if b ≠ 0 then
    let saveMh ← checkMemhdr b
    if sz = 0 then
      addCounter .free 1
      addCounter .totalReleased saveMh.mhSize
      updateRelease saveMh.mhSize
    let mh ← perform (.libcRealloc (b - sizeofMemhdr) (reallocSize sz))
    reallocStatsTail b sz saveMh mh
  else
    let mh ← perform (.libcRealloc 0 (reallocSize sz))
    reallocStatsTail b sz default mh

/-- `mp_CRYPTO_malloc_trace` -/
def mpCryptoMallocTrace (tid : Nat) (sz : UInt64) : HookM UInt64 := do
  let mp ← getMprofile tid
  let rv ← mallocHeaded sz
  if mp ≠ 0 then mprofileRecordAlloc mp rv sz none
  return rv

/-- `mp_CRYPTO_free_trace` -/
def mpCryptoFreeTrace (tid : Nat) (b : UInt64) : HookM Unit := do
  let mp ← getMprofile tid
  if b ≠ 0 then
    let hdr ← checkMemhdr b
    if mp ≠ 0 then mprofileRecordFree mp b hdr.mhSize none
    perform (.libcFree (b - sizeofMemhdr))
  else
    if mp ≠ 0 then mprofileRecordFree mp b 0 none
    perform (.libcFree 0)

/-- The tracing `realloc` hooks after their `realloc` returned the block `mh`.
`collect` delivers the stack of the call, if there is one. -/
def reallocTraceTail (collect : HookM (Option MprofileStack)) (mp : Nat) (b sz : UInt64)
    (saveMh : Memhdr) (mh : UInt64) : HookM UInt64 := do
  if mh = 0 then return 0
  else if sz = 0 then return b
  else
    let mps ← collect
    let rv := mh + sizeofMemhdr
    if mp ≠ 0 then
      perform (.storeMemhdr mh ⟨sz, mkChk mh sz⟩)
      if b = 0 then mprofileRecordAlloc mp rv sz mps
      else mprofileRecordRealloc mp rv sz saveMh.mhSize b mps
    return rv

/-- The tracing `realloc` hooks.  `mps` is the stack as it is before the
backtrace is collected. -/
def reallocTraced (mp : Nat) (mps : Option MprofileStack) (collect : HookM (Option MprofileStack))
    (b sz : UInt64) : HookM UInt64 := do
  if b ≠ 0 then
    let saveMh ← checkMemhdr b
    if sz = 0 then mprofileRecordFree mp b saveMh.mhSize mps
    let mh ← perform (.libcRealloc (b - sizeofMemhdr) (reallocSize sz))
    reallocTraceTail collect mp b sz saveMh mh
  else
    if sz = 0 then mprofileRecordFree mp b 0 mps
    let mh ← perform (.libcRealloc 0 (reallocSize sz))
    reallocTraceTail collect mp b sz default mh

/-- `mp_CRYPTO_realloc_trace` -/
def mpCryptoReallocTrace (tid : Nat) (b sz : UInt64) : HookM UInt64 := do
  let mp ← getMprofile tid
  reallocTraced mp none (return none) b sz

/-- `sizeof (stack_buf)` -/
def sizeofStackBuf : Nat := 512

/-- `mprofile_init_stack` on the hook's `stack_buf` -/
def initStackBuf : HookM (Option MprofileStack) := do
  let (buf, around) ← perform .stackBuf
  return mprofileInitStack buf sizeofStackBuf around

/-- `collect_backtrace`: push the frames in the order they are delivered.  A
null stack takes none. -/
def collectBacktrace (mps : Option MprofileStack) : HookM (Option MprofileStack) := do
  let frames ← perform .backtrace
  return mps.map (fun mps => frames.foldl mprofilePushFrame mps)

/-- `mp_CRYPTO_malloc_trace_with_stack` -/
def mpCryptoMallocTraceWithStack (tid : Nat) (sz : UInt64) : HookM UInt64 := do
  let mp ← getMprofile tid
  let mps ← initStackBuf
  let rv ← mallocHeaded sz
  let mps ← collectBacktrace mps
  if mp ≠ 0 then mprofileRecordAlloc mp rv sz mps
  return rv

/-- `mp_CRYPTO_free_trace_with_stack` -/
def mpCryptoFreeTraceWithStack (tid : Nat) (b : UInt64) : HookM Unit := do
  let mp ← getMprofile tid
  let mps ← initStackBuf
  let mps ← collectBacktrace mps
  if b ≠ 0 then
    let hdr ← checkMemhdr b
    if mp ≠ 0 then mprofileRecordFree mp b hdr.mhSize mps
    perform (.libcFree (b - sizeofMemhdr))
  else
    if mp ≠ 0 then mprofileRecordFree mp b 0 mps
    perform (.libcFree 0)

/-- `mp_CRYPTO_realloc_trace_with_stack` -/
def mpCryptoReallocTraceWithStack (tid : Nat) (b sz : UInt64) : HookM UInt64 := do
  let mp ← getMprofile tid
  let mps ← initStackBuf
  reallocTraced mp mps (collectBacktrace mps) b sz

/-! ## The hook families -/

/-- The hooks that `mprofile_start` may install. -/
inductive Family where
  | stats
  | trace
  | traceWithStack
deriving DecidableEq, Repr

/-- A call of a memory function by the application. -/
inductive Call where
  | malloc (sz : UInt64)
  | free (b : UInt64)
  | realloc (b sz : UInt64)
deriving DecidableEq, Repr

/-- The program of a call in thread `tid`.  `free` returns nothing, which is 0 here. -/
def hook (family : Family) (tid : Nat) : Call -> HookM UInt64
  | .malloc sz =>
      match family with
      | .stats => mpCryptoMallocStats sz
      | .trace => mpCryptoMallocTrace tid sz
      | .traceWithStack => mpCryptoMallocTraceWithStack tid sz
  | .free b => do
      match family with
      | .stats => mpCryptoFreeStats b
      | .trace => mpCryptoFreeTrace tid b
      | .traceWithStack => mpCryptoFreeTraceWithStack tid b
      return 0
  | .realloc b sz =>
      match family with
      | .stats => mpCryptoReallocStats b sz
      | .trace => mpCryptoReallocTrace tid b sz
      | .traceWithStack => mpCryptoReallocTraceWithStack tid b sz

/-- The two threads of the sample runs. -/
def threadA : Fin 2 := 0

def threadB : Fin 2 := 1

end Mprofile
end OsslScripts
