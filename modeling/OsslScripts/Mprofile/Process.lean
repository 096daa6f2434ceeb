import OsslScripts.Foundation.Program
import OsslScripts.Mprofile.Record
import OsslScripts.Mprofile.Stack

namespace OsslScripts
namespace Mprofile

open Foundation

/-!
# The process

The state that the hooks work on, and their operations: the heap of libc, the
counters of mode 1, and the profiles of the tracing modes.

A libc block is named by its address and holds its size and its first 16 bytes,
which is where the hooks keep `struct memhdr`.  Reading or writing a header
where there is no block, or a block that is too short, is a fault.  The answers
of libc are arguments; `exec` rejects an answer which the C standard does not
allow.  The memory that the profiler itself takes from libc is kept apart from
the application's blocks, and only whether these requests succeed is modelled.

An operation is silent when no other thread can tell when it happens.  Headers
belong to the caller of the hook, and a profile to its thread.
-/

/-- `struct memhdr` -/
structure Memhdr where
  mhSize : UInt64
  mhChk : UInt64
deriving DecidableEq, Repr, Inhabited

/-- `sizeof (struct memhdr)` -/
def sizeofMemhdr : UInt64 := 16

/-- A live block of libc: its size in bytes, and its first 16 bytes. -/
structure Block where
  size : Nat
  hdr : Memhdr
deriving DecidableEq, Repr

/-- The counters of `struct memstats`. -/
structure Memstats where
  msTotalAllocated : UInt64
  msTotalReleased : UInt64
  msReallocs : UInt64
  msAllocs : UInt64
  msFree : UInt64
  msMax : UInt64
  msCurrent : UInt64
deriving DecidableEq, Repr

/-- `struct mprofile` -/
structure Profile where
  mpTqhead : List MprofileRecord
  mpStset : Nat
deriving DecidableEq, Repr

/-- The static state of `record.c`, and the profile that `pthread_getspecific`
finds for each thread.  Profiles are named by handles, `0` being null. -/
structure Profiler where
  mprId : Nat
  startTimeTv : Timespec
  mprofile : Nat -> Profile
  mprofileTop : Nat
  profiles : List Nat
  specific : Nat -> Nat
  stackHeap : StackHeap

structure World where
  heap : UInt64 -> Option Block
  ms : Memstats
  prof : Profiler

/-- The process before its first hook call. -/
def World.init : World where
  heap := fun _ => none
  ms := ⟨0, 0, 0, 0, 0, 0, 0⟩
  prof := ⟨0, ⟨0, 0⟩, fun _ => ⟨[], 0⟩, 1, [], fun _ => 0, .empty⟩

inductive Counter where
  | totalAllocated
  | totalReleased
  | reallocs
  | allocs
  | free
  | current
deriving DecidableEq, Repr

def Memstats.get (ms : Memstats) : Counter -> UInt64
  | .totalAllocated => ms.msTotalAllocated
  | .totalReleased => ms.msTotalReleased
  | .reallocs => ms.msReallocs
  | .allocs => ms.msAllocs
  | .free => ms.msFree
  | .current => ms.msCurrent

def Memstats.set (ms : Memstats) (c : Counter) (value : UInt64) : Memstats :=
  match c with
  | .totalAllocated => { ms with msTotalAllocated := value }
  | .totalReleased => { ms with msTotalReleased := value }
  | .reallocs => { ms with msReallocs := value }
  | .allocs => { ms with msAllocs := value }
  | .free => { ms with msFree := value }
  | .current => { ms with msCurrent := value }

/-- What the environment decides during one step of a hook. -/
structure Answer where
  /-- What the allocation function of libc returns, `0` for a failure. -/
  ptr : UInt64
  /-- The first 16 bytes of a fresh block. -/
  junk : Memhdr
  /-- `realloc (p, 0)` that returns null may leave `p` alone. -/
  keep : Bool
  /-- Whether the requests of `mprofile_create`, `mprofile_create_stset` and
  `create_mprofile_record` succeed. -/
  createOk : Bool
  stsetOk : Bool
  recordOk : Bool
  /-- The block for a copy of a stack, if there is one. -/
  copyBlock : Option (Int -> UInt64)
  startTime : Timespec
  now : Timespec
  /-- The hook's `stack_buf`: its address, and the words around the frames in it. -/
  stackBuf : UInt64
  around : Int -> UInt64
  /-- The frames that the unwinder delivers, innermost first. -/
  backtrace : List UInt64

/-- An answer of libc, with everything that the profiler asks for granted. -/
def answering (ptr : UInt64) : Answer :=
  ⟨ptr, ⟨0, 0⟩, false, true, true, true, none, ⟨1, 0⟩, ⟨1, 0⟩, 0, fun _ => 0, []⟩

/-- The operations of the hooks. -/
inductive HookOp where
  | libcMalloc (size : UInt64)
  | libcFree (p : UInt64)
  | libcRealloc (p size : UInt64)
  | loadMemhdr (p : UInt64)
  | storeMemhdr (p : UInt64) (hdr : Memhdr)
  /-- `abort ()` on a header that does not check. -/
  | abort
  /-- `__atomic_add_fetch` -/
  | addFetch (c : Counter) (delta : UInt64)
  /-- `__atomic_sub_fetch` -/
  | subFetch (c : Counter) (delta : UInt64)
  /-- `__atomic_load_n (&ms.ms_max)` -/
  | loadMax
  | getSpecific (tid : Nat)
  | setSpecific (tid mp : Nat)
  /-- `mprofile_create` -/
  | mprofileCreate
  /-- `mprofile_add` -/
  | mprofileAdd (mp : Nat)
  /-- The `malloc` of `create_mprofile_record` -/
  | allocRecord
  | clockGettime
  /-- `atomic_add_long_nv (&mpr_id, 1)` for this record -/
  | drawId (mpr : MprofileRecord)
  /-- `TAILQ_INSERT_TAIL (&mp->mp_tqhead, mpr)` -/
  | insertTail (mp : Nat) (mpr : MprofileRecord)
  /-- `mprofile_add_stack` on the profile's set, and the id of the result -/
  | addStack (mp : Nat) (mps : MprofileStack)
  /-- `mpr->mpr_stack_id = id` for the record with this id -/
  | setStackId (mp mprId stackId : Nat)
  /-- The buffer on the hook's stack -/
  | stackBuf
  /-- `_Unwind_Backtrace`, or the loop over `unw_step` -/
  | backtrace

abbrev HookOp.Res : HookOp -> Type
  | .libcMalloc _ => UInt64
  | .libcFree _ => Unit
  | .libcRealloc _ _ => UInt64
  | .loadMemhdr _ => Memhdr
  | .storeMemhdr _ _ => Unit
  | .abort => Empty
  | .addFetch _ _ => UInt64
  | .subFetch _ _ => UInt64
  | .loadMax => UInt64
  | .getSpecific _ => Nat
  | .setSpecific _ _ => Unit
  | .mprofileCreate => Nat
  | .mprofileAdd _ => Unit
  | .allocRecord => Bool
  | .clockGettime => Timespec
  | .drawId _ => Nat
  | .insertTail _ _ => Unit
  | .addStack _ _ => Nat
  | .setStackId _ _ _ => Unit
  | .stackBuf => UInt64 × (Int -> UInt64)
  | .backtrace => List UInt64

/-- Why a hook does not return. -/
inductive HookFault where
  /-- The answer is none that libc may give. -/
  | notLibc
  /-- A header is accessed outside of a live block. -/
  | wildHeader
  /-- `free` or `realloc` of an address that is no live block. -/
  | wildPointer
  /-- `memory corruption detected` -/
  | aborted
  | nullDereference
  /-- The loop of `update_alloc` outlives its fuel in a sequential run. -/
  | stuck
deriving DecidableEq, Repr

/-! ## libc -/

/-- A block may be placed at this address. -/
def fits (heap : UInt64 -> Option Block) (p : UInt64) (size : Nat) : Prop :=
  p ≠ 0 ∧ heap p = none ∧ p.toNat + size < 2 ^ 64

instance (heap : UInt64 -> Option Block) (p : UInt64) (size : Nat) : Decidable (fits heap p size) :=
  inferInstanceAs (Decidable (_ ∧ _))

/-- `malloc` -/
def Libc.malloc (heap : UInt64 -> Option Block) (size : UInt64) (answer : Answer) :
    Except HookFault ((UInt64 -> Option Block) × UInt64) :=
  if answer.ptr = 0 then .ok (heap, 0)
  else if fits heap answer.ptr size.toNat then
    .ok (Function.update heap answer.ptr (some ⟨size.toNat, answer.junk⟩), answer.ptr)
  else .error .notLibc

/-- `free` -/
def Libc.free (heap : UInt64 -> Option Block) (p : UInt64) :
    Except HookFault (UInt64 -> Option Block) :=
  if p = 0 then .ok heap
  else match heap p with
    | none => .error .wildPointer
    | some _ => .ok (Function.update heap p none)

/-- `realloc`.  With size 0 it releases the block and returns null or a pointer
to a fresh block, or it returns null and leaves the block alone.  With another
size the block stays as it is and null is returned, or it is resized where it
is or at a free address, keeping its first bytes. -/
def Libc.realloc (heap : UInt64 -> Option Block) (p size : UInt64) (answer : Answer) :
    Except HookFault ((UInt64 -> Option Block) × UInt64) :=
  if p = 0 then Libc.malloc heap size answer
  else match heap p with
    | none => .error .wildPointer
    | some block =>
        if size = 0 then
          if answer.ptr = 0 ∧ answer.keep then .ok (heap, 0)
          else Libc.malloc (Function.update heap p none) size answer
        else if answer.ptr = 0 then .ok (heap, 0)
        else if fits (Function.update heap p none) answer.ptr size.toNat then
          .ok (Function.update (Function.update heap p none) answer.ptr
            (some { block with size := size.toNat }), answer.ptr)
        else .error .notLibc

/-- `malloc` goes wrong in the model only if its answer is none that libc may give. -/
theorem malloc_fault {heap : UInt64 -> Option Block} {size : UInt64} {answer : Answer}
    {fault : HookFault} (failed : Libc.malloc heap size answer = .error fault) :
    fault = .notLibc := by
  unfold Libc.malloc at failed
  split_ifs at failed
  cases failed
  rfl

theorem realloc_fault {heap : UInt64 -> Option Block} {p size : UInt64} {answer : Answer}
    {fault : HookFault} (live : p ≠ 0 -> heap p ≠ none)
    (failed : Libc.realloc heap p size answer = .error fault) :
    fault = .notLibc := by
  unfold Libc.realloc at failed
  by_cases null : p = 0
  · rw [if_pos null] at failed
    exact malloc_fault failed
  · rw [if_neg null] at failed
    cases found : heap p with
    | none => exact absurd found (live null)
    | some block =>
        simp only [found] at failed
        split_ifs at failed
        · exact malloc_fault failed
        · cases failed
          rfl

/-- The pointer that libc returns is the one of its answer. -/
theorem malloc_result {heap heap' : UInt64 -> Option Block} {size p : UInt64}
    {answer : Answer} (answered : Libc.malloc heap size answer = .ok (heap', p)) :
    p = answer.ptr := by
  unfold Libc.malloc at answered
  split_ifs at answered with null
  · cases answered
    exact null.symm
  · cases answered
    rfl

theorem realloc_result {heap heap' : UInt64 -> Option Block} {p size q : UInt64}
    {answer : Answer} (answered : Libc.realloc heap p size answer = .ok (heap', q)) :
    q = answer.ptr := by
  unfold Libc.realloc at answered
  by_cases null : p = 0
  · rw [if_pos null] at answered
    exact malloc_result answered
  · rw [if_neg null] at answered
    cases found : heap p with
    | none => rw [found] at answered; cases answered
    | some block =>
        rw [found] at answered
        simp only at answered
        split_ifs at answered with zeroSize kept failed
        · cases answered
          exact kept.1.symm
        · exact malloc_result answered
        · cases answered
          exact failed.symm
        · cases answered
          rfl

/-- The header at the start of a live block. -/
def memhdrAt (heap : UInt64 -> Option Block) (p : UInt64) : Option Memhdr :=
  match heap p with
  | none => none
  | some block => if sizeofMemhdr.toNat ≤ block.size then some block.hdr else none

/-! ## The profiler -/

def Profiler.setMprofile (prof : Profiler) (mp : Nat) (profile : Profile) : Profiler :=
  { prof with mprofile := Function.update prof.mprofile mp profile }

/-- `mprofile_create` -/
def Profiler.mprofileCreate (prof : Profiler) (answer : Answer) : Profiler × Nat :=
  let prof :=
    if prof.startTimeTv.tvSec = 0 then { prof with startTimeTv := answer.startTime } else prof
  if answer.createOk then
    let created := mprofileCreateStset prof.stackHeap answer.stsetOk
    let mp := prof.mprofileTop
    ({ prof.setMprofile mp ⟨[], created.2⟩ with mprofileTop := mp + 1, stackHeap := created.1 }, mp)
  else (prof, 0)

/-- Append a record to a profile. -/
def Profiler.insertTail (prof : Profiler) (mp : Nat) (mpr : MprofileRecord) : Profiler :=
  prof.setMprofile mp
    { prof.mprofile mp with mpTqhead := (prof.mprofile mp).mpTqhead ++ [mpr] }

/-- Give a record of a profile its stack id. -/
def Profiler.setStackId (prof : Profiler) (mp mprId stackId : Nat) : Profiler :=
  prof.setMprofile mp
    { prof.mprofile mp with
      mpTqhead := (prof.mprofile mp).mpTqhead.map
        (fun mpr => if mpr.mprId = mprId then { mpr with mprStackId := stackId } else mpr) }

/-- Live objects have different addresses, so a new block is none of the arrays in use. -/
def StackHeap.freshBlock (heap : StackHeap) : Option (Int -> UInt64) -> Prop
  | none => True
  | some words => forall p, p < heap.mpsTop -> (heap.mps p).mpsStack (-1) ≠ words (-1)

instance (heap : StackHeap) : (block : Option (Int -> UInt64)) -> Decidable (heap.freshBlock block)
  | none => instDecidableTrue
  | some words => inferInstanceAs
      (Decidable (forall p, p < heap.mpsTop -> (heap.mps p).mpsStack (-1) ≠ words (-1)))

/-! ## The operations together -/

/-- The local variables of the loop in `update_alloc`. -/
structure PeakLoop where
  current : UInt64
  max : UInt64
deriving DecidableEq, Repr

/-- One `__atomic_compare_exchange_n (&ms.ms_max, &max, current)`. -/
def comparePeak (l : PeakLoop) (w : World) : World × PeakLoop :=
  if w.ms.msMax = l.max then ({ w with ms := { w.ms with msMax := l.current } }, l)
  else (w, { l with max := w.ms.msMax })

def HookOp.exec (answer : Answer) (w : World) : (o : HookOp) -> Except HookFault (World × o.Res)
  | .libcMalloc size =>
      match Libc.malloc w.heap size answer with
      | .ok (heap, p) => .ok ({ w with heap := heap }, p)
      | .error fault => .error fault
  | .libcFree p =>
      match Libc.free w.heap p with
      | .ok heap => .ok ({ w with heap := heap }, ())
      | .error fault => .error fault
  | .libcRealloc p size =>
      match Libc.realloc w.heap p size answer with
      | .ok (heap, q) => .ok ({ w with heap := heap }, q)
      | .error fault => .error fault
  | .loadMemhdr p =>
      match memhdrAt w.heap p with
      | some hdr => .ok (w, hdr)
      | none => .error .wildHeader
  | .storeMemhdr p hdr =>
      match w.heap p, memhdrAt w.heap p with
      | some block, some _ =>
          .ok ({ w with heap := Function.update w.heap p (some { block with hdr := hdr }) }, ())
      | _, _ => .error .wildHeader
  | .abort => .error .aborted
  | .addFetch c delta =>
      .ok ({ w with ms := w.ms.set c (w.ms.get c + delta) }, w.ms.get c + delta)
  | .subFetch c delta =>
      .ok ({ w with ms := w.ms.set c (w.ms.get c - delta) }, w.ms.get c - delta)
  | .loadMax => .ok (w, w.ms.msMax)
  | .getSpecific tid => .ok (w, w.prof.specific tid)
  | .setSpecific tid mp =>
      .ok ({ w with prof := { w.prof with specific := Function.update w.prof.specific tid mp } },
        ())
  | .mprofileCreate =>
      .ok ({ w with prof := (w.prof.mprofileCreate answer).1 }, (w.prof.mprofileCreate answer).2)
  | .mprofileAdd mp =>
      if mp = 0 then .error .nullDereference
      else .ok ({ w with prof := { w.prof with profiles := w.prof.profiles ++ [mp] } }, ())
  | .allocRecord => .ok (w, answer.recordOk)
  | .clockGettime => .ok (w, answer.now)
  | .drawId _ =>
    .ok ({ w with prof := { w.prof with mprId := w.prof.mprId + 1 } }, w.prof.mprId + 1)
  | .insertTail mp mpr =>
      if mp = 0 then .error .nullDereference
      else .ok ({ w with prof := w.prof.insertTail mp mpr }, ())
  | .addStack mp mps =>
      if w.prof.stackHeap.freshBlock answer.copyBlock then
        let added :=
          mprofileAddStack w.prof.stackHeap (w.prof.mprofile mp).mpStset mps answer.copyBlock
        .ok ({ w with prof := { w.prof with stackHeap := added.1 } },
          mprofileGetStackId added.1 added.2)
      else .error .notLibc
  | .setStackId mp mprId stackId =>
      .ok ({ w with prof := w.prof.setStackId mp mprId stackId }, ())
  | .stackBuf => .ok (w, (answer.stackBuf, answer.around))
  | .backtrace => .ok (w, answer.backtrace)

/-- Operations that other threads cannot time. -/
def HookOp.silent : HookOp -> Bool
  | .libcMalloc _ => false
  | .libcFree _ => false
  | .libcRealloc _ _ => false
  | .loadMemhdr _ => true
  | .storeMemhdr _ _ => true
  | .abort => true
  | .addFetch _ _ => false
  | .subFetch _ _ => false
  | .loadMax => false
  | .getSpecific _ => true
  | .setSpecific _ _ => true
  | .mprofileCreate => false
  | .mprofileAdd _ => false
  | .allocRecord => true
  | .clockGettime => true
  | .drawId _ => false
  | .insertTail _ _ => true
  | .addStack _ _ => true
  | .setStackId _ _ _ => true
  | .stackBuf => true
  | .backtrace => true

/-- The machine that runs the hooks. -/
abbrev hookMachine : Machine where
  Op := HookOp
  Res := HookOp.Res
  Loop := PeakLoop
  State := World
  Env := Answer
  Fault := HookFault
  exec := fun o answer w => o.exec answer w
  again := fun l => decide (l.max < l.current)
  body := comparePeak
  silent := HookOp.silent
  stuck := .stuck

/-- The programs of the hooks. -/
abbrev HookM (α : Type) : Type := Prog HookOp HookOp.Res PeakLoop α

/-- A program of one operation. -/
def perform (o : HookOp) : HookM o.Res := .op o .ret

/-- A loop of compare-exchanges. -/
def raisePeak (l : PeakLoop) : HookM Unit := .spin l (.ret ())

end Mprofile
end OsslScripts
