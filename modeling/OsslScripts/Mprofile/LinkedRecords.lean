import OsslScripts.Mprofile.LinkedStacks
import OsslScripts.Mprofile.Save
import OsslScripts.Utils.Tailq

namespace OsslScripts
namespace Mprofile

open Foundation
open Utils

/-!
# Records on linked structures

The functions of record.c on what they really work on: records and profiles at
addresses, the tail queues `mp_tqhead` and `profiles`, and the links `mpr_rbe` of
the records, which hang in the tree `sorter` first and in the tree of `build_chains`
later.
-/

/-- Why a function of record.c does not return. -/
inductive RecordStop where
  | tree (stop : RbStop)
  | stset (stop : LinkStop)
  | save (fault : SaveFault)
  /-- A loop outlives its fuel. -/
  | outOfFuel

/-- A set that cannot be merged stops the function that merges it. -/
def RecordStop.ofStset : LinkStop -> RecordStop
  | .merge fault => .save (.merge fault)
  | .tree stop => .stset (.tree stop)
  | .unmanaged => .stset .unmanaged

/-- The static state of record.c, the records and the profiles by address, and what has
been freed. -/
structure LinkedRecords where
  mprId : Nat
  startTimeTv : Timespec
  mpr : Nat -> MprofileRecord
  mprTop : Nat
  mprTqe : TailqHeap
  mprRbe : RbHeap
  mpStset : Nat -> Nat
  mpTop : Nat
  mpTqe : TailqHeap
  master : Nat
  specific : Nat -> Nat
  stsets : LinkedHeap
  freedMpr : List Nat
  freedMp : List Nat

abbrev RecordM := StateT LinkedRecords (Except RecordStop)

namespace Linked

/-- `profiles`, the one queue of profiles. -/
def profiles : Nat := 0

/-- `sorter`, a tree of records. -/
def sorter : Nat := 0

/-- `memtree` of `build_chains`. -/
def memtree : Nat := 1

/-- Work on the trees of records. -/
def records {α : Type} (m : RbM α) : RecordM α :=
  focus LinkedRecords.mprRbe (fun s links => { s with mprRbe := links }) RecordStop.tree m

/-- Work on the stack sets. -/
def stsets {α : Type} (m : LinkM α) : RecordM α :=
  focus LinkedRecords.stsets (fun s heap => { s with stsets := heap }) RecordStop.ofStset m

/-- A statement on the queues of records. -/
def queue (change : TailqHeap -> TailqHeap) : RecordM Unit :=
  modify (fun s => { s with mprTqe := change s.mprTqe })

/-- A statement on the queue of profiles. -/
def profileQueue (change : TailqHeap -> TailqHeap) : RecordM Unit :=
  modify (fun s => { s with mpTqe := change s.mpTqe })

def setMpr (p : Nat) (change : MprofileRecord -> MprofileRecord) : RecordM Unit :=
  modify (fun s => { s with mpr := Function.update s.mpr p (change (s.mpr p)) })

def stop {α : Type} (fault : SaveFault) : RecordM α := throw (.save fault)

/-! ## Recording -/

/-- The first profile starts the time axis. -/
def startTime (answer : Answer) : RecordM Unit :=
  modify (fun s =>
    if s.startTimeTv.tvSec = 0 then { s with startTimeTv := answer.startTime } else s)

/-- `malloc` of a profile. -/
def allocateProfile : RecordM Nat := fun s => .ok (s.mpTop, { s with mpTop := s.mpTop + 1 })

/-- `mprofile_create` -/
def mprofileCreate (answer : Answer) : RecordM Nat := do
  startTime answer
  if answer.createOk then do
    let mp ← allocateProfile
    queue (fun links => links.tailqInit mp)
    let stset ← stsets (mprofileCreateStset answer.stsetOk)
    modify (fun s => { s with mpStset := Function.update s.mpStset mp stset })
    pure mp
  else pure 0

/-- `mprofile_add` -/
def mprofileAdd (mp : Nat) : RecordM Unit :=
  if mp = 0 then stop .nullDereference
  else profileQueue (fun links => links.tailqInsertTail profiles mp)

/-- `get_mprofile` -/
def getMprofile (tid : Nat) (answer : Answer) : RecordM Nat := do
  let s ← get
  if s.specific tid = 0 then do
    let mp ← mprofileCreate answer
    mprofileAdd mp
    modify (fun s => { s with specific := Function.update s.specific tid mp })
    pure mp
  else pure (s.specific tid)

/-- `create_mprofile_record`.  The record is cleared; `mpr` has what the caller fills in. -/
def createMprofileRecord (mpr : MprofileRecord) (answer : Answer) : RecordM Nat :=
  if answer.recordOk then do
    let s ← get
    let p := s.mprTop
    modify (fun s => { s with
      mprTop := p + 1
      mpr := Function.update s.mpr p { mpr with mprTs := answer.now } })
    pure p
  else pure 0

/-- `atomic_add_long_nv (&mpr_id, 1)` -/
def nextMprId : RecordM Nat := fun s => .ok (s.mprId + 1, { s with mprId := s.mprId + 1 })

/-- `mprofile_get_stack_id` -/
def mprofileGetStackId (mps : Nat) : LinkM Nat := do
  let heap ← get
  pure (if mps = 0 then 0 else (heap.mps mps).mpsId)

variable (fuel : Nat)

/-- File a record under its stack. -/
def recordStack (mp mpr : Nat) (mps : Option MprofileStack) (answer : Answer) : RecordM Unit :=
  match mps with
  | none => setMpr mpr (fun record => { record with mprStackId := 0 })
  | some mps => do
      let s ← get
      let found ← stsets (mprofileAddStack fuel (s.mpStset mp) mps answer.copyBlock)
      let stackId ← stsets (mprofileGetStackId found)
      setMpr mpr (fun record => { record with mprStackId := stackId })

/-- The common part of `mprofile_record_alloc`, `mprofile_record_free` and
`mprofile_record_realloc`. -/
def mprofileRecord (mp : Nat) (mpr : MprofileRecord) (mps : Option MprofileStack)
    (answer : Answer) : RecordM Unit := do
  let p ← createMprofileRecord mpr answer
  if p = 0 then pure ()
  else do
    let id ← nextMprId
    setMpr p (fun record => { record with mprId := id })
    if mp = 0 then stop .nullDereference
    else do
      queue (fun links => links.tailqInsertTail mp p)
      recordStack fuel mp p mps answer

/-! ## Destroying -/

/-- The loop of `mprofile_destroy`. -/
def destroyRecords (mp : Nat) : Nat -> Nat -> RecordM Unit
  | 0, _ => throw .outOfFuel
  | turns + 1, mpr =>
      if mpr = 0 then pure ()
      else do
        let s ← get
        queue (fun links => links.tailqRemove mp mpr)
        modify (fun s => { s with freedMpr := s.freedMpr ++ [mpr] })
        destroyRecords mp turns (s.mprTqe.tailqNext mpr)

/-- `mprofile_destroy` -/
def mprofileDestroy (mp : Nat) : RecordM Unit := do
  let s ← get
  destroyRecords mp fuel (s.mprTqe.tailqFirst mp)
  stsets (mprofileDestroyStset fuel fuel (s.mpStset mp))
  modify (fun s => { s with freedMp := s.freedMp ++ [mp] })

/-! ## Chains -/

/-- `RB_INSERT` by address. -/
def insertMem (mpr : Nat) : RecordM Nat := do
  let s ← get
  records (rbInsert fuel (fun a b => threeWay (s.mpr a).mprMem.toNat (s.mpr b).mprMem.toNat)
    memtree mpr)

/-- `RB_FIND` by address. -/
def findMem (key : UInt64) : RecordM Nat := do
  let s ← get
  records (rbFind fuel (fun p => threeWay key.toNat (s.mpr p).mprMem.toNat) memtree)

/-- The record that a `FREE` or a `REALLOC` goes back to. -/
def consumeBlock (key : UInt64) (missing : ChainStop) (mpr : Nat) : RecordM Unit := do
  let treeMpr ← findMem fuel key
  if treeMpr = 0 then stop (.chains missing)
  else do
    let _ ← records (rbRemove fuel memtree treeMpr)
    let s ← get
    if (s.mpr treeMpr).mprNextId ≠ 0 then stop (.chains .assertNextId)
    else do
      setMpr treeMpr (fun tree => { tree with mprNextId := (s.mpr mpr).mprId })
      let s ← get
      if (s.mpr mpr).mprPrevId ≠ 0 then stop (.chains .assertPrevId)
      else setMpr mpr (fun record => { record with mprPrevId := (s.mpr treeMpr).mprId })

/-- `RB_INSERT` of a record whose address is not in the tree. -/
def openBlock (present : ChainStop) (mpr : Nat) : RecordM Unit := do
  let treeMpr ← insertMem fuel mpr
  if treeMpr ≠ 0 then stop (.chains present) else pure ()

/-- The body of the loop in `build_chains`. -/
def chainStep (mpr : Nat) : RecordM Unit := do
  let s ← get
  match (s.mpr mpr).mprState with
  | .alloc => openBlock fuel .allocFound mpr
  | .free =>
      if (s.mpr mpr).mprMem = 0 then pure ()
      else consumeBlock fuel (s.mpr mpr).mprMem .freeNotAllocated mpr
  | .realloc => do
      consumeBlock fuel (s.mpr mpr).mprRealloc .reallocNotAllocated mpr
      openBlock fuel .reallocFound mpr

def chainLoop : Nat -> Nat -> RecordM Unit
  | 0, _ => throw .outOfFuel
  | turns + 1, mpr =>
      if mpr = 0 then pure ()
      else do
        chainStep fuel mpr
        let s ← get
        chainLoop turns (s.mprTqe.tailqNext mpr)

/-- `build_chains` -/
def buildChains (mp : Nat) : RecordM Unit := do
  records (rbInit memtree)
  let s ← get
  chainLoop fuel fuel (s.mprTqe.tailqFirst mp)

/-! ## Saving -/

variable (copyBlock : Nat -> Option (Int -> UInt64))

/-- `RB_INSERT` by id. -/
def insertSorter (mpr : Nat) : RecordM Nat := do
  let s ← get
  records (rbInsert fuel (fun a b => recordIdCompare (s.mpr a) (s.mpr b)) sorter mpr)

/-- The stack of a record goes over to the set of the master. -/
def fileStack (mp mpr : Nat) : RecordM Unit := do
  let s ← get
  if (s.mpr mpr).mprStackId = 0 then pure ()
  else if s.mpStset s.master = 0 then stop .nullDereference
  else do
    let st ← stsets (mprofileMergeStack fuel (s.mpStset s.master) (s.mpStset mp)
      (s.mpr mpr).mprStackId
      (copyBlock (s.mpr mpr).mprId))
    let stackId ← stsets (mprofileGetStackId st)
    setMpr mpr (fun record => { record with mprStackId := stackId })

/-- The body of the inner loop of `mprofile_save`. -/
def saveRecord (mp mpr : Nat) : RecordM Unit := do
  queue (fun links => links.tailqRemove mp mpr)
  let same ← insertSorter fuel mpr
  if same ≠ 0 then stop .sameId else fileStack fuel copyBlock mp mpr

/-- The inner loop. -/
def saveRecords (mp : Nat) : Nat -> RecordM Unit
  | 0 => throw .outOfFuel
  | turns + 1 => do
      let s ← get
      if s.mprTqe.tailqFirst mp = 0 then pure ()
      else do
        saveRecord fuel copyBlock mp (s.mprTqe.tailqFirst mp)
        saveRecords mp turns

/-- The first profile becomes the master. -/
def chooseMaster (mp : Nat) : RecordM Unit :=
  modify (fun s => if s.master = 0 then { s with master := mp } else s)

/-- The outer loop. -/
def saveProfiles : Nat -> Nat -> RecordM Unit
  | 0, _ => throw .outOfFuel
  | turns + 1, mp =>
      if mp = 0 then pure ()
      else do
        let s ← get
        let walk := s.mpTqe.tailqNext mp
        profileQueue (fun links => links.tailqRemove profiles mp)
        chooseMaster mp
        saveRecords fuel copyBlock mp fuel
        let s ← get
        if s.master ≠ mp then mprofileDestroy fuel mp else pure ()
        saveProfiles turns walk

/-- The records go back from the sorter to the queue of the master. -/
def drainSorter : Nat -> RecordM Unit
  | 0 => throw .outOfFuel
  | turns + 1 => do
      let empty ← records (rbEmpty sorter)
      if empty then pure ()
      else do
        let mpr ← records (rbMin fuel sorter)
        let _ ← records (rbRemove fuel sorter mpr)
        modify (fun s => { s with mprTqe := s.mprTqe.tailqInsertTail s.master mpr })
        drainSorter turns

/-- `TAILQ_FOREACH` over the records in `profile_save`. -/
def walkRecords : Nat -> Nat -> RecordM (List MprofileRecord)
  | 0, _ => throw .outOfFuel
  | turns + 1, mpr =>
      if mpr = 0 then pure []
      else do
        let s ← get
        let later ← walkRecords turns (s.mprTqe.tailqNext mpr)
        pure (s.mpr mpr :: later)

/-- The `while` loop over the stacks in `profile_save`. -/
def walkStacks (stset : Nat) : Nat -> Nat -> LinkM (List SavedStack)
  | 0, _ => throw (.tree .outOfFuel)
  | turns + 1, stack =>
      if stack = 0 then pure []
      else do
        let heap ← get
        let next ← mprofileGetNextStack fuel stset stack
        let later ← walkStacks stset turns next
        pure (printStack (heap.mps stack) :: later)

/-- `profile_save` -/
def profileSave (mp : Nat) : RecordM Document := do
  let s ← get
  let allocations ← walkRecords fuel (s.mprTqe.tailqFirst mp)
  let first ← stsets (mprofileGetNextStack fuel (s.mpStset mp) 0)
  let stackList ← stsets (walkStacks fuel (s.mpStset mp) fuel first)
  pure ⟨s.startTimeTv, allocations, stackList⟩

/-- What `mprofile_save` does after its loops.  `load_syms` and `profile_save` access the
master, which is null if there is no profile. -/
def saveMaster (linkChains : Bool) : RecordM Document := do
  drainSorter fuel fuel
  let s ← get
  if s.master = 0 then stop .nullDereference
  else do
    if linkChains then buildChains fuel s.master else pure ()
    profileSave fuel s.master

/-- `mprofile_save` -/
def mprofileSave (linkChains : Bool) : RecordM Document := do
  records (rbInit sorter)
  let s ← get
  saveProfiles fuel copyBlock fuel (s.mpTqe.tailqFirst profiles)
  saveMaster fuel linkChains

end Linked

end Mprofile
end OsslScripts
