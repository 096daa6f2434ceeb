import OsslScripts.Mprofile.Hooks
import OsslScripts.Foundation.Pool

namespace OsslScripts
namespace Mprofile

open Foundation

/-!
# Who owns which block

The application calls the hooks from any number of threads.  It holds the
pointers that hooks returned to it, and passes to `free` and `realloc` only
pointers it holds; while such a call is in progress the block belongs to the
thread of the call.  `Hold` is what a thread has to do with a block at a point
of a hook: nothing, the block of its argument, a fresh block without a header,
or one whose header is written.

That the headers are intact is an invariant of all holds together
(`Custody`).  Every operation of libc is an instance of one rule: it changes
the block of its own thread, and addresses where no block is.
-/

/-- The pointers that the application holds, with the size last requested for
each, and for each thread the size of the block that its call has claimed. -/
structure Holdings (Thread : Type) where
  owned : UInt64 -> Option UInt64
  claimed : Thread -> UInt64

namespace Holdings

variable {Thread : Type} [DecidableEq Thread]

def none : Holdings Thread := ⟨fun _ => Option.none, fun _ => 0⟩

/-- Hand a pointer to a call.  The null pointer is always at hand. -/
def claim (t : Thread) (b : UInt64) (h : Holdings Thread) : Option (Holdings Thread) :=
  if b = 0 then some h
  else match h.owned b with
    | Option.none => Option.none
    | some sz => some ⟨Function.update h.owned b Option.none, Function.update h.claimed t sz⟩

/-- Take a pointer from a call. -/
def give (b sz : UInt64) (h : Holdings Thread) : Holdings Thread :=
  if b = 0 then h else { h with owned := Function.update h.owned b (some sz) }

end Holdings

/-- The application.  A failed `realloc` leaves it the old block, and
`realloc (x, 0)` ends the block's life.  Whether the application goes on to use
a pointer that such a call returns is the parameter. -/
def application (Thread : Type) [DecidableEq Thread] (usesZeroBlocks : Bool) :
    Client Thread Call UInt64 where
  State := Holdings Thread
  start := fun t k h =>
    match k with
    | .malloc _ => some h
    | .free b => h.claim t b
    | .realloc b _ => h.claim t b
  finish := fun t k value h =>
    match k with
    | .malloc sz => h.give value sz
    | .free _ => h
    | .realloc b sz =>
        if sz = 0 then if usesZeroBlocks then h.give value 0 else h
        else if value = 0 then h.give b (h.claimed t)
        else h.give value sz

/-- A call in one thread and its steps. -/
def callOf {Thread : Type} (t : Thread) (k : Call) (ptrs : List UInt64) :
    List (PoolLabel Thread Call Answer) :=
  .call t k (answering 0) :: ptrs.map (fun ptr => .step t (answering ptr))

/-- What a thread has to do with a block. -/
inductive Hold where
  | nothing
  /-- The block of the call's argument. -/
  | claimed (mh sz : UInt64)
  /-- The block of the call's argument, when the call ends its life. -/
  | dying (mh sz : UInt64)
  /-- No block, when the call is `realloc (NULL, 0)`. -/
  | void
  /-- A block whose header is not written yet. -/
  | bare (mh : UInt64)
  /-- A block whose header was written by this call. -/
  | made (mh sz : UInt64)
deriving DecidableEq

namespace Hold

/-- The address of the block. -/
def block : Hold -> Option UInt64
  | nothing => none
  | claimed mh _ => some mh
  | dying mh _ => some mh
  | void => none
  | bare mh => some mh
  | made mh _ => some mh

/-- The block of the call's argument and its size. -/
def argument : Hold -> Option (UInt64 × UInt64)
  | claimed mh sz => some (mh, sz)
  | dying mh sz => some (mh, sz)
  | _ => none

theorem block_of_argument {g : Hold} {mh sz : UInt64} (argument : g.argument = some (mh, sz)) :
    g.block = some mh := by
  cases g <;> first | (cases argument; rfl) | cases argument

end Hold

/-- A live block with room for a header, which holds this size and its check word. -/
def Headed (heap : UInt64 -> Option Block) (mh sz : UInt64) : Prop :=
  Exists fun block => heap mh = some block ∧ sizeofMemhdr.toNat ≤ block.size ∧
    block.hdr = ⟨sz, mkChk mh sz⟩

/-- The block is as the hold says.  A fresh block has room for a header if
requests do not wrap, which is the parameter. -/
def Hold.Ok (roomy : Prop) (heap : UInt64 -> Option Block) : Hold -> Prop
  | nothing => True
  | claimed mh sz => Headed heap mh sz
  | dying mh sz => Headed heap mh sz
  | void => True
  | bare mh => Exists fun block => heap mh = some block ∧ (roomy -> sizeofMemhdr.toNat ≤ block.size)
  | made mh sz => Headed heap mh sz

/-- Blocks lie inside the address space. -/
def HeapWf (heap : UInt64 -> Option Block) : Prop :=
  forall p block, heap p = some block -> p ≠ 0 ∧ p.toNat + block.size < 2 ^ 64

/-- A pointer with room for a header before it. -/
def Pointer (b : UInt64) : Prop := b ≠ 0 ∧ b - sizeofMemhdr ≠ 0

/-- What a call may hold when it starts. -/
def holdStarts : Call -> Hold -> Prop
  | .malloc _, g => g = .nothing
  | .free b, g => (b = 0 ∧ g = .nothing) ∨
      (Pointer b ∧ Exists fun sz => g = .claimed (b - sizeofMemhdr) sz)
  | .realloc b sz, g =>
      if sz = 0 then (b = 0 ∧ g = .void) ∨
        (Pointer b ∧ Exists fun old => g = .dying (b - sizeofMemhdr) old)
      else (b = 0 ∧ g = .nothing) ∨
        (Pointer b ∧ Exists fun old => g = .claimed (b - sizeofMemhdr) old)

/-- What a call may do to blocks.  `zero` is what it relies on about the answer
of `realloc` to a request of size 0. -/
def holding (zero : Call -> UInt64 -> Prop) (k : Call) : Protocol hookMachine Hold where
  may := fun g o =>
    match o with
    | .libcMalloc size =>
        g = .nothing ∧ Exists fun sz => k = .malloc sz ∧ size = sz + sizeofMemhdr
    | .libcFree p => p = 0 ∨ Exists fun sz => g = .claimed p sz
    | .libcRealloc p size => holdStarts k g ∧ Exists fun b => Exists fun sz =>
        k = .realloc b sz ∧ p = (if b = 0 then 0 else b - sizeofMemhdr) ∧ size = reallocSize sz
    | .loadMemhdr p => Exists fun sz => g.argument = some (p, sz)
    | .storeMemhdr p hdr => g = .bare p ∧ hdr.mhChk = mkChk p hdr.mhSize
    | .abort => False
    | _ => True
  fits := fun g o r =>
    match o, r with
    | .loadMemhdr p, hdr => forall sz, g.argument = some (p, sz) -> hdr = ⟨sz, mkChk p sz⟩
    | .libcRealloc _ _, q => zero k q
    | .storeMemhdr p _, _ => p + sizeofMemhdr ≠ 0
    | .mprofileAdd mp, _ => mp ≠ 0
    | _, _ => True
  after := fun g o r =>
    match o, r with
    | .libcMalloc _, q => if q = 0 then .nothing else .bare q
    | .libcFree p, _ => if p = 0 then g else .nothing
    | .libcRealloc _ _, q =>
        match g with
        | .dying _ _ => .nothing
        | .void => .nothing
        | g => if q = 0 then g else .bare q
    | .storeMemhdr p hdr, _ => .made p hdr.mhSize
    | _, _ => g
  loops := fun _ _ => True
  leave := fun g => g

/-- No call relies on what libc answers to a request of size 0. -/
def anyAnswer : Call -> UInt64 -> Prop := fun _ _ => True

/-- Operations that have nothing to do with blocks. -/
def Blockless : HookOp -> Prop
  | .libcMalloc _ => False
  | .libcFree _ => False
  | .libcRealloc _ _ => False
  | .loadMemhdr _ => False
  | .storeMemhdr _ _ => False
  | .abort => False
  | _ => True

/-! ## The hooks keep to the protocol -/

section Text

variable {zero : Call -> UInt64 -> Prop} {k : Call} {α β : Type}

/-- Perform an operation, then go on. -/
theorem follows_perform {Ghost : Type} {P : Protocol hookMachine Ghost} {ends : Ghost -> α -> Prop}
    {o : HookOp} {rest : o.Res -> HookM α} {g : Ghost} (may : P.may g o)
    (onward : forall r, P.fits g o r -> P.Follows ends (rest r) (P.after g o r)) :
    P.Follows ends (perform o >>= rest) g :=
  ⟨may, onward⟩

theorem blockless_holding {program : HookM α}
    (uses : Protocol.Uses (M := hookMachine) Blockless program)
    (g : Hold) : (holding zero k).Follows (fun g' _ => g' = g) program g := by
  refine Protocol.Follows.of_neutral g (fun o kind => ?_) (fun o r kind => ?_) (fun _ => trivial)
    rfl uses
  · cases o <;> first | exact trivial | exact kind.elim
  · cases o <;> first | rfl | exact kind.elim

/-- Shorthand for programs that have nothing to do with blocks. -/
abbrev Blockfree (program : HookM α) : Prop := Protocol.Uses (M := hookMachine) Blockless program

theorem blockfree_recordStack (mp mprId : Nat) (mps : Option MprofileStack) :
    Blockfree (recordStack mp mprId mps) := by
  cases mps with
  | none => trivial
  | some mps => exact ⟨trivial, fun _ => ⟨trivial, fun _ => trivial⟩⟩

theorem blockfree_appendRecord (mp : Nat) (mpr : MprofileRecord) (mps : Option MprofileStack) :
    Blockfree (appendRecord mp mpr mps) :=
  ⟨trivial, fun mprId => ⟨trivial, fun _ => blockfree_recordStack mp mprId mps⟩⟩

theorem blockfree_createMprofileRecord : Blockfree createMprofileRecord := by
  refine ⟨trivial, fun ok => ?_⟩
  change Blockfree (if ok then _ else _)
  split_ifs
  · exact ⟨trivial, fun _ => trivial⟩
  · trivial

theorem blockfree_mprofileRecordAlloc (mp : Nat) (buf bufSz : UInt64) (mps : Option MprofileStack) :
    Blockfree (mprofileRecordAlloc mp buf bufSz mps) := by
  refine Protocol.Uses.bind blockfree_createMprofileRecord (fun created => ?_)
  cases created with
  | none => trivial
  | some mpr => exact blockfree_appendRecord mp _ mps

theorem blockfree_mprofileRecordFree (mp : Nat) (buf sz : UInt64) (mps : Option MprofileStack) :
    Blockfree (mprofileRecordFree mp buf sz mps) := by
  refine Protocol.Uses.bind blockfree_createMprofileRecord (fun created => ?_)
  cases created with
  | none => trivial
  | some mpr => exact blockfree_appendRecord mp _ mps

theorem blockfree_mprofileRecordRealloc (mp : Nat) (buf bufSz origSz oldBuf : UInt64)
    (mps : Option MprofileStack) :
    Blockfree (mprofileRecordRealloc mp buf bufSz origSz oldBuf mps) := by
  refine Protocol.Uses.bind blockfree_createMprofileRecord (fun created => ?_)
  cases created with
  | none => trivial
  | some mpr => exact blockfree_appendRecord mp _ mps

theorem blockfree_updateAlloc (delta : UInt64) : Blockfree (updateAlloc delta) :=
  ⟨trivial, fun _ => ⟨trivial, fun _ => trivial⟩⟩

theorem blockfree_updateRelease (delta : UInt64) : Blockfree (updateRelease delta) :=
  ⟨trivial, fun _ => trivial⟩

theorem blockfree_addCounter (c : Counter) (delta : UInt64) : Blockfree (addCounter c delta) :=
  ⟨trivial, fun _ => trivial⟩

theorem blockfree_initStackBuf : Blockfree initStackBuf := ⟨trivial, fun _ => trivial⟩

theorem blockfree_collectBacktrace (mps : Option MprofileStack) :
    Blockfree (collectBacktrace mps) := ⟨trivial, fun _ => trivial⟩

/-- Skip over a program that has nothing to do with blocks. -/
theorem follows_skip {ends : Hold -> β -> Prop} {program : HookM α} {rest : α -> HookM β} {g : Hold}
    (uses : Blockfree program)
    (onward : forall value, (holding zero k).Follows ends (rest value) g) :
    (holding zero k).Follows ends (program >>= rest) g := by
  refine Protocol.Follows.bind (blockless_holding uses g) (fun g' value same => ?_)
  rw [same]
  exact onward value

/-- Every hook has a profile: the null pointer does not survive `mprofile_add`. -/
theorem follows_getMprofile {ends : Hold -> α -> Prop} {tid : Nat} {rest : Nat -> HookM α}
    {g : Hold}
    (onward : forall mp, mp ≠ 0 -> (holding zero k).Follows ends (rest mp) g) :
    (holding zero k).Follows ends (getMprofile tid >>= rest) g := by
  refine follows_perform trivial (fun mp _ => ?_)
  change (holding zero k).Follows ends (Prog.bind (if mp = 0 then _ else _) rest) g
  by_cases null : mp = 0
  · rw [if_pos null]
    refine ⟨trivial, fun created _ => ⟨trivial, fun _ added => ⟨trivial, fun _ _ => ?_⟩⟩⟩
    exact onward created added
  · rw [if_neg null]
    exact onward mp null

/-- Reading and checking the header of the call's block. -/
theorem follows_checkMemhdr {ends : Hold -> β -> Prop} {rest : Memhdr -> HookM β} {g : Hold}
    {b sz : UInt64} (argument : g.argument = some (b - sizeofMemhdr, sz))
    (onward : (holding zero k).Follows ends (rest ⟨sz, mkChk (b - sizeofMemhdr) sz⟩) g) :
    (holding zero k).Follows ends (checkMemhdr b >>= rest) g := by
  refine follows_perform ⟨sz, argument⟩ (fun hdr intact => ?_)
  have exactly : hdr = ⟨sz, mkChk (b - sizeofMemhdr) sz⟩ := intact sz argument
  subst exactly
  change (holding zero k).Follows ends (Prog.bind (if _ then _ else _) rest) g
  rw [if_neg (not_not.mpr rfl)]
  exact onward

/-- What `realloc (b, 0)` returns when libc answers `q`. -/
def zeroResult (family : Family) (b q : UInt64) : UInt64 :=
  if q = 0 then 0 else if family = .stats then q + sizeofMemhdr else b

/-- How a call may end. -/
def holdEnds (zero : Call -> UInt64 -> Prop) (family : Family) : Call -> Hold -> UInt64 -> Prop
  | .malloc sz, g, rv => (rv = 0 ∧ g = .nothing) ∨ (rv ≠ 0 ∧ g = .made (rv - sizeofMemhdr) sz)
  | .free _, g, _ => g = .nothing
  | .realloc b sz, g, rv =>
      if sz = 0 then g = .nothing ∧ Exists fun q =>
        rv = zeroResult family b q ∧ zero (.realloc b 0) q
      else (rv = 0 ∧ b = 0 ∧ g = .nothing) ∨
        (rv = 0 ∧ b ≠ 0 ∧ Exists fun old => g = .claimed (b - sizeofMemhdr) old) ∨
        (rv ≠ 0 ∧ g = .made (rv - sizeofMemhdr) sz)

/-- Taking a block and writing its header, with what follows on success and on failure. -/
theorem follows_storeMemhdr {ends : Hold -> α -> Prop} {mh sz : UInt64} {rest : HookM α}
    (onward : mh + sizeofMemhdr ≠ 0 -> (holding zero k).Follows ends rest (.made mh sz)) :
    (holding zero k).Follows ends (perform (.storeMemhdr mh ⟨sz, mkChk mh sz⟩) >>= fun _ => rest)
      (.bare mh) :=
  follows_perform ⟨rfl, rfl⟩ (fun _ inside => onward inside)

theorem follows_mallocHeaded {ends : Hold -> α -> Prop} {sz : UInt64} {rest : UInt64 -> HookM α}
    (failed : (holding zero (.malloc sz)).Follows ends (rest 0) .nothing)
    (made : forall mh, mh + sizeofMemhdr ≠ 0 ->
      (holding zero (.malloc sz)).Follows ends (rest (mh + sizeofMemhdr)) (.made mh sz)) :
    (holding zero (.malloc sz)).Follows ends (mallocHeaded sz >>= rest) .nothing := by
  refine follows_perform ⟨rfl, sz, rfl, rfl⟩ (fun mh _ => ?_)
  change (holding zero (.malloc sz)).Follows ends (Prog.bind (if mh ≠ 0 then _ else _) rest)
    (if mh = 0 then .nothing else .bare mh)
  by_cases null : mh = 0
  · rw [if_neg (not_not.mpr null), if_pos null]
    exact failed
  · rw [if_pos null, if_neg null]
    exact follows_storeMemhdr (fun inside => made mh inside)

theorem add_sub_sizeofMemhdr (mh : UInt64) : mh + sizeofMemhdr - sizeofMemhdr = mh := by
  rw [UInt64.add_sub_cancel]

theorem holding_mpCryptoMallocStats (sz : UInt64) :
    (holding zero (.malloc sz)).Follows (holdEnds zero .stats (.malloc sz)) (mpCryptoMallocStats sz)
      .nothing := by
  refine follows_perform ⟨rfl, sz, rfl, rfl⟩ (fun mh _ => ?_)
  change (holding zero (.malloc sz)).Follows _ (if mh ≠ 0 then _ else _)
    (if mh = 0 then .nothing else .bare mh)
  by_cases null : mh = 0
  · rw [if_neg (not_not.mpr null), if_pos null]
    exact Or.inl ⟨rfl, rfl⟩
  · rw [if_pos null, if_neg null]
    refine follows_storeMemhdr (fun inside => ?_)
    refine follows_skip (blockfree_addCounter _ _) (fun _ => ?_)
    refine follows_skip (blockfree_addCounter _ _) (fun _ => ?_)
    refine follows_skip (blockfree_updateAlloc _) (fun _ => ?_)
    exact Or.inr ⟨inside, by rw [add_sub_sizeofMemhdr]⟩

/-- The last step of the tracing `malloc` hooks. -/
theorem holding_recordMalloc (family : Family) (mp : Nat) (rv sz : UInt64)
    (mps : Option MprofileStack) {g : Hold}
    (ends : holdEnds zero family (.malloc sz) g rv) :
    (holding zero (.malloc sz)).Follows (holdEnds zero family (.malloc sz))
      (do if mp ≠ 0 then mprofileRecordAlloc mp rv sz mps
          return rv) g := by
  by_cases null : mp = 0
  · rw [if_neg (not_not.mpr null)]
    exact ends
  · rw [if_pos null]
    exact follows_skip (blockfree_mprofileRecordAlloc mp rv sz mps) (fun _ => ends)

theorem holding_mpCryptoMallocTrace (tid : Nat) (sz : UInt64) :
    (holding zero (.malloc sz)).Follows (holdEnds zero .trace (.malloc sz))
      (mpCryptoMallocTrace tid sz)
      .nothing := by
  refine follows_getMprofile (fun mp _ => ?_)
  refine follows_mallocHeaded ?_ (fun mh inside => ?_)
  · exact holding_recordMalloc .trace mp 0 sz none (Or.inl ⟨rfl, rfl⟩)
  · exact holding_recordMalloc .trace mp _ sz none
      (Or.inr ⟨inside, by rw [add_sub_sizeofMemhdr]⟩)

theorem holding_mpCryptoMallocTraceWithStack (tid : Nat) (sz : UInt64) :
    (holding zero (.malloc sz)).Follows (holdEnds zero .traceWithStack (.malloc sz))
      (mpCryptoMallocTraceWithStack tid sz) .nothing := by
  refine follows_getMprofile (fun mp _ => ?_)
  refine follows_skip blockfree_initStackBuf (fun mps => ?_)
  refine follows_mallocHeaded ?_ (fun mh inside => ?_)
  · refine follows_skip (blockfree_collectBacktrace mps) (fun mps => ?_)
    exact holding_recordMalloc .traceWithStack mp 0 sz mps (Or.inl ⟨rfl, rfl⟩)
  · refine follows_skip (blockfree_collectBacktrace mps) (fun mps => ?_)
    exact holding_recordMalloc .traceWithStack mp _ sz mps
      (Or.inr ⟨inside, by rw [add_sub_sizeofMemhdr]⟩)

/-- The `free` at the end of the `free` hooks. -/
theorem follows_libcFree {mh sz : UInt64} (inside : mh ≠ 0) :
    (holding zero k).Follows (fun g' _ => g' = .nothing) (perform (.libcFree mh))
      (.claimed mh sz) :=
  ⟨Or.inr ⟨sz, rfl⟩, fun _ _ => if_neg inside⟩

theorem follows_libcFree_null :
    (holding zero k).Follows (fun g' _ => g' = .nothing) (perform (.libcFree 0)) .nothing :=
  ⟨Or.inl rfl, fun _ _ => rfl⟩

theorem holding_mpCryptoFreeStats {b : UInt64} {g : Hold} (starts : holdStarts (.free b) g) :
    (holding zero k).Follows (fun g' _ => g' = .nothing) (mpCryptoFreeStats b) g := by
  unfold mpCryptoFreeStats
  rcases starts with ⟨rfl, rfl⟩ | ⟨pointer, sz, rfl⟩
  · exact follows_libcFree_null
  · rw [if_pos pointer.1]
    refine follows_checkMemhdr rfl ?_
    refine follows_skip (blockfree_addCounter _ _) (fun _ => ?_)
    refine follows_skip (blockfree_addCounter _ _) (fun _ => ?_)
    refine follows_skip (blockfree_updateRelease _) (fun _ => ?_)
    exact follows_libcFree pointer.2

/-- The recording part of the tracing hooks, which they skip without a profile. -/
theorem follows_recordFree {ends : Hold -> α -> Prop} {g : Hold} {mp : Nat} {b sz : UInt64}
    {mps : Option MprofileStack} {rest : HookM α} (onward : (holding zero k).Follows ends rest g) :
    (holding zero k).Follows ends
      (do if mp ≠ 0 then mprofileRecordFree mp b sz mps
          rest) g := by
  by_cases null : mp = 0
  · rw [if_neg (not_not.mpr null)]
    exact onward
  · rw [if_pos null]
    exact follows_skip (blockfree_mprofileRecordFree mp b sz mps) (fun _ => onward)

/-- The common end of the tracing `free` hooks. -/
theorem holding_freeTraced {b : UInt64} {g : Hold} (starts : holdStarts (.free b) g) (mp : Nat)
    (mps : Option MprofileStack) :
    (holding zero k).Follows (fun g' _ => g' = .nothing)
      (do if b ≠ 0 then
            let hdr ← checkMemhdr b
            if mp ≠ 0 then mprofileRecordFree mp b hdr.mhSize mps
            perform (.libcFree (b - sizeofMemhdr))
          else
            if mp ≠ 0 then mprofileRecordFree mp b 0 mps
            perform (.libcFree 0)) g := by
  rcases starts with ⟨rfl, rfl⟩ | ⟨pointer, sz, rfl⟩
  · exact follows_recordFree follows_libcFree_null
  · rw [if_pos pointer.1]
    refine follows_checkMemhdr rfl ?_
    exact follows_recordFree (follows_libcFree pointer.2)

theorem holding_mpCryptoFreeTrace (tid : Nat) {b : UInt64} {g : Hold}
    (starts : holdStarts (.free b) g) :
    (holding zero k).Follows (fun g' _ => g' = .nothing) (mpCryptoFreeTrace tid b) g :=
  follows_getMprofile (fun mp _ => holding_freeTraced starts mp none)

theorem holding_mpCryptoFreeTraceWithStack (tid : Nat) {b : UInt64} {g : Hold}
    (starts : holdStarts (.free b) g) :
    (holding zero k).Follows (fun g' _ => g' = .nothing) (mpCryptoFreeTraceWithStack tid b) g :=
  follows_getMprofile (fun mp _ =>
    follows_skip blockfree_initStackBuf (fun mps =>
      follows_skip (blockfree_collectBacktrace mps) (fun mps => holding_freeTraced starts mp mps)))

/-- What is left of the hold after libc's answer to a `realloc` hook. -/
theorem after_libcRealloc {b sz p size mh : UInt64} {g : Hold}
    (starts : holdStarts (.realloc b sz) g) :
    (holding zero k).after g (.libcRealloc p size) mh =
      if sz = 0 then .nothing else if mh = 0 then g else .bare mh := by
  by_cases zeroSize : sz = 0
  · subst zeroSize
    rw [if_pos rfl]
    rcases starts with ⟨-, rfl⟩ | ⟨-, old, rfl⟩ <;> rfl
  · rw [holdStarts, if_neg zeroSize] at starts
    rw [if_neg zeroSize]
    rcases starts with ⟨-, rfl⟩ | ⟨-, old, rfl⟩ <;> rfl

theorem holdEnds_zero {family : Family} {b mh : UInt64} (answered : zero (.realloc b 0) mh) :
    holdEnds zero family (.realloc b 0) .nothing (zeroResult family b mh) :=
  ⟨rfl, mh, rfl, answered⟩

theorem holdEnds_failed {family : Family} {b sz : UInt64} {g : Hold} (positive : sz ≠ 0)
    (starts : holdStarts (.realloc b sz) g) : holdEnds zero family (.realloc b sz) g 0 := by
  rw [holdStarts, if_neg positive] at starts
  rw [holdEnds, if_neg positive]
  rcases starts with ⟨isNull, idle⟩ | ⟨pointer, claimed⟩
  · exact Or.inl ⟨rfl, isNull, idle⟩
  · exact Or.inr (Or.inl ⟨rfl, pointer.1, claimed⟩)

theorem holdEnds_made {family : Family} {b sz mh : UInt64} (positive : sz ≠ 0)
    (inside : mh + sizeofMemhdr ≠ 0) :
    holdEnds zero family (.realloc b sz) (.made mh sz) (mh + sizeofMemhdr) := by
  rw [holdEnds, if_neg positive]
  exact Or.inr (Or.inr ⟨inside, by rw [add_sub_sizeofMemhdr]⟩)

theorem holding_reallocStatsTail {b sz : UInt64} (saveMh : Memhdr) {mh : UInt64} {g : Hold}
    (starts : holdStarts (.realloc b sz) g) (answered : zero (.realloc b sz) mh) :
    (holding zero k).Follows (holdEnds zero .stats (.realloc b sz))
      (reallocStatsTail b sz saveMh mh)
      (if sz = 0 then .nothing else if mh = 0 then g else .bare mh) := by
  unfold reallocStatsTail
  by_cases zeroSize : sz = 0
  · subst zeroSize
    have ends : holdEnds zero .stats (.realloc b 0) .nothing (zeroResult .stats b mh) :=
      holdEnds_zero answered
    unfold zeroResult at ends
    rw [if_pos rfl]
    by_cases null : mh = 0
    · rw [if_pos null] at ends ⊢
      exact ends
    · rw [if_neg null, if_pos rfl] at ends ⊢
      exact ends
  · rw [if_neg zeroSize, if_neg zeroSize]
    by_cases null : mh = 0
    · rw [if_pos null, if_pos null]
      exact holdEnds_failed zeroSize starts
    · rw [if_neg null, if_neg null]
      refine follows_storeMemhdr (fun inside => ?_)
      have final : holdEnds zero .stats (.realloc b sz) (.made mh sz) (mh + sizeofMemhdr) :=
        holdEnds_made zeroSize inside
      by_cases isNull : b = 0
      · rw [if_pos isNull]
        refine follows_skip (blockfree_addCounter _ _) (fun _ => ?_)
        refine follows_skip (blockfree_addCounter _ _) (fun _ => ?_)
        exact follows_skip (blockfree_updateAlloc _) (fun _ => final)
      · rw [if_neg isNull]
        refine follows_skip (blockfree_addCounter _ _) (fun _ => ?_)
        by_cases shrinks : saveMh.mhSize > sz
        · rw [if_pos shrinks]
          refine follows_skip (blockfree_updateRelease _) (fun _ => ?_)
          exact follows_skip (blockfree_addCounter _ _) (fun _ => final)
        · rw [if_neg shrinks]
          refine follows_skip (blockfree_addCounter _ _) (fun _ => ?_)
          exact follows_skip (blockfree_updateAlloc _) (fun _ => final)

/-- The `realloc` of a hook, given the hold at its start. -/
theorem follows_libcRealloc {ends : Hold -> α -> Prop} {b sz p : UInt64} {g : Hold}
    {rest : UInt64 -> HookM α} (starts : holdStarts (.realloc b sz) g)
    (request : p = if b = 0 then 0 else b - sizeofMemhdr)
    (onward : forall mh, zero (.realloc b sz) mh ->
      (holding zero (.realloc b sz)).Follows ends (rest mh)
      (if sz = 0 then .nothing else if mh = 0 then g else .bare mh)) :
    (holding zero (.realloc b sz)).Follows ends
      (perform (.libcRealloc p (reallocSize sz)) >>= rest) g := by
  refine follows_perform ⟨starts, b, sz, rfl, request, rfl⟩ (fun mh answered => ?_)
  rw [after_libcRealloc starts]
  exact onward mh answered

/-- The call's block, if it has one. -/
theorem argument_of_starts {b sz : UInt64} {g : Hold} (starts : holdStarts (.realloc b sz) g)
    (isPointer : b ≠ 0) : Exists fun old => g.argument = some (b - sizeofMemhdr, old) := by
  rw [holdStarts] at starts
  split_ifs at starts
  · rcases starts with ⟨isNull, -⟩ | ⟨-, old, rfl⟩
    · exact absurd isNull isPointer
    · exact ⟨old, rfl⟩
  · rcases starts with ⟨isNull, -⟩ | ⟨-, old, rfl⟩
    · exact absurd isNull isPointer
    · exact ⟨old, rfl⟩

theorem holding_mpCryptoReallocStats {b sz : UInt64} {g : Hold}
    (starts : holdStarts (.realloc b sz) g) :
    (holding zero (.realloc b sz)).Follows (holdEnds zero .stats (.realloc b sz))
      (mpCryptoReallocStats b sz) g := by
  unfold mpCryptoReallocStats
  by_cases isNull : b = 0
  · rw [if_neg (not_not.mpr isNull)]
    exact follows_libcRealloc starts (by rw [if_pos isNull])
      (fun mh answered => holding_reallocStatsTail default starts answered)
  · rw [if_pos isNull]
    rcases argument_of_starts starts isNull with ⟨old, argument⟩
    refine follows_checkMemhdr argument ?_
    have onward : (holding zero (.realloc b sz)).Follows (holdEnds zero .stats (.realloc b sz))
        (perform (.libcRealloc (b - sizeofMemhdr) (reallocSize sz)) >>= fun mh =>
          reallocStatsTail b sz ⟨old, mkChk (b - sizeofMemhdr) old⟩ mh) g :=
      follows_libcRealloc starts (by rw [if_neg isNull])
        (fun mh answered => holding_reallocStatsTail _ starts answered)
    by_cases zeroSize : sz = 0
    · rw [if_pos zeroSize]
      refine follows_skip (blockfree_addCounter _ _) (fun _ => ?_)
      refine follows_skip (blockfree_addCounter _ _) (fun _ => ?_)
      exact follows_skip (blockfree_updateRelease _) (fun _ => onward)
    · rw [if_neg zeroSize]
      exact onward

theorem holding_reallocTraceTail {family : Family} (traced : family ≠ .stats) {b sz : UInt64}
    (saveMh : Memhdr) {collect : HookM (Option MprofileStack)} (blockfree : Blockfree collect)
    {mp : Nat} (profiled : mp ≠ 0) {mh : UInt64} {g : Hold}
    (starts : holdStarts (.realloc b sz) g) (answered : zero (.realloc b sz) mh) :
    (holding zero k).Follows (holdEnds zero family (.realloc b sz))
      (reallocTraceTail collect mp b sz saveMh mh)
      (if sz = 0 then .nothing else if mh = 0 then g else .bare mh) := by
  unfold reallocTraceTail
  by_cases zeroSize : sz = 0
  · subst zeroSize
    have ends : holdEnds zero family (.realloc b 0) .nothing (zeroResult family b mh) :=
      holdEnds_zero answered
    unfold zeroResult at ends
    rw [if_pos rfl]
    by_cases null : mh = 0
    · rw [if_pos null] at ends ⊢
      exact ends
    · rw [if_neg null, if_neg traced] at ends
      rw [if_neg null, if_pos rfl]
      exact ends
  · rw [if_neg zeroSize, if_neg zeroSize]
    by_cases null : mh = 0
    · rw [if_pos null, if_pos null]
      exact holdEnds_failed zeroSize starts
    · rw [if_neg null, if_neg null]
      refine follows_skip blockfree (fun mps => ?_)
      rw [if_pos profiled]
      refine follows_storeMemhdr (fun inside => ?_)
      have final : holdEnds zero family (.realloc b sz) (.made mh sz) (mh + sizeofMemhdr) :=
        holdEnds_made zeroSize inside
      by_cases isNull : b = 0
      · rw [if_pos isNull]
        exact follows_skip (blockfree_mprofileRecordAlloc mp _ sz mps) (fun _ => final)
      · rw [if_neg isNull]
        exact follows_skip (blockfree_mprofileRecordRealloc mp _ sz _ b mps) (fun _ => final)

/-- The common part of the tracing `realloc` hooks. -/
theorem holding_reallocTraced {family : Family} (traced : family ≠ .stats) {b sz : UInt64}
    {g : Hold}
    (starts : holdStarts (.realloc b sz) g) {mp : Nat} (profiled : mp ≠ 0)
    (mps : Option MprofileStack) {collect : HookM (Option MprofileStack)}
    (blockfree : Blockfree collect) :
    (holding zero (.realloc b sz)).Follows (holdEnds zero family (.realloc b sz))
      (reallocTraced mp mps collect b sz) g := by
  unfold reallocTraced
  by_cases isNull : b = 0
  · rw [if_neg (not_not.mpr isNull)]
    have onward : (holding zero (.realloc b sz)).Follows (holdEnds zero family (.realloc b sz))
        (perform (.libcRealloc 0 (reallocSize sz)) >>= fun mh =>
          reallocTraceTail collect mp b sz default mh) g :=
      follows_libcRealloc starts (by rw [if_pos isNull])
        (fun mh answered => holding_reallocTraceTail traced _ blockfree profiled starts answered)
    by_cases zeroSize : sz = 0
    · rw [if_pos zeroSize]
      exact follows_skip (blockfree_mprofileRecordFree mp b 0 mps) (fun _ => onward)
    · rw [if_neg zeroSize]
      exact onward
  · rw [if_pos isNull]
    rcases argument_of_starts starts isNull with ⟨old, argument⟩
    refine follows_checkMemhdr argument ?_
    have onward : (holding zero (.realloc b sz)).Follows (holdEnds zero family (.realloc b sz))
        (perform (.libcRealloc (b - sizeofMemhdr) (reallocSize sz)) >>= fun mh =>
          reallocTraceTail collect mp b sz ⟨old, mkChk (b - sizeofMemhdr) old⟩ mh) g :=
      follows_libcRealloc starts (by rw [if_neg isNull])
        (fun mh answered => holding_reallocTraceTail traced _ blockfree profiled starts answered)
    by_cases zeroSize : sz = 0
    · rw [if_pos zeroSize]
      exact follows_skip (blockfree_mprofileRecordFree mp b _ mps) (fun _ => onward)
    · rw [if_neg zeroSize]
      exact onward

/-- Every hook of every family keeps to the protocol. -/
theorem holding_hook (family : Family) (tid : Nat) {k : Call} {g : Hold} (starts : holdStarts k g) :
    (holding zero k).Follows (holdEnds zero family k) (hook family tid k) g := by
  cases k with
  | malloc sz =>
      have idle : g = .nothing := starts
      subst idle
      cases family with
      | stats => exact holding_mpCryptoMallocStats sz
      | trace => exact holding_mpCryptoMallocTrace tid sz
      | traceWithStack => exact holding_mpCryptoMallocTraceWithStack tid sz
  | free b =>
      cases family with
      | stats =>
        exact Protocol.Follows.bind (holding_mpCryptoFreeStats starts) (fun _ _ ends => ends)
      | trace =>
          exact Protocol.Follows.bind (holding_mpCryptoFreeTrace tid starts) (fun _ _ ends => ends)
      | traceWithStack =>
          exact Protocol.Follows.bind (holding_mpCryptoFreeTraceWithStack tid starts)
            (fun _ _ ends => ends)
  | realloc b sz =>
      cases family with
      | stats => exact holding_mpCryptoReallocStats starts
      | trace =>
          exact follows_getMprofile (fun mp profiled =>
            holding_reallocTraced (by decide) starts profiled none trivial)
      | traceWithStack =>
          refine follows_getMprofile (fun mp profiled => ?_)
          refine follows_skip blockfree_initStackBuf (fun mps => ?_)
          exact holding_reallocTraced (by decide) starts profiled mps
            (blockfree_collectBacktrace mps)

end Text

end Mprofile
end OsslScripts
