import OsslScripts.Mprofile.Ownership

namespace OsslScripts
namespace Mprofile

open Foundation

/-!
# The headers are intact

`Custody` says that every pointer of the application and every block that a
thread works on has the header it should have, and that no two of them are the
same block.  `Custody.change` is the rule for an operation of one thread; each
operation of libc is an instance of it.
-/

/-- The blocks of the application and of the threads in the middle of a call. -/
structure Custody {Thread : Type} (roomy : Prop) (client : Holdings Thread)
    (heap : UInt64 -> Option Block) (gs : Thread -> Hold) : Prop where
  heapWf : HeapWf heap
  owned : forall b sz, client.owned b = some sz -> b ≠ 0 ∧ Headed heap (b - sizeofMemhdr) sz
  held : forall t, (gs t).Ok roomy heap
  claimed : forall t mh sz, gs t = .claimed mh sz -> client.claimed t = sz
  apartOwned : forall t mh, (gs t).block = some mh -> client.owned (mh + sizeofMemhdr) = none
  apart : forall t u mh, (gs t).block = some mh -> (gs u).block = some mh -> t = u

section Headers

variable {heap heap' : UInt64 -> Option Block} {mh sz : UInt64} {roomy : Prop}

theorem Headed.live (headed : Headed heap mh sz) : heap mh ≠ none := by
  rcases headed with ⟨block, found, -⟩
  rw [found]
  exact Option.some_ne_none block

theorem Headed.congr (headed : Headed heap mh sz) (same : heap' mh = heap mh) :
    Headed heap' mh sz := by
  rcases headed with ⟨block, found, parts⟩
  exact ⟨block, by rw [same, found], parts⟩

theorem Headed.memhdrAt (headed : Headed heap mh sz) :
    memhdrAt heap mh = some ⟨sz, mkChk mh sz⟩ := by
  rcases headed with ⟨block, found, room, hdr⟩
  simp only [Mprofile.memhdrAt, found]
  rw [if_pos room, hdr]

theorem Hold.Ok.congr {g : Hold} (ok : g.Ok roomy heap)
    (same : forall mh, g.block = some mh -> heap' mh = heap mh) : g.Ok roomy heap' := by
  cases g with
  | nothing => trivial
  | void => trivial
  | claimed mh sz => exact Headed.congr ok (same mh rfl)
  | dying mh sz => exact Headed.congr ok (same mh rfl)
  | made mh sz => exact Headed.congr ok (same mh rfl)
  | bare mh =>
      rcases ok with ⟨block, found, room⟩
      exact ⟨block, by rw [same mh rfl, found], room⟩

theorem Hold.Ok.live {g : Hold} (ok : g.Ok roomy heap) (isBlock : g.block = some mh) :
    heap mh ≠ none := by
  cases g with
  | nothing => cases isBlock
  | void => cases isBlock
  | claimed mh sz => cases isBlock; exact Headed.live ok
  | dying mh sz => cases isBlock; exact Headed.live ok
  | made mh sz => cases isBlock; exact Headed.live ok
  | bare mh =>
      cases isBlock
      rcases ok with ⟨block, found, -⟩
      rw [found]
      exact Option.some_ne_none block

/-- The block of the call's argument has its header. -/
theorem Hold.Ok.headed {g : Hold} (ok : g.Ok roomy heap) (argument : g.argument = some (mh, sz)) :
    Headed heap mh sz := by
  cases g <;> first | (cases argument; exact ok) | cases argument

theorem sub_add_sizeofMemhdr (b : UInt64) : b - sizeofMemhdr + sizeofMemhdr = b :=
  UInt64.sub_add_cancel b sizeofMemhdr

/-- A block with a header leaves room for a pointer behind it. -/
theorem HeapWf.pointer (wf : HeapWf heap) {block : Block} (found : heap mh = some block)
    (room : sizeofMemhdr.toNat ≤ block.size) : Pointer (mh + sizeofMemhdr) := by
  have inside := wf mh block found
  refine ⟨fun null => ?_, by rw [add_sub_sizeofMemhdr]; exact inside.1⟩
  have sum := congrArg UInt64.toNat null
  rw [UInt64.toNat_add, Nat.mod_eq_of_lt (by omega)] at sum
  have positive : 0 < sizeofMemhdr.toNat := by decide
  change mh.toNat + sizeofMemhdr.toNat = 0 at sum
  omega

end Headers

section Rules

variable {Thread : Type} [DecidableEq Thread] {roomy : Prop} {client : Holdings Thread}
  {heap heap' : UInt64 -> Option Block} {gs : Thread -> Hold} {t : Thread}

/-- One thread changes its block, or takes an address where no block is. -/
theorem Custody.change (inv : Custody roomy client heap gs) (t : Thread) (g : Hold)
    (wf : HeapWf heap')
    (frame : forall a, heap a ≠ none -> (gs t).block ≠ some a -> heap' a = heap a)
    (ok : g.Ok roomy heap')
    (origin : forall a, g.block = some a -> (gs t).block = some a ∨ heap a = none)
    (claimed : forall mh sz, g = .claimed mh sz -> client.claimed t = sz) :
    Custody roomy client heap' (Function.update gs t g) := by
  have keptOwned : forall b sz, client.owned b = some sz ->
      heap' (b - sizeofMemhdr) = heap (b - sizeofMemhdr) := by
    intro b sz isOwned
    refine frame _ (inv.owned b sz isOwned).2.live (fun isBlock => ?_)
    have free := inv.apartOwned t _ isBlock
    rw [sub_add_sizeofMemhdr, isOwned] at free
    cases free
  have keptHeld : forall u, u ≠ t -> forall mh, (gs u).block = some mh -> heap' mh = heap mh := by
    intro u different mh isBlock
    exact frame mh ((inv.held u).live isBlock)
      (fun same => different (inv.apart u t mh isBlock same))
  have apartNew : forall u mh, u ≠ t -> (gs u).block = some mh -> g.block ≠ some mh := by
    intro u mh different isBlock same
    rcases origin mh same with old | free
    · exact different (inv.apart u t mh isBlock old)
    · exact (inv.held u).live isBlock free
  refine ⟨wf, fun b sz isOwned => ?_, fun u => ?_, fun u mh sz same => ?_, fun u mh isBlock => ?_,
    fun u v mh isU isV => ?_⟩
  · have old := inv.owned b sz isOwned
    exact ⟨old.1, old.2.congr (keptOwned b sz isOwned)⟩
  · by_cases here : u = t
    · subst here
      rw [Function.update_self]
      exact ok
    · rw [Function.update_of_ne here]
      exact (inv.held u).congr (keptHeld u here)
  · by_cases here : u = t
    · subst here
      rw [Function.update_self] at same
      exact claimed mh sz same
    · rw [Function.update_of_ne here] at same
      exact inv.claimed u mh sz same
  · by_cases here : u = t
    · subst here
      rw [Function.update_self] at isBlock
      rcases origin mh isBlock with old | free
      · exact inv.apartOwned u mh old
      · cases isOwned : client.owned (mh + sizeofMemhdr) with
        | none => rfl
        | some sz =>
            have live := (inv.owned _ sz isOwned).2.live
            rw [add_sub_sizeofMemhdr] at live
            exact absurd free live
    · rw [Function.update_of_ne here] at isBlock
      exact inv.apartOwned u mh isBlock
  · by_cases hereU : u = t
    · by_cases hereV : v = t
      · rw [hereU, hereV]
      · subst hereU
        rw [Function.update_self] at isU
        rw [Function.update_of_ne hereV] at isV
        exact absurd isU (apartNew v mh hereV isV)
    · by_cases hereV : v = t
      · subst hereV
        rw [Function.update_of_ne hereU] at isU
        rw [Function.update_self] at isV
        exact absurd isV (apartNew u mh hereU isU)
      · rw [Function.update_of_ne hereU] at isU
        rw [Function.update_of_ne hereV] at isV
        exact inv.apart u v mh isU isV

/-- The heap stays as it is, and the thread lets go of its block or keeps it. -/
theorem Custody.sameHeap (inv : Custody roomy client heap gs) (t : Thread) (g : Hold)
    (ok : g.Ok roomy heap) (origin : forall a, g.block = some a -> (gs t).block = some a)
    (claimed : forall mh sz, g = .claimed mh sz -> client.claimed t = sz) :
    Custody roomy client heap (Function.update gs t g) :=
  inv.change t g inv.heapWf (fun _ _ _ => rfl) ok
    (fun a isBlock => Or.inl (origin a isBlock)) claimed

theorem HeapWf.update (wf : HeapWf heap) {p : UInt64} {block : Block}
    (inside : p ≠ 0 ∧ p.toNat + block.size < 2 ^ 64) :
    HeapWf (Function.update heap p (some block)) := by
  intro q other found
  by_cases same : q = p
  · subst same
    rw [Function.update_self] at found
    cases found
    exact inside
  · rw [Function.update_of_ne same] at found
    exact wf q other found

theorem HeapWf.erase (wf : HeapWf heap) (p : UInt64) : HeapWf (Function.update heap p none) := by
  intro q other found
  by_cases same : q = p
  · subst same
    rw [Function.update_self] at found
    cases found
  · rw [Function.update_of_ne same] at found
    exact wf q other found

/-- What is asked of libc's answer to a request of the call `k`. -/
def AnswerOk (roomy : Prop) (zero : Call -> UInt64 -> Prop) (k : Call) (answer : Answer) :
    HookOp -> Prop
  | .libcMalloc size => roomy -> answer.ptr ≠ 0 -> sizeofMemhdr.toNat ≤ size.toNat
  | .libcRealloc _ size =>
      zero k answer.ptr ∧ forall b sz, k = .realloc b sz -> sz ≠ 0 ->
        (roomy -> answer.ptr ≠ 0 -> sizeofMemhdr.toNat ≤ size.toNat) ∧
          (b ≠ 0 -> size = 0 -> answer.ptr = 0 -> answer.keep = true)
  | _ => True

variable {zero : Call -> UInt64 -> Prop} {k : Call} {answer : Answer} {w w' : World}

/-- A block from `malloc`. -/
theorem Custody.malloc (inv : Custody roomy client heap gs) {size p : UInt64}
    (room : roomy -> answer.ptr ≠ 0 -> sizeofMemhdr.toNat ≤ size.toNat)
    (allocated : Libc.malloc heap size answer = .ok (heap', p)) :
    p = answer.ptr ∧ (p = 0 -> heap' = heap) ∧
      Custody roomy client heap' (Function.update gs t (if p = 0 then .nothing else .bare p)) := by
  unfold Libc.malloc at allocated
  by_cases null : answer.ptr = 0
  · rw [if_pos null] at allocated
    cases allocated
    refine ⟨null.symm, fun _ => rfl, ?_⟩
    rw [if_pos rfl]
    exact inv.sameHeap t .nothing trivial (fun a isBlock => by cases isBlock)
      (fun mh sz impossible => by cases impossible)
  · rw [if_neg null] at allocated
    by_cases legal : fits heap answer.ptr size.toNat
    · rw [if_pos legal] at allocated
      cases allocated
      refine ⟨rfl, fun impossible => absurd impossible null, ?_⟩
      rw [if_neg null]
      refine inv.change t (.bare answer.ptr) (inv.heapWf.update ⟨legal.1, legal.2.2⟩)
        (fun a live _ => ?_) ⟨_, Function.update_self .., fun strict => room strict null⟩
        (fun a isBlock => ?_) (fun mh sz impossible => by cases impossible)
      · have different : a ≠ answer.ptr := by
          rintro rfl
          exact live legal.2.1
        rw [Function.update_of_ne different]
      · cases isBlock
        exact Or.inr legal.2.1
    · rw [if_neg legal] at allocated
      cases allocated

/-- Addresses that `realloc` does not touch. -/
theorem update_erase_frame {p q a : UInt64} {block : Option Block} (live : heap a ≠ none)
    (different : a ≠ p) (free : Function.update heap p none q = none) :
    Function.update (Function.update heap p none) q block a = heap a := by
  have other : a ≠ q := by
    rintro rfl
    rw [Function.update_of_ne different] at free
    exact live free
  rw [Function.update_of_ne other, Function.update_of_ne different]

/-- The block of a call that ends its life. -/
theorem Custody.reallocDying (inv : Custody roomy client heap gs) {mh sz q : UInt64}
    (holds : gs t = .dying mh sz) (answered : Libc.realloc heap mh 0 answer = .ok (heap', q)) :
    q = answer.ptr ∧ Custody roomy client heap' (Function.update gs t .nothing) := by
  have headed : Headed heap mh sz := by
    have ok := inv.held t
    rw [holds] at ok
    exact ok
  rcases headed with ⟨block, found, -⟩
  have notOther : forall a, (gs t).block ≠ some a -> a ≠ mh := by
    rintro a other rfl
    exact other (by rw [holds]; rfl)
  unfold Libc.realloc at answered
  rw [if_neg (inv.heapWf mh block found).1] at answered
  simp only [found, if_true] at answered
  by_cases kept : answer.ptr = 0 ∧ answer.keep = true
  · rw [if_pos kept] at answered
    cases answered
    exact ⟨kept.1.symm, inv.sameHeap t .nothing trivial (fun a isBlock => by cases isBlock)
      (fun _ _ impossible => by cases impossible)⟩
  · rw [if_neg kept] at answered
    unfold Libc.malloc at answered
    by_cases null : answer.ptr = 0
    · rw [if_pos null] at answered
      cases answered
      refine ⟨null.symm, inv.change t .nothing (inv.heapWf.erase mh) (fun a _ other => ?_) trivial
        (fun a isBlock => by cases isBlock) (fun _ _ impossible => by cases impossible)⟩
      rw [Function.update_of_ne (notOther a other)]
    · rw [if_neg null] at answered
      by_cases legal : fits (Function.update heap mh none) answer.ptr (0 : UInt64).toNat
      · rw [if_pos legal] at answered
        cases answered
        refine ⟨rfl, inv.change t .nothing
          ((inv.heapWf.erase mh).update ⟨legal.1, legal.2.2⟩) (fun a live other => ?_) trivial
          (fun a isBlock => by cases isBlock) (fun _ _ impossible => by cases impossible)⟩
        exact update_erase_frame live (notOther a other) legal.2.1
      · rw [if_neg legal] at answered
        cases answered

/-- A call without a block leaves what libc gives it. -/
theorem Custody.reallocVoid (inv : Custody roomy client heap gs) {size q : UInt64}
    (answered : Libc.malloc heap size answer = .ok (heap', q)) :
    q = answer.ptr ∧ Custody roomy client heap' (Function.update gs t .nothing) := by
  have dropped := inv.sameHeap t .nothing trivial (fun a isBlock => by cases isBlock)
    (fun _ _ impossible => by cases impossible)
  unfold Libc.malloc at answered
  by_cases null : answer.ptr = 0
  · rw [if_pos null] at answered
    cases answered
    exact ⟨null.symm, dropped⟩
  · rw [if_neg null] at answered
    by_cases legal : fits heap answer.ptr size.toNat
    · rw [if_pos legal] at answered
      cases answered
      refine ⟨rfl, inv.change t .nothing (inv.heapWf.update ⟨legal.1, legal.2.2⟩)
        (fun a live _ => ?_) trivial (fun a isBlock => by cases isBlock)
        (fun _ _ impossible => by cases impossible)⟩
      have different : a ≠ answer.ptr := by
        rintro rfl
        exact live legal.2.1
      rw [Function.update_of_ne different]
    · rw [if_neg legal] at answered
      cases answered

/-- The block of a call is replaced by one at a free address. -/
theorem Custody.moveClaimed (inv : Custody roomy client heap gs) {mh sz q : UInt64} {block : Block}
    (holds : gs t = .claimed mh sz) (legal : fits (Function.update heap mh none) q block.size)
    (room : roomy -> sizeofMemhdr.toNat ≤ block.size) :
    Custody roomy client (Function.update (Function.update heap mh none) q (some block))
      (Function.update gs t (.bare q)) := by
  refine inv.change t (.bare q) ((inv.heapWf.erase mh).update ⟨legal.1, legal.2.2⟩)
    (fun a live other => ?_) ⟨_, Function.update_self .., room⟩ (fun a isBlock => ?_)
    (fun _ _ impossible => by cases impossible)
  · have notOther : a ≠ mh := by
      rintro rfl
      exact other (by rw [holds]; rfl)
    exact update_erase_frame live notOther legal.2.1
  · cases isBlock
    by_cases inPlace : q = mh
    · rw [holds, inPlace]
      exact Or.inl rfl
    · have free := legal.2.1
      rw [Function.update_of_ne inPlace] at free
      exact Or.inr free

/-- The block of a call that resizes it. -/
theorem Custody.reallocClaimed (inv : Custody roomy client heap gs) {mh sz size q : UInt64}
    (holds : gs t = .claimed mh sz)
    (room : roomy -> answer.ptr ≠ 0 -> sizeofMemhdr.toNat ≤ size.toNat)
    (keeps : size = 0 -> answer.ptr = 0 -> answer.keep = true)
    (answered : Libc.realloc heap mh size answer = .ok (heap', q)) :
    q = answer.ptr ∧ (q = 0 -> heap' = heap) ∧
      Custody roomy client heap' (Function.update gs t (if q = 0 then gs t else .bare q)) := by
  have headed : Headed heap mh sz := by
    have headed := inv.held t
    rw [holds] at headed
    exact headed
  rcases headed with ⟨block, found, -⟩
  have unchanged : Custody roomy client heap
      (Function.update gs t (if (0 : UInt64) = 0 then gs t else .bare 0)) := by
    rw [if_pos rfl, Function.update_eq_self]
    exact inv
  unfold Libc.realloc at answered
  rw [if_neg (inv.heapWf mh block found).1] at answered
  simp only [found] at answered
  by_cases null : answer.ptr = 0
  · have same : Except.ok (heap, 0) = (Except.ok (heap', q) : Except HookFault _) := by
      by_cases zeroSize : size = 0
      · rwa [if_pos zeroSize, if_pos ⟨null, keeps zeroSize null⟩] at answered
      · rwa [if_neg zeroSize, if_pos null] at answered
    cases same
    exact ⟨null.symm, fun _ => rfl, unchanged⟩
  · have placed : fits (Function.update heap mh none) answer.ptr size.toNat ∧
        Exists fun block' : Block => block'.size = size.toNat ∧ q = answer.ptr ∧
          heap' = Function.update (Function.update heap mh none) answer.ptr (some block') := by
      unfold Libc.malloc at answered
      split_ifs at answered with zeroSize kept legal legal
      · exact absurd kept.1 null
      · cases answered
        exact ⟨legal, _, rfl, rfl, rfl⟩
      · cases answered
        exact ⟨legal, _, rfl, rfl, rfl⟩
    rcases placed with ⟨legal, block', sameSize, rfl, rfl⟩
    refine ⟨rfl, fun impossible => absurd impossible null, ?_⟩
    rw [if_neg null]
    rw [← sameSize] at legal
    exact inv.moveClaimed holds legal (fun strict => sameSize ▸ room strict null)

/-- Operations that have nothing to do with blocks do not touch the heap. -/
theorem Blockless.sameHeap {o : HookOp} (kind : Blockless o) {r : o.Res}
    (executed : o.exec answer w = .ok (w', r)) : w'.heap = w.heap := by
  cases o with
  | mprofileAdd mp =>
      rw [HookOp.exec] at executed
      split_ifs at executed
      cases executed
      rfl
  | insertTail mp mpr =>
      rw [HookOp.exec] at executed
      split_ifs at executed
      cases executed
      rfl
  | addStack mp mps =>
      rw [HookOp.exec] at executed
      split_ifs at executed
      cases executed
      rfl
  | libcMalloc size => exact kind.elim
  | libcFree p => exact kind.elim
  | libcRealloc p size => exact kind.elim
  | loadMemhdr p => exact kind.elim
  | storeMemhdr p hdr => exact kind.elim
  | abort => exact kind.elim
  | _ => cases executed; rfl

/-- Every operation keeps the custody, if libc's answer is as asked for. -/
theorem custody_op {o : HookOp} (ok : AnswerOk roomy zero k answer o)
    (inv : Custody roomy client w.heap gs) :
    (holding zero k).OpSoundAt (fun w gs => Custody roomy client w.heap gs) answer t o w gs := by
  intro w' r may executed
  change o.exec answer w = .ok (w', r) at executed
  cases o with
  | libcMalloc size =>
      rw [HookOp.exec] at executed
      cases allocated : Libc.malloc w.heap size answer with
      | error fault => rw [allocated] at executed; cases executed
      | ok result =>
          rw [allocated] at executed
          cases executed
          exact ⟨trivial, (inv.malloc ok allocated).2.2⟩
  | libcFree p =>
      rw [HookOp.exec] at executed
      unfold Libc.free at executed
      by_cases null : p = 0
      · rw [if_pos null] at executed
        cases executed
        refine ⟨trivial, ?_⟩
        change Custody roomy client w.heap (Function.update gs t (if p = 0 then gs t else _))
        rw [if_pos null, Function.update_eq_self]
        exact inv
      · rcases may with isNull | ⟨sz, holds⟩
        · exact absurd isNull null
        · rw [if_neg null] at executed
          cases found : w.heap p with
          | none => rw [found] at executed; cases executed
          | some block =>
              rw [found] at executed
              cases executed
              refine ⟨trivial, ?_⟩
              change Custody roomy client _ (Function.update gs t (if p = 0 then gs t else _))
              rw [if_neg null]
              refine inv.change t .nothing (inv.heapWf.erase p) (fun a _ other => ?_) trivial
                (fun a isBlock => by cases isBlock) (fun _ _ impossible => by cases impossible)
              have different : a ≠ p := by
                rintro rfl
                exact other (by rw [holds]; rfl)
              exact Function.update_of_ne different _ _
  | libcRealloc p size =>
      rw [HookOp.exec] at executed
      cases answered : Libc.realloc w.heap p size answer with
      | error fault => rw [answered] at executed; cases executed
      | ok result =>
          rw [answered] at executed
          cases executed
          rcases may with ⟨starts, b, sz, rfl, rfl, rfl⟩
          by_cases isNull : b = 0
          · rw [if_pos isNull, Libc.realloc, if_pos rfl] at answered
            by_cases zeroSize : sz = 0
            · have kept := inv.reallocVoid (t := t) answered
              refine ⟨kept.1 ▸ ok.1, ?_⟩
              rw [after_libcRealloc starts, if_pos zeroSize]
              exact kept.2
            · have kept := inv.malloc (t := t) (ok.2 b sz rfl zeroSize).1 answered
              refine ⟨kept.1 ▸ ok.1, ?_⟩
              rw [after_libcRealloc starts, if_neg zeroSize]
              rw [holdStarts, if_neg zeroSize] at starts
              rcases starts with ⟨-, idle⟩ | ⟨pointer, -⟩
              · rw [idle]
                exact kept.2.2
              · exact absurd isNull pointer.1
          · rw [if_neg isNull] at answered
            by_cases zeroSize : sz = 0
            · rw [after_libcRealloc starts, if_pos zeroSize]
              subst zeroSize
              rcases starts with ⟨null, -⟩ | ⟨-, old, holds⟩
              · exact absurd null isNull
              · have kept := inv.reallocDying holds answered
                exact ⟨kept.1 ▸ ok.1, kept.2⟩
            · have asked := ok.2 b sz rfl zeroSize
              rw [after_libcRealloc starts, if_neg zeroSize]
              rw [holdStarts, if_neg zeroSize] at starts
              rcases starts with ⟨null, -⟩ | ⟨-, old, holds⟩
              · exact absurd null isNull
              · have kept := inv.reallocClaimed holds asked.1 (asked.2 isNull) answered
                exact ⟨kept.1 ▸ ok.1, kept.2.2⟩
  | loadMemhdr p =>
      rw [HookOp.exec] at executed
      cases found : memhdrAt w.heap p with
      | none => rw [found] at executed; cases executed
      | some hdr =>
          rw [found] at executed
          cases executed
          refine ⟨fun sz argument => ?_, ?_⟩
          · have headed : Headed w.heap p sz := (inv.held t).headed argument
            exact Option.some.inj (found.symm.trans headed.memhdrAt)
          · change Custody roomy client w.heap (Function.update gs t (gs t))
            rw [Function.update_eq_self]
            exact inv
  | storeMemhdr p hdr =>
      rcases may with ⟨holds, checks⟩
      have held := inv.held t
      rw [holds] at held
      rcases held with ⟨block, found, -⟩
      have room : sizeofMemhdr.toNat ≤ block.size := by
        by_contra short
        simp only [HookOp.exec, memhdrAt, found, if_neg short] at executed
        cases executed
      simp only [HookOp.exec, memhdrAt, found, if_pos room] at executed
      cases executed
      refine ⟨(inv.heapWf.pointer found room).1, ?_⟩
      refine inv.change t (.made p hdr.mhSize) (inv.heapWf.update (inv.heapWf p block found))
        (fun a _ other => ?_) ⟨_, Function.update_self .., room, ?_⟩ (fun a isBlock => ?_)
        (fun _ _ impossible => by cases impossible)
      · have different : a ≠ p := by
          rintro rfl
          exact other (by rw [holds]; rfl)
        exact Function.update_of_ne different _ _
      · cases hdr
        simp only at checks
        rw [checks]
      · cases isBlock
        rw [holds]
        exact Or.inl rfl
  | abort => exact may.elim
  | mprofileAdd mp =>
      have same := Blockless.sameHeap (o := .mprofileAdd mp) trivial executed
      rw [HookOp.exec] at executed
      split_ifs at executed with null
      refine ⟨null, ?_⟩
      change Custody roomy client w'.heap (Function.update gs t (gs t))
      rw [Function.update_eq_self, same]
      exact inv
  | _ =>
      have same : w'.heap = w.heap := by
        refine Blockless.sameHeap ?_ executed
        exact trivial
      refine ⟨trivial, ?_⟩
      change Custody roomy client w'.heap (Function.update gs t (gs t))
      rw [Function.update_eq_self, same]
      exact inv

/-- A silent operation asks nothing of libc. -/
theorem answerOk_of_silent {o : HookOp} (quiet : o.silent = true) :
    AnswerOk roomy zero k answer o := by
  cases o with
  | libcMalloc size => cases quiet
  | libcRealloc p size => cases quiet
  | _ => trivial

omit [DecidableEq Thread] in
theorem custody_body (t : Thread) :
    (holding zero k).BodySound (fun w gs => Custody roomy client w.heap gs) t := by
  intro w gs l inv _ _
  refine ⟨?_, trivial⟩
  change Custody roomy client (comparePeak l w).1.heap gs
  unfold comparePeak
  split_ifs <;> exact inv

theorem custody_leave (t : Thread) :
    (holding zero k).LeaveSound (fun w gs => Custody roomy client w.heap gs) t := by
  intro w gs l inv _ _
  rw [show (holding zero k).leave (gs t) = gs t from rfl, Function.update_eq_self]
  exact inv

/-! ## The application's part -/

omit [DecidableEq Thread] in
theorem Headed.pointer (wf : HeapWf heap) {b sz : UInt64} (isPointer : b ≠ 0)
    (headed : Headed heap (b - sizeofMemhdr) sz) : Pointer b := by
  rcases headed with ⟨block, found, -⟩
  exact ⟨isPointer, (wf _ block found).1⟩

/-- Handing a pointer to a call. -/
theorem Custody.claim (inv : Custody roomy client heap gs) (idle : gs t = .nothing) {b : UInt64}
    {client' : Holdings Thread} (claimed : client.claim t b = some client') :
    (b = 0 ∧ client' = client) ∨
      (Pointer b ∧ Exists fun sz => forall g, g.argument = some (b - sizeofMemhdr, sz) ->
        Custody roomy client' heap (Function.update gs t g)) := by
  unfold Holdings.claim at claimed
  by_cases null : b = 0
  · rw [if_pos null] at claimed
    cases claimed
    exact Or.inl ⟨null, rfl⟩
  · rw [if_neg null] at claimed
    cases isOwned : client.owned b with
    | none => rw [isOwned] at claimed; cases claimed
    | some sz =>
        rw [isOwned] at claimed
        cases claimed
        have headed := (inv.owned b sz isOwned).2
        refine Or.inr ⟨headed.pointer inv.heapWf null, sz, fun g argument => ?_⟩
        have isBlock := Hold.block_of_argument argument
        have others : forall u, u ≠ t -> Function.update gs t g u = gs u :=
          fun u different => Function.update_of_ne different _ _
        have notOthers : forall u mh, (gs u).block = some mh -> mh ≠ b - sizeofMemhdr := by
          rintro u mh isU rfl
          have free := inv.apartOwned u _ isU
          rw [sub_add_sizeofMemhdr, isOwned] at free
          cases free
        refine ⟨inv.heapWf, fun c size isOwnedC => ?_, fun u => ?_, fun u mh size holds => ?_,
          fun u mh isU => ?_, fun u v mh isU isV => ?_⟩
        · by_cases same : c = b
          · subst same
            simp only [Function.update_self] at isOwnedC
            cases isOwnedC
          · simp only [Function.update_of_ne same] at isOwnedC
            exact inv.owned c size isOwnedC
        · by_cases here : u = t
          · subst here
            rw [Function.update_self]
            cases g <;> first | (cases argument; exact headed) | cases argument
          · rw [others u here]
            exact inv.held u
        · by_cases here : u = t
          · subst here
            rw [Function.update_self] at holds
            subst holds
            cases argument
            exact Function.update_self ..
          · rw [others u here] at holds
            exact (Function.update_of_ne here ..).trans (inv.claimed u mh size holds)
        · by_cases here : u = t
          · subst here
            rw [Function.update_self, isBlock] at isU
            cases isU
            rw [sub_add_sizeofMemhdr]
            exact Function.update_self ..
          · rw [others u here] at isU
            have free := inv.apartOwned u mh isU
            by_cases same : mh + sizeofMemhdr = b
            · rw [same]
              exact Function.update_self ..
            · exact (Function.update_of_ne same ..).trans free
        · by_cases hereU : u = t
          · by_cases hereV : v = t
            · rw [hereU, hereV]
            · subst hereU
              rw [Function.update_self, isBlock] at isU
              rw [others v hereV] at isV
              cases isU
              exact absurd rfl (notOthers v _ isV)
          · by_cases hereV : v = t
            · subst hereV
              rw [Function.update_self, isBlock] at isV
              rw [others u hereU] at isU
              cases isV
              exact absurd rfl (notOthers u _ isU)
            · rw [others u hereU] at isU
              rw [others v hereV] at isV
              exact inv.apart u v mh isU isV

/-- Taking a pointer from a call. -/
theorem Custody.give (inv : Custody roomy client heap gs) {p sz : UInt64} (isPointer : p ≠ 0)
    (holds : gs t = .made (p - sizeofMemhdr) sz ∨ gs t = .claimed (p - sizeofMemhdr) sz) :
    Custody roomy (client.give p sz) heap (Function.update gs t .nothing) := by
  have isBlock : (gs t).block = some (p - sizeofMemhdr) := by
    rcases holds with made | claimed
    · rw [made]; rfl
    · rw [claimed]; rfl
  have headed : Headed heap (p - sizeofMemhdr) sz := by
    have ok := inv.held t
    rcases holds with made | claimed
    · rw [made] at ok; exact ok
    · rw [claimed] at ok; exact ok
  have dropped := inv.sameHeap t .nothing trivial (fun a isBlock => by cases isBlock)
    (fun _ _ impossible => by cases impossible)
  rw [Holdings.give, if_neg isPointer]
  refine ⟨inv.heapWf, fun b size isOwned => ?_, dropped.held, dropped.claimed, fun u mh isU => ?_,
    dropped.apart⟩
  · by_cases same : b = p
    · subst same
      simp only [Function.update_self] at isOwned
      cases isOwned
      exact ⟨isPointer, headed⟩
    · simp only [Function.update_of_ne same] at isOwned
      exact inv.owned b size isOwned
  · by_cases same : mh + sizeofMemhdr = p
    · by_cases here : u = t
      · subst here
        rw [Function.update_self] at isU
        cases isU
      · rw [Function.update_of_ne here] at isU
        have isT : (gs t).block = some mh := by
          rw [isBlock, ← same, add_sub_sizeofMemhdr]
        exact absurd (inv.apart u t mh isU isT) here
    · exact (Function.update_of_ne same ..).trans (dropped.apartOwned u mh isU)

/-- A call that starts takes up the block of its argument. -/
theorem custody_start {usesZeroBlocks : Bool} (call : Call) {client' : Holdings Thread}
    (started : (application Thread usesZeroBlocks).start t call client = some client')
    (inv : Custody roomy client heap gs) (idle : gs t = .nothing) :
    Exists fun g => Custody roomy client' heap (Function.update gs t g) ∧ holdStarts call g := by
  have same : Custody roomy client heap (Function.update gs t .nothing) := by
    rw [← idle, Function.update_eq_self]
    exact inv
  cases call with
  | malloc sz =>
      cases started
      exact ⟨.nothing, same, rfl⟩
  | free b =>
      rcases inv.claim idle started with ⟨null, rfl⟩ | ⟨pointer, sz, taken⟩
      · exact ⟨.nothing, same, Or.inl ⟨null, rfl⟩⟩
      · exact ⟨.claimed (b - sizeofMemhdr) sz, taken _ rfl, Or.inr ⟨pointer, sz, rfl⟩⟩
  | realloc b sz =>
      by_cases zeroSize : sz = 0
      · subst zeroSize
        rcases inv.claim idle started with ⟨null, rfl⟩ | ⟨pointer, old, taken⟩
        · have void := inv.sameHeap t .void trivial (fun a isBlock => by cases isBlock)
            (fun _ _ impossible => by cases impossible)
          exact ⟨.void, void, Or.inl ⟨null, rfl⟩⟩
        · exact ⟨.dying (b - sizeofMemhdr) old, taken _ rfl, Or.inr ⟨pointer, old, rfl⟩⟩
      · simp only [holdStarts, if_neg zeroSize]
        rcases inv.claim idle started with ⟨null, rfl⟩ | ⟨pointer, old, taken⟩
        · exact ⟨.nothing, same, Or.inl ⟨null, rfl⟩⟩
        · exact ⟨.claimed (b - sizeofMemhdr) old, taken _ rfl, Or.inr ⟨pointer, old, rfl⟩⟩

/-- A call that returns gives its block to the application. -/
theorem custody_finish {usesZeroBlocks : Bool} {family : Family} (call : Call) {rv : UInt64}
    (zeroNull : usesZeroBlocks = true -> forall b q, zero (.realloc b 0) q ->
      zeroResult family b q = 0)
    (inv : Custody roomy client heap gs) (ends : holdEnds zero family call (gs t) rv) :
    Custody roomy ((application Thread usesZeroBlocks).finish t call rv client) heap
      (Function.update gs t .nothing) := by
  have dropped := inv.sameHeap t .nothing trivial (fun a isBlock => by cases isBlock)
    (fun _ _ impossible => by cases impossible)
  cases call with
  | malloc sz =>
      rcases ends with ⟨rfl, -⟩ | ⟨isPointer, made⟩
      · exact dropped
      · exact inv.give isPointer (Or.inl made)
  | free b => exact dropped
  | realloc b sz =>
      change Custody roomy (if sz = 0 then _ else _) heap _
      by_cases zeroSize : sz = 0
      · subst zeroSize
        rcases ends with ⟨-, q, returns, answered⟩
        rw [if_pos rfl]
        cases usesZeroBlocks with
        | false => exact dropped
        | true =>
            rw [zeroNull rfl b q answered] at returns
            subst returns
            exact dropped
      · rw [holdEnds, if_neg zeroSize] at ends
        rw [if_neg zeroSize]
        rcases ends with ⟨rfl, null, -⟩ | ⟨rfl, isPointer, old, claimed⟩ | ⟨isPointer, made⟩
        · rw [if_pos rfl, Holdings.give, if_pos null]
          exact dropped
        · rw [if_pos rfl, inv.claimed t _ old claimed]
          exact inv.give isPointer (Or.inr claimed)
        · rw [if_neg isPointer]
          exact inv.give isPointer (Or.inl made)

/-- The hooks of every family keep the custody. -/
theorem custody_discipline (family : Family) (tid : Thread -> Nat) {usesZeroBlocks : Bool}
    (zeroNull : usesZeroBlocks = true -> forall b q, zero (.realloc b 0) q ->
      zeroResult family b q = 0) :
    Pool.Discipline (C := application Thread usesZeroBlocks) (M := hookMachine) (fun _ => True)
      (fun t call => hook family (tid t) call) (holding zero) (holdEnds zero family) .nothing
      (fun client w gs => Custody roomy client w.heap gs) where
  silentSound := fun _ _ _ _ _ _ quiet _ _ inv => custody_op (answerOk_of_silent quiet) inv
  bodySound := fun _ _ t => custody_body t
  leaveSound := fun _ _ t => custody_leave t
  start := fun call _ _ _ _ t started inv idle => by
    rcases custody_start call started inv idle with ⟨g, kept, starts⟩
    exact ⟨g, kept, holding_hook family (tid t) starts⟩
  finish := fun call _ _ _ _ _ inv ends => custody_finish call zeroNull inv ends

omit [DecidableEq Thread] in
/-- At the start no block is in use. -/
theorem custody_init (roomy : Prop) :
    Custody roomy (Holdings.none : Holdings Thread) World.init.heap (fun _ => .nothing) where
  heapWf := fun p block impossible => by cases impossible
  owned := fun b sz impossible => by cases impossible
  held := fun t => trivial
  claimed := fun t mh sz impossible => by cases impossible
  apartOwned := fun t mh impossible => by cases impossible
  apart := fun t u mh impossible => by cases impossible

end Rules

end Mprofile
end OsslScripts
