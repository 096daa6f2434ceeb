import OsslScripts.Foundation.KeyedList
import OsslScripts.Mprofile.Custody
import OsslScripts.Mprofile.SingleThread
import OsslScripts.Mprofile.Sizes

namespace OsslScripts
namespace Mprofile

open Foundation

/-!
# What one thread holds

The blocks that the application of a single thread has been given and has not
given back, with the size it last asked for.  A tag stands for whatever else a
use of this list wants to know of a block.  Every block of the list has its
header, and no two are in one place (`Holding`).
-/

/-- A block of the application. -/
structure HeldBlock (Tag : Type) where
  ptr : UInt64
  sz : UInt64
  tag : Tag
deriving DecidableEq, Repr

/-- The blocks after a call that returned `rv`, a new block getting the tag.
`realloc (b, 0)` ends the life of `b` and makes no block. -/
def Call.settle {Tag : Type} (call : Call) (tag : Tag) (rv : UInt64) (held : List (HeldBlock Tag)) :
    List (HeldBlock Tag) :=
  match call with
  | .malloc sz => if rv = 0 then held else held ++ [⟨rv, sz, tag⟩]
  | .free b => held.filter (fun h => h.ptr ≠ b)
  | .realloc b sz =>
      if sz = 0 then held.filter (fun h => h.ptr ≠ b)
      else if rv = 0 then held
      else if b = 0 then held ++ [⟨rv, sz, tag⟩]
      else held.map (fun h => if h.ptr = b then ⟨rv, sz, h.tag⟩ else h)

/-- The argument is null or a block of the application. -/
def Call.Legal {Tag : Type} (call : Call) (held : List (HeldBlock Tag)) : Prop :=
  call.argument = 0 ∨ call.argument ∈ held.map HeldBlock.ptr

instance {Tag : Type} (call : Call) (held : List (HeldBlock Tag)) : Decidable (call.Legal held) :=
  inferInstanceAs (Decidable (_ ∨ _))

/-- A request for a block that wraps around to 0 leaves the block alone. -/
def Call.Safe (call : Call) (answer : Answer) : Prop :=
  match call with
  | .realloc b sz => b ≠ 0 -> sz + sizeofMemhdr = 0 -> answer.keep = true
  | _ => True

instance (answer : Answer) : (call : Call) -> Decidable (call.Safe answer)
  | .malloc _ => instDecidableTrue
  | .free _ => instDecidableTrue
  | .realloc b sz =>
      inferInstanceAs (Decidable (b ≠ 0 -> sz + sizeofMemhdr = 0 -> answer.keep = true))

/-- The size that a call asks for. -/
def Call.asked : Call -> UInt64
  | .malloc sz => sz
  | .free _ => 0
  | .realloc _ sz => sz

/-- The size of a block that libc hands out fits into `ssize_t`. -/
def Call.Fits (call : Call) (answer : Answer) : Prop :=
  (answer.ptr ≠ 0 -> call.asked.toNat < 2 ^ 63) ∧ call.Safe answer

instance (call : Call) (answer : Answer) : Decidable (call.Fits answer) :=
  inferInstanceAs (Decidable (_ ∧ _))

/-- Every block of the application has its header, and they are apart. -/
structure Holding {Tag : Type} (heap : UInt64 -> Option Block)
    (held : List (HeldBlock Tag)) : Prop where
  heapWf : HeapWf heap
  headed : forall h, h ∈ held -> h.ptr ≠ 0 ∧ Headed heap (h.ptr - sizeofMemhdr) h.sz
  apart : (held.map HeldBlock.ptr).Nodup

section Libc

variable {heap heap' : UInt64 -> Option Block} {answer : Answer} {p q size : UInt64}

/-- `malloc` takes a place where no block is, and leaves the others alone. -/
theorem malloc_frame (taken : Libc.malloc heap size answer = .ok (heap', q)) :
    (forall a, heap a ≠ none -> heap' a = heap a) ∧ (q ≠ 0 -> heap q = none) ∧
      (HeapWf heap -> HeapWf heap') ∧ (q = 0 -> heap' = heap) := by
  unfold Libc.malloc at taken
  split_ifs at taken with null legal
  · cases taken
    exact ⟨fun _ _ => rfl, fun isBlock => absurd rfl isBlock, fun wf => wf, fun _ => rfl⟩
  · cases taken
    refine ⟨fun a live => ?_, fun _ => legal.2.1, fun wf => wf.update ⟨legal.1, legal.2.2⟩,
      fun isNull => absurd isNull null⟩
    have other : a ≠ answer.ptr := fun same => live (same ▸ legal.2.1)
    rw [Function.update_of_ne other]

/-- `realloc` leaves all blocks but its argument alone. -/
theorem realloc_frame (taken : Libc.realloc heap p size answer = .ok (heap', q)) :
    (forall a, heap a ≠ none -> a ≠ p -> heap' a = heap a) ∧ (q ≠ 0 -> heap q = none ∨ q = p) ∧
      (HeapWf heap -> HeapWf heap') := by
  have vacant : forall a, Function.update heap p none a = none -> heap a = none ∨ a = p := by
    intro a isNone
    by_cases same : a = p
    · exact Or.inr same
    · rw [Function.update_of_ne same] at isNone
      exact Or.inl isNone
  have erased : forall a, heap a ≠ none -> a ≠ p -> Function.update heap p none a = heap a :=
    fun a _ other => Function.update_of_ne other none heap
  unfold Libc.realloc at taken
  by_cases null : p = 0
  · rw [if_pos null] at taken
    have frame := malloc_frame taken
    exact ⟨fun a live _ => frame.1 a live, fun isBlock => Or.inl (frame.2.1 isBlock), frame.2.2.1⟩
  · rw [if_neg null] at taken
    cases found : heap p with
    | none => rw [found] at taken; cases taken
    | some block =>
        rw [found] at taken
        simp only at taken
        split_ifs at taken with zeroSize kept failed legal
        · cases taken
          exact ⟨fun _ _ _ => rfl, fun isBlock => absurd rfl isBlock, fun wf => wf⟩
        · have frame := malloc_frame taken
          refine ⟨fun a live other => ?_, fun isBlock => vacant q (frame.2.1 isBlock),
            fun wf => frame.2.2.1 (wf.erase p)⟩
          rw [frame.1 a (by rw [erased a live other]; exact live), erased a live other]
        · cases taken
          exact ⟨fun _ _ _ => rfl, fun isBlock => absurd rfl isBlock, fun wf => wf⟩
        · cases taken
          refine ⟨fun a live other => ?_, fun _ => vacant _ legal.2.1,
            fun wf => (wf.erase p).update ⟨legal.1, legal.2.2⟩⟩
          have different : a ≠ answer.ptr := by
            rintro rfl
            exact live ((erased _ live other).symm.trans legal.2.1)
          rw [Function.update_of_ne different, erased a live other]

/-- A failed `realloc` leaves the heap alone, unless its size is 0. -/
theorem realloc_failed (safe : p ≠ 0 -> size = 0 -> answer.keep = true)
    (taken : Libc.realloc heap p size answer = .ok (heap', 0)) : heap' = heap := by
  have isNull : answer.ptr = 0 := (realloc_result taken).symm
  unfold Libc.realloc at taken
  by_cases null : p = 0
  · rw [if_pos null] at taken
    exact (malloc_frame taken).2.2.2 rfl
  · rw [if_neg null] at taken
    cases found : heap p with
    | none => rw [found] at taken; cases taken
    | some block =>
        rw [found] at taken
        simp only at taken
        by_cases zeroSize : size = 0
        · rw [if_pos zeroSize, if_pos ⟨isNull, safe null zeroSize⟩] at taken
          cases taken
          rfl
        · rw [if_neg zeroSize, if_pos isNull] at taken
          cases taken
          rfl

/-- A block that libc has handed out has the size that was asked for. -/
theorem malloc_block (taken : Libc.malloc heap size answer = .ok (heap', q)) (isBlock : q ≠ 0) :
    Exists fun block => heap' q = some block ∧ block.size = size.toNat := by
  unfold Libc.malloc at taken
  split_ifs at taken
  · cases taken
    exact absurd rfl isBlock
  · cases taken
    exact ⟨_, Function.update_self _ _ _, rfl⟩

theorem realloc_block (taken : Libc.realloc heap p size answer = .ok (heap', q)) (isBlock : q ≠ 0) :
    Exists fun block => heap' q = some block ∧ block.size = size.toNat := by
  unfold Libc.realloc at taken
  by_cases null : p = 0
  · rw [if_pos null] at taken
    exact malloc_block taken isBlock
  · rw [if_neg null] at taken
    cases found : heap p with
    | none => rw [found] at taken; cases taken
    | some block =>
        rw [found] at taken
        simp only at taken
        split_ifs at taken
        · cases taken
          exact absurd rfl isBlock
        · exact malloc_block taken isBlock
        · cases taken
          exact absurd rfl isBlock
        · cases taken
          exact ⟨_, Function.update_self _ _ _, rfl⟩

/-- There is room for the header in a block of this size. -/
theorem storeHeader_room (hdr : Memhdr) {block : Block} (found : heap q = some block)
    (room : sizeofMemhdr.toNat ≤ block.size) : Exists fun heap' =>
      storeHeader heap q hdr = .ok heap' := by
  have header : memhdrAt heap q = some block.hdr := by
    rw [memhdrAt, found]
    exact if_pos room
  rw [storeHeader, found, header]
  exact ⟨_, rfl⟩

theorem storeHeader_ok {sz : UInt64} (stored : storeHeader heap q ⟨sz, mkChk q sz⟩ = .ok heap') :
    Headed heap' q sz ∧ (forall a, a ≠ q -> heap' a = heap a) ∧ (HeapWf heap -> HeapWf heap') := by
  unfold storeHeader at stored
  cases found : heap q with
  | none => rw [found] at stored; cases stored
  | some block =>
      by_cases room : sizeofMemhdr.toNat ≤ block.size
      · have header : memhdrAt heap q = some block.hdr := by
          rw [memhdrAt, found]
          exact if_pos room
        rw [found, header] at stored
        cases stored
        refine ⟨⟨_, Function.update_self _ _ _, room, rfl⟩,
          fun a other => Function.update_of_ne other _ _,
          fun wf => wf.update (wf q block found)⟩
      · have header : memhdrAt heap q = none := by
          rw [memhdrAt, found]
          exact if_neg room
        rw [found, header] at stored
        cases stored

/-- The address behind a header is not null. -/
theorem stored_pointer {sz : UInt64} (wf : HeapWf heap')
    (stored : storeHeader heap q ⟨sz, mkChk q sz⟩ = .ok heap') : q + sizeofMemhdr ≠ 0 := by
  rcases (storeHeader_ok stored).1 with ⟨block, found, room, -⟩
  exact (wf.pointer found room).1

end Libc

section Steps

variable {Tag : Type} {heap heap' : UInt64 -> Option Block} {held held' : List (HeldBlock Tag)}
  {h : HeldBlock Tag} {b sz mh : UInt64} {answer : Answer}

theorem holding_init : Holding World.init.heap ([] : List (HeldBlock Tag)) :=
  ⟨fun _ _ found => (by cases found), fun _ member => absurd member List.not_mem_nil,
    List.nodup_nil⟩

/-- The size that a hook reads is the one that was last asked for. -/
theorem Holding.argumentSize (holding : Holding heap held) (member : h ∈ held) :
    argumentSize heap h.ptr = .ok h.sz := by
  rcases holding.headed h member with ⟨isPointer, headed⟩
  rw [Mprofile.argumentSize, if_pos isPointer, loadHeader, headed.memhdrAt]
  simp only
  rw [if_neg (not_not.mpr rfl)]
  rfl

theorem Holding.legal (holding : Holding heap held) {call : Call} (legal : call.Legal held) :
    Exists fun size => Mprofile.argumentSize heap call.argument = .ok size := by
  rcases legal with null | present
  · exact ⟨0, by rw [null]; rfl⟩
  · rcases List.mem_map.mp present with ⟨h, member, same⟩
    exact ⟨h.sz, by rw [← same]; exact holding.argumentSize member⟩

/-- Blocks that the step has left alone. -/
theorem Holding.frame (holding : Holding heap held) (wf : HeapWf heap')
    (unchanged : forall h, h ∈ held -> heap' (h.ptr - sizeofMemhdr) = heap (h.ptr - sizeofMemhdr)) :
    Holding heap' held :=
  ⟨wf, fun h member =>
    ⟨(holding.headed h member).1, (holding.headed h member).2.congr (unchanged h member)⟩,
    holding.apart⟩

/-- A part of the blocks. -/
theorem Holding.sublist (holding : Holding heap held) (part : held'.Sublist held) :
    Holding heap held' :=
  ⟨holding.heapWf, fun h member => holding.headed h (part.subset member),
    holding.apart.sublist (part.map HeldBlock.ptr)⟩

/-- A block in a new place. -/
theorem Holding.add (holding : Holding heap held) (headed : Headed heap mh sz) (tag : Tag)
    (fresh : forall h, h ∈ held -> h.ptr ≠ mh + sizeofMemhdr) :
    Holding heap (held ++ [⟨mh + sizeofMemhdr, sz, tag⟩]) := by
  have pointer : mh + sizeofMemhdr ≠ 0 := by
    rcases headed with ⟨block, found, room, -⟩
    exact (holding.heapWf.pointer found room).1
  refine ⟨holding.heapWf, fun h member => ?_, ?_⟩
  · rcases List.mem_append.mp member with old | new
    · exact holding.headed h old
    · rw [List.mem_singleton.mp new, add_sub_sizeofMemhdr]
      exact ⟨pointer, headed⟩
  · rw [List.map_append, List.map_singleton]
    refine List.nodup_append.mpr ⟨holding.apart, List.nodup_singleton _, fun a old c new => ?_⟩
    rcases List.mem_map.mp old with ⟨h, member, rfl⟩
    rw [List.mem_singleton.mp new]
    exact fresh h member

/-- The address of a block that is not the argument. -/
theorem Holding.other (holding : Holding heap held) (member : h ∈ held) (different : h.ptr ≠ b) :
    h.ptr - sizeofMemhdr ≠ argumentBlock b := by
  rcases holding.headed h member with ⟨-, headed⟩
  rcases headed with ⟨block, found, -⟩
  intro same
  by_cases null : b = 0
  · rw [argumentBlock, if_neg (not_not.mpr null)] at same
    exact (holding.heapWf _ block found).1 same
  · rw [argumentBlock, if_pos null] at same
    have sum := congrArg (fun x => x + sizeofMemhdr) same
    simp only [sub_add_sizeofMemhdr] at sum
    exact different sum

/-- The argument, when it is resized. -/
theorem Holding.resize (holding : Holding heap held) (wf : HeapWf heap')
    (unchanged : forall h, h ∈ held -> h.ptr ≠ b ->
      heap' (h.ptr - sizeofMemhdr) = heap (h.ptr - sizeofMemhdr))
    (headed : Headed heap' mh sz)
    (fresh : forall h, h ∈ held -> h.ptr ≠ b -> h.ptr ≠ mh + sizeofMemhdr) :
    Holding heap' (held.map (fun h => if h.ptr = b then ⟨mh + sizeofMemhdr, sz, h.tag⟩
      else h)) := by
  have pointer : mh + sizeofMemhdr ≠ 0 := by
    rcases headed with ⟨block, found, room, -⟩
    exact (wf.pointer found room).1
  refine ⟨wf, fun h member => ?_, ?_⟩
  · rcases List.mem_map.mp member with ⟨old, isOld, rfl⟩
    by_cases here : old.ptr = b
    · rw [if_pos here, add_sub_sizeofMemhdr]
      exact ⟨pointer, headed⟩
    · rw [if_neg here]
      exact ⟨(holding.headed old isOld).1,
        (holding.headed old isOld).2.congr (unchanged old isOld here)⟩
  · have ptrs : (held.map (fun h => if h.ptr = b then ⟨mh + sizeofMemhdr, sz, h.tag⟩ else h)).map
        HeldBlock.ptr = (held.map HeldBlock.ptr).map
            (fun p => if p = b then mh + sizeofMemhdr else p) := by
      rw [List.map_map, List.map_map]
      refine List.map_congr_left (fun h _ => ?_)
      rw [Function.comp_apply, Function.comp_apply]
      split_ifs <;> rfl
    rw [ptrs]
    refine List.Nodup.map_on (fun x isX y isY same => ?_) holding.apart
    rcases List.mem_map.mp isX with ⟨hx, memberX, rfl⟩
    rcases List.mem_map.mp isY with ⟨hy, memberY, rfl⟩
    by_cases hereX : hx.ptr = b
    · by_cases hereY : hy.ptr = b
      · rw [hereX, hereY]
      · rw [if_pos hereX, if_neg hereY] at same
        exact absurd same.symm (fresh hy memberY hereY)
    · by_cases hereY : hy.ptr = b
      · rw [if_neg hereX, if_pos hereY] at same
        exact absurd same (fresh hx memberX hereX)
      · rw [if_neg hereX, if_neg hereY] at same
        exact same

/-- What a call does to the blocks of the application. -/
theorem Holding.call (holding : Holding heap held) {call : Call} {out : TracedCall}
    (safe : call.Safe answer) (outcome : TracedOutcome heap answer call out) (tag : Tag) :
    Holding out.heap (call.settle tag out.rv held) := by
  -- a new block is where no block is
  have distinct : forall {q : UInt64}, heap q = none -> forall h, h ∈ held ->
      h.ptr ≠ q + sizeofMemhdr := by
    intro q free h member same
    have live := (holding.headed h member).2.live
    rw [same, add_sub_sizeofMemhdr] at live
    exact live free
  have live : forall h, h ∈ held -> heap (h.ptr - sizeofMemhdr) ≠ none :=
    fun h member => (holding.headed h member).2.live
  cases outcome with
  | @refused sz heap' taken =>
      change Holding heap' ((Call.malloc sz).settle tag 0 held)
      rw [Call.settle, if_pos rfl, (malloc_frame taken).2.2.2 rfl]
      exact holding
  | @made sz mh middle heap' taken isBlock stored =>
      have frame := malloc_frame taken
      rcases storeHeader_ok stored with ⟨headed, others, wf⟩
      have apart : forall h, h ∈ held -> h.ptr - sizeofMemhdr ≠ mh := by
        intro h member same
        exact live h member (same ▸ frame.2.1 isBlock)
      have kept : Holding heap' held :=
        holding.frame (wf (frame.2.2.1 holding.heapWf)) (fun h member => by
        rw [others _ (apart h member), frame.1 _ (live h member)])
      have added := kept.add headed tag (distinct (frame.2.1 isBlock))
      have isPointer : mh + sizeofMemhdr ≠ 0 :=
        (added.headed _ (List.mem_append_right _ (List.mem_singleton.mpr rfl))).1
      change Holding heap' ((Call.malloc sz).settle tag (mh + sizeofMemhdr) held)
      rw [Call.settle, if_neg isPointer]
      exact added
  | @freed b sz heap' read released =>
      have part : (held.filter (fun h => h.ptr ≠ b)).Sublist held := List.filter_sublist
      unfold Libc.free at released
      by_cases noBlock : argumentBlock b = 0
      · rw [if_pos noBlock] at released
        cases released
        exact holding.sublist part
      · rw [if_neg noBlock] at released
        cases found : heap (argumentBlock b) with
        | none => rw [found] at released; cases released
        | some block =>
            rw [found] at released
            cases released
            refine (holding.sublist part).frame (holding.heapWf.erase _) (fun h member => ?_)
            rcases List.mem_filter.mp member with ⟨old, different⟩
            exact Function.update_of_ne (holding.other old (of_decide_eq_true different)) _ _
  | @ended b sz q heap' read taken =>
      have part : (held.filter (fun h => h.ptr ≠ b)).Sublist held := List.filter_sublist
      have frame := realloc_frame taken
      rw [Call.settle, if_pos rfl]
      refine (holding.sublist part).frame (frame.2.2 holding.heapWf) (fun h member => ?_)
      rcases List.mem_filter.mp member with ⟨old, different⟩
      exact frame.1 _ (live h old) (holding.other old (of_decide_eq_true different))
  | @kept b sz origSz heap' isSize read taken =>
      have same : heap' = heap := realloc_failed (fun isBlock wraps => safe (fun null => isBlock (by
        rw [argumentBlock, if_neg (not_not.mpr null)])) wraps) taken
      rw [Call.settle, if_neg isSize, if_pos rfl, same]
      exact holding
  | @resized b sz origSz mh middle heap' isSize read taken isBlock stored =>
      have frame := realloc_frame taken
      rcases storeHeader_ok stored with ⟨headed, others, wf⟩
      have wfAfter := wf (frame.2.2 holding.heapWf)
      have apart : forall h, h ∈ held -> h.ptr ≠ b -> h.ptr - sizeofMemhdr ≠ mh := by
        intro h member different same
        rcases frame.2.1 isBlock with free | isArgument
        · exact live h member (same ▸ free)
        · exact holding.other member different (same.trans isArgument)
      have unchanged : forall h, h ∈ held -> h.ptr ≠ b ->
          heap' (h.ptr - sizeofMemhdr) = heap (h.ptr - sizeofMemhdr) := by
        intro h member different
        rw [others _ (apart h member different),
          frame.1 _ (live h member) (holding.other member different)]
      have isPointer : mh + sizeofMemhdr ≠ 0 := stored_pointer wfAfter stored
      have elsewhere : forall h, h ∈ held -> h.ptr ≠ b -> h.ptr ≠ mh + sizeofMemhdr := by
        intro h member different same
        exact apart h member different (by rw [same, add_sub_sizeofMemhdr])
      change Holding heap' ((Call.realloc b sz).settle tag (mh + sizeofMemhdr) held)
      rw [Call.settle, if_neg isSize, if_neg isPointer]
      by_cases null : b = 0
      · have different : forall h, h ∈ held -> h.ptr ≠ b := fun h member =>
          null ▸ (holding.headed h member).1
        rw [if_pos null]
        exact (holding.frame wfAfter (fun h member => unchanged h member (different h member))).add
          headed tag
          (fun h member => elsewhere h member (different h member))
      · rw [if_neg null]
        exact holding.resize wfAfter unchanged headed elsewhere

/-- A block that the application may pass is live. -/
theorem Holding.argument_live (holding : Holding heap held) {call : Call} (legal : call.Legal held)
    (isBlock : argumentBlock call.argument ≠ 0) : heap (argumentBlock call.argument) ≠ none := by
  rcases legal with null | present
  · rw [null] at isBlock
    exact absurd rfl isBlock
  · rcases List.mem_map.mp present with ⟨h, member, same⟩
    have headed := holding.headed h member
    rw [← same, argumentBlock, if_pos headed.1]
    exact headed.2.live

/-- There is room for the header in what libc hands out. -/
theorem room_of_fits {block : Block} (fits : sz.toNat < 2 ^ 63)
    (isSize : block.size = (sz + sizeofMemhdr).toNat) : sizeofMemhdr.toNat ≤ block.size := by
  have wide := (headed_iff sz).mpr (by omega)
  have header : sizeofMemhdr.toNat = 16 := rfl
  omega

/-- A call with a block of the application goes wrong only on an answer that libc may not give. -/
theorem Holding.traced_fault (holding : Holding heap held) {call : Call} {fault : HookFault}
    (legal : call.Legal held) (fits : call.Fits answer)
    (failed : call.traced heap answer = .error fault) : fault = .notLibc := by
  rcases holding.legal legal with ⟨size, read⟩
  have live := holding.argument_live legal
  cases call with
  | malloc sz =>
      rw [Call.traced] at failed
      cases taken : Libc.malloc heap (sz + sizeofMemhdr) answer with
      | error other =>
          rw [taken] at failed
          cases failed
          exact malloc_fault taken
      | ok result =>
          rcases result with ⟨middle, mh⟩
          rw [taken] at failed
          simp only [ok_bind, pure_ok] at failed
          by_cases isBlock : mh = 0
          · rw [if_pos isBlock] at failed
            cases failed
          · rcases malloc_block taken isBlock with ⟨block, found, isSize⟩
            have granted : answer.ptr ≠ 0 := malloc_result taken ▸ isBlock
            rcases storeHeader_room ⟨sz, mkChk mh sz⟩ found (room_of_fits (fits.1 granted) isSize)
              with ⟨heap', stored⟩
            rw [if_neg isBlock, stored] at failed
            cases failed
  | free b =>
      have isRead : Mprofile.argumentSize heap b = .ok size := read
      rw [Call.traced, isRead] at failed
      simp only [ok_bind, pure_ok] at failed
      cases released : Libc.free heap (argumentBlock b) with
      | ok heap' => rw [released] at failed; cases failed
      | error other =>
          unfold Libc.free at released
          split_ifs at released with noBlock
          cases found : heap (argumentBlock b) with
          | none => exact absurd found (live noBlock)
          | some block => rw [found] at released; cases released
  | realloc b sz =>
      have isRead : Mprofile.argumentSize heap b = .ok size := read
      rw [Call.traced, isRead] at failed
      simp only [ok_bind, pure_ok] at failed
      cases taken : Libc.realloc heap (argumentBlock b) (reallocSize sz) answer with
      | error other =>
          rw [taken] at failed
          cases failed
          exact realloc_fault live taken
      | ok result =>
          rcases result with ⟨middle, mh⟩
          rw [taken] at failed
          simp only [ok_bind] at failed
          by_cases noSize : sz = 0
          · rw [if_pos noSize] at failed
            cases failed
          · by_cases isBlock : mh = 0
            · rw [if_neg noSize, if_pos isBlock] at failed
              cases failed
            · rcases realloc_block taken isBlock with ⟨block, found, isSize⟩
              have granted : answer.ptr ≠ 0 := realloc_result taken ▸ isBlock
              rw [reallocSize, if_pos noSize] at isSize
              rcases storeHeader_room ⟨sz, mkChk mh sz⟩ found (room_of_fits (fits.1 granted) isSize)
                with ⟨heap', stored⟩
              rw [if_neg noSize, if_neg isBlock, stored] at failed
              cases failed

end Steps

end Mprofile
end OsslScripts
