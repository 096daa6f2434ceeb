import OsslScripts.Mprofile.Capture
import OsslScripts.Mprofile.HeaderSafety
import OsslScripts.Mprofile.Sequential

namespace OsslScripts
namespace Mprofile

open Foundation

/-!
# The stack that an operation is filed under

A hook that logs with stacks passes the stack in its buffer to the recording
function, and the record gets the id of an entry in the set of the thread.  The
entry is found by its content, or it is a new one under the next id.

The hook for `realloc` records a request of size 0 before it collects the
backtrace.  Such an operation is filed under a stack without frames.
-/

/-- The record of a call: it has the id that was drawn last, and is the last in
the queue of the thread. -/
structure Appends (w w' : World) (tid : Nat) (mpr : MprofileRecord) : Prop where
  drawn : w'.prof.mprId = w.prof.mprId + 1
  own : mpr.mprId = w'.prof.mprId
  last : (w'.prof.mprofile (w'.prof.specific tid)).mpTqhead.getLast? = some mpr

/-- An id names an entry with these frames, and no other entry of the set. -/
structure NamesStack (heap : StackHeap) (s id : Nat) (frames : List UInt64) : Prop where
  isId : id ≠ 0
  found : Exists fun p => p ∈ heap.members s ∧ heap.idOf p = id
  only : forall p, p ∈ heap.members s -> heap.idOf p = id -> (heap.mps p).frames = frames

/-- The stack id of a record of the thread resolves to these frames. -/
def FiledUnder (w : World) (tid : Nat) (mpr : MprofileRecord) (frames : List UInt64) : Prop :=
  NamesStack w.prof.stackHeap (w.prof.mprofile (w.prof.specific tid)).mpStset mpr.mprStackId frames

/-- The id that a set hands out for a stack: that of the entry with its content, or the next one. -/
def StackHeap.idFor (heap : StackHeap) (s : Nat) (mps : MprofileStack) : Nat :=
  match heap.findContent mps (heap.stset s).stsetRbh with
  | some p => heap.idOf p
  | none => (heap.stset s).stsetId

/-- No other stack of the set has the id that the set hands out, and it is not 0,
which is no id.  The counter of the ids has 32 bits. -/
def Nameable (heap : StackHeap) (s : Nat) (mps : MprofileStack) : Prop :=
  heap.idFor s mps ≠ 0 ∧
    forall p, p ∈ heap.members s -> heap.idOf p = heap.idFor s mps ->
      (heap.mps p).frames = mps.frames

/-- The thread has a set of stacks, or gets one in this call, which can name the stack. -/
def StackReady (w : World) (tid : Nat) (answer : Answer) (mps : MprofileStack) : Prop :=
  if w.prof.specific tid = 0 then answer.stsetOk = true
  else (w.prof.mprofile (w.prof.specific tid)).mpStset ≠ 0 ∧
    Nameable w.prof.stackHeap (w.prof.mprofile (w.prof.specific tid)).mpStset mps

/-- The call is no request of size 0. -/
def Call.Collects : Call -> Prop
  | .realloc _ sz => sz ≠ 0
  | _ => True

/-- When an operation gets the stack of its call. -/
def Fileable (w : World) (tid : Nat) (call : Call) (answer : Answer) : Prop :=
  call.Collects ∧
    StackReady w tid answer (capturedStack answer.stackBuf answer.around answer.backtrace)

/-! ## The sets in every state -/

/-- The content trees are in order, and hold objects that exist. -/
structure StsetsSorted (heap : StackHeap) : Prop where
  sorted : forall s, OrderedTree.Sorted heap.key (heap.stset s).stsetRbh
  allocated : forall s p, p ∈ heap.members s -> 0 < p ∧ p < heap.mpsTop
  top : 0 < heap.mpsTop
  stsetTop : 0 < heap.stsetTop

section Sets

variable {heap : StackHeap} {s p : Nat} {mps copy : MprofileStack} {block : Option (Int -> UInt64)}

theorem stsetsSorted_empty : StsetsSorted StackHeap.empty :=
  ⟨fun _ => List.Pairwise.nil, fun _ _ member => absurd member List.not_mem_nil, Nat.one_pos,
    Nat.one_pos⟩

theorem StsetsSorted.bump (inv : StsetsSorted heap) (p : Nat) : StsetsSorted (heap.bump p) := by
  refine ⟨fun s => ?_, inv.allocated, inv.top, inv.stsetTop⟩
  refine (inv.sorted s).imp (fun {a b} less => ?_)
  rw [(bump_agree heap p a).1, (bump_agree heap p b).1]
  exact less

/-- What a copy is hung next to. -/
structure NewEntry (heap : StackHeap) (s : Nat) (mps copy : MprofileStack) : Prop where
  absent : forall p, p ∈ heap.members s ->
    heap.key p ≠ stackKey { copy with mpsId := (heap.stset s).stsetId }
  frames : copy.frames = mps.frames

theorem newEntry_of_copied (inv : StsetsSorted heap) (fresh : heap.freshBlock block)
    (copied : mprofileCopyStack mps block = some copy)
    (different : forall p, p ∈ heap.members s -> heap.key p ≠ stackKey mps) :
    NewEntry heap s mps copy :=
  ⟨fun p member => key_copied_ne fresh copied (inv.allocated s p member).2 (different p member) _,
    (frames_mprofileCopyStack copied).2⟩

theorem NewEntry.freshKey (inv : StsetsSorted heap) (entry : NewEntry heap s mps copy) :
    forall p, p ∈ (newStack heap s copy).members s ->
      (newStack heap s copy).key p ≠ (newStack heap s copy).key heap.mpsTop := by
  intro p member
  rw [StackHeap.key, StackHeap.key,
    newStack_others heap s copy (Nat.ne_of_lt (inv.allocated s p member).2),
    newStack_self]
  exact entry.absent p member

theorem StsetsSorted.hang (inv : StsetsSorted heap) (entry : NewEntry heap s mps copy)
    (next : Nat) :
    StsetsSorted (hangStack (newStack heap s copy) s heap.mpsTop next) := by
  have inserted := OrderedTree.insert_fresh
    (fun q _ => contentOrder_keyed (newStack heap s copy) heap.mpsTop q) (entry.freshKey inv)
  have older : forall t, OrderedTree.Sorted (newStack heap s copy).key (heap.stset t).stsetRbh := by
    intro t
    refine (inv.sorted t).imp_of_mem (fun {a b} memberA memberB less => ?_)
    rw [StackHeap.key, StackHeap.key,
      newStack_others heap s copy (Nat.ne_of_lt (inv.allocated t a memberA).2),
      newStack_others heap s copy (Nat.ne_of_lt (inv.allocated t b memberB).2)]
    exact less
  refine ⟨fun t => ?_, fun t p member => ?_, Nat.succ_pos _, inv.stsetTop⟩
  · by_cases same : t = s
    · subst same
      rw [hangStack, StackHeap.setStset_stset, Function.update_self]
      exact inserted.2.2 (older t)
    · rw [hangStack, StackHeap.setStset_stset, Function.update_of_ne same]
      exact older t
  · have origin : p = heap.mpsTop ∨ p ∈ heap.members t := by
      by_cases same : t = s
      · subst same
        exact (mem_hang (entry.freshKey inv) next p).mp member
      · rw [members_hang_of_ne same] at member
        exact Or.inr member
    rcases origin with rfl | old
    · exact ⟨inv.top, Nat.lt_succ_self _⟩
    · have parts := inv.allocated t p old
      exact ⟨parts.1, Nat.lt_succ_of_lt parts.2⟩

theorem StsetsSorted.add (inv : StsetsSorted heap) (fresh : heap.freshBlock block) :
    StsetsSorted (mprofileAddStack heap s mps block).1 := by
  by_cases valid : s = 0
  · rw [mprofileAddStack, if_pos valid]
    exact inv
  · rcases mprofileAddStack_cases mps block (inv.sorted s) valid with
      ⟨p, -, -, added⟩ | ⟨absent, ⟨-, added⟩ | ⟨copy, copied, added⟩⟩
    · rw [added]
      exact inv.bump p
    · rw [added]
      exact inv
    · rw [added]
      exact inv.hang (newEntry_of_copied inv fresh copied absent) _

theorem StsetsSorted.create (inv : StsetsSorted heap) (ok : Bool) :
    StsetsSorted (mprofileCreateStset heap ok).1 := by
  unfold mprofileCreateStset
  by_cases granted : ok = true
  · rw [if_pos granted]
    refine ⟨fun t => ?_, fun t p member => ?_, inv.top, Nat.succ_pos _⟩
    · by_cases new : t = heap.stsetTop
      · subst new
        simp only [Function.update_self]
        exact List.Pairwise.nil
      · simp only [Function.update_of_ne new]
        exact inv.sorted t
    · by_cases new : t = heap.stsetTop
      · subst new
        rw [StackHeap.members] at member
        simp only [Function.update_self] at member
        cases member
      · rw [StackHeap.members] at member
        simp only [Function.update_of_ne new] at member
        exact inv.allocated t p member
  · rw [if_neg granted]
    exact inv

/-! ## What an added stack is filed under -/

/-- The set after a stack was added: `p` is its entry, and the others are as they were. -/
structure Entered (heap heap' : StackHeap) (s : Nat) (mps : MprofileStack) (p : Nat) : Prop where
  valid : p ≠ 0
  members : forall q, q ∈ heap'.members s ↔ q = p ∨ q ∈ heap.members s
  own : heap'.idOf p = heap.idFor s mps ∧ (heap'.mps p).frames = mps.frames
  others : forall q, q ∈ heap.members s ->
    heap'.idOf q = heap.idOf q ∧ (heap'.mps q).frames = (heap.mps q).frames

theorem entered_added (mps : MprofileStack) (inv : StsetsSorted heap)
    (fresh : heap.freshBlock block) (valid : s ≠ 0)
    (copied : block ≠ none) :
    Entered heap (mprofileAddStack heap s mps block).1 s mps
      (mprofileAddStack heap s mps block).2 := by
  rcases mprofileAddStack_cases mps block (inv.sorted s) valid with
    ⟨p, member, same, added⟩ | ⟨absent, ⟨failed, -⟩ | ⟨copy, copied, added⟩⟩
  · have known : heap.findContent mps (heap.stset s).stsetRbh = some p :=
      (findContent_some_iff (inv.sorted s)).mpr ⟨member, same⟩
    have handed : heap.idFor s mps = heap.idOf p := by
      rw [StackHeap.idFor, known]
    have kept : forall q, ((heap.bump p).mps q).frames = (heap.mps q).frames :=
      fun q => frames_eq_of_stackKey_eq (bump_agree heap p q).1
    rw [added]
    refine ⟨Nat.ne_of_gt (inv.allocated s p member).1, fun q => ⟨Or.inr, ?_⟩, ⟨?_, ?_⟩,
      fun q _ => ?_⟩
    · rintro (rfl | old)
      · exact member
      · exact old
    · rw [handed, (bump_agree heap p p).2]
    · rw [kept]
      exact frames_eq_of_stackKey_eq same
    · exact ⟨(bump_agree heap p q).2, kept q⟩
  · cases block with
    | none => exact absurd rfl copied
    | some words => cases failed
  · have unknown : heap.findContent mps (heap.stset s).stsetRbh = none :=
      findContent_none_iff.mpr absent
    have entry := newEntry_of_copied inv fresh copied absent
    have own : (newStack heap s copy).mps heap.mpsTop =
        { copy with mpsId := (heap.stset s).stsetId } :=
      newStack_self heap s copy
    rw [added]
    refine ⟨Nat.ne_of_gt inv.top, fun q => mem_hang (entry.freshKey inv) _ q, ⟨?_, ?_⟩,
      fun q member => ?_⟩
    · rw [StackHeap.idFor, unknown, StackHeap.idOf, hangStack, StackHeap.setStset_mps, own]
    · rw [hangStack, StackHeap.setStset_mps, own]
      exact entry.frames
    · rw [StackHeap.idOf, StackHeap.idOf, hangStack, StackHeap.setStset_mps,
        newStack_others heap s copy (Nat.ne_of_lt (inv.allocated s q member).2)]
      exact ⟨rfl, rfl⟩

/-- The id names the frames of the stack exactly if no other stack has it. -/
theorem namesStack_added_iff (inv : StsetsSorted heap) (fresh : heap.freshBlock block)
    (valid : s ≠ 0)
    (copied : block ≠ none) :
    NamesStack (mprofileAddStack heap s mps block).1 s
        (mprofileGetStackId (mprofileAddStack heap s mps block).1
          (mprofileAddStack heap s mps block).2)
        mps.frames ↔
      Nameable heap s mps := by
  have entered := entered_added mps inv fresh valid copied
  generalize mprofileAddStack heap s mps block = added at entered
  have id : mprofileGetStackId added.1 added.2 = heap.idFor s mps := by
    rw [mprofileGetStackId, if_neg entered.valid]
    exact entered.own.1
  rw [id]
  constructor
  · intro names
    refine ⟨names.isId, fun p member same => ?_⟩
    have others := entered.others p member
    rw [← others.2]
    exact names.only p ((entered.members p).mpr (Or.inr member)) (others.1.trans same)
  · rintro ⟨isId, only⟩
    refine ⟨isId, ⟨added.2, (entered.members _).mpr (Or.inl rfl), entered.own.1⟩,
      fun p member same => ?_⟩
    rcases (entered.members p).mp member with rfl | old
    · exact entered.own.2
    · have others := entered.others p old
      rw [others.2]
      exact only p old (others.1.symm.trans same)

/-- A stack without frames is filed under an entry without frames. -/
theorem not_namesStack_empty (inv : StsetsSorted heap) (fresh : heap.freshBlock block)
    (valid : s ≠ 0)
    (copied : block ≠ none) (empty : mps.frames = []) {frames : List UInt64}
    (nonempty : frames ≠ []) :
    ¬ NamesStack (mprofileAddStack heap s mps block).1 s
        (mprofileGetStackId (mprofileAddStack heap s mps block).1
          (mprofileAddStack heap s mps block).2)
        frames := by
  have entered := entered_added mps inv fresh valid copied
  generalize mprofileAddStack heap s mps block = added at entered
  intro names
  have id : mprofileGetStackId added.1 added.2 = added.1.idOf added.2 := if_neg entered.valid
  have own := names.only added.2 ((entered.members _).mpr (Or.inl rfl)) id.symm
  exact nonempty (own.symm.trans (entered.own.2.trans empty))

end Sets

/-! ## Calls -/

section Calls

variable {prof prof' : Profiler} {mp tid : Nat} {mpr : MprofileRecord} {mps : MprofileStack}
  {answer : Answer} {w w' : World} {call : Call} {rv : UInt64} {fuel : Nat}

/-- The stack in the hook's buffer when the operation is recorded. -/
def Call.stack (call : Call) (answer : Answer) : MprofileStack :=
  match call with
  | .realloc _ sz =>
      if sz = 0 then emptyStack answer.stackBuf answer.around
      else capturedStack answer.stackBuf answer.around answer.backtrace
  | _ => capturedStack answer.stackBuf answer.around answer.backtrace

theorem filed_traceWithStack (call : Call) (answer : Answer) :
    Family.traceWithStack.filed call answer = some (call.stack answer) := by
  cases call with
  | malloc sz => rfl
  | free b => rfl
  | realloc b sz =>
      rw [Family.filed, Call.stack]
      split_ifs
      · rfl
      · rfl

theorem stack_of_collects (collects : call.Collects) :
    call.stack answer = capturedStack answer.stackBuf answer.around answer.backtrace := by
  cases call with
  | malloc sz => rfl
  | free b => rfl
  | realloc b sz => exact if_neg collects

theorem frames_of_not_collects (empty : ¬ call.Collects) : (call.stack answer).frames = [] := by
  cases call with
  | malloc sz => exact absurd trivial empty
  | free b => exact absurd trivial empty
  | realloc b sz =>
      rw [Call.stack, if_pos (not_not.mp empty)]
      rfl

/-- What appending a record with a stack does. -/
structure AppendedWith (prof prof' : Profiler) (mp : Nat) (mps : MprofileStack)
    (added : StackHeap × Nat) (block : Option (Int -> UInt64)) : Prop where
  fresh : prof.stackHeap.freshBlock block
  isAdded : mprofileAddStack prof.stackHeap (prof.mprofile mp).mpStset mps block = added
  stackHeap : prof'.stackHeap = added.1
  stset : (prof'.mprofile mp).mpStset = (prof.mprofile mp).mpStset
  specific : prof'.specific = prof.specific
  last : Exists fun mpr => (prof'.mprofile mp).mpTqhead.getLast? = some mpr ∧
    mpr.mprStackId = mprofileGetStackId added.1 added.2

theorem appendedWith_append (appended : prof.append mp mpr (some mps) answer = .ok prof') :
    Exists fun added => AppendedWith prof prof' mp mps added answer.copyBlock := by
  rw [Profiler.append, Profiler.addStack] at appended
  have sameHeap : (prof.enqueue mp mpr).stackHeap = prof.stackHeap := rfl
  have sameSet : ((prof.enqueue mp mpr).mprofile mp).mpStset = (prof.mprofile mp).mpStset := by
    rw [Profiler.enqueue, Profiler.insertTail, Profiler.setMprofile]
    simp only [Function.update_self]
  have queue : ((prof.enqueue mp mpr).mprofile mp).mpTqhead =
      (prof.mprofile mp).mpTqhead ++ [{ mpr with mprId := prof.mprId + 1 }] := by
    rw [Profiler.enqueue, Profiler.insertTail, Profiler.setMprofile]
    simp only [Function.update_self]
  rw [sameHeap, sameSet] at appended
  split_ifs at appended with fresh
  · cases appended
    refine ⟨_, fresh, rfl, rfl, ?_, rfl, ?_⟩
    · rw [Profiler.setStackId, Profiler.setMprofile]
      simp only [Function.update_self]
      exact sameSet
    · rw [Profiler.setStackId, Profiler.setMprofile]
      simp only [Function.update_self]
      rw [queue, List.map_append, List.map_singleton, List.getLast?_concat]
      exact ⟨_, rfl, by simp only [if_true]⟩
  · cases appended

/-- A call that draws an id appends a record with the stack of the call. -/
theorem appendedWith_log {logged : Option MprofileRecord}
    (isLogged : prof.log mp logged (some mps) answer = .ok prof')
    (drawn : prof'.mprId ≠ prof.mprId) :
    Exists fun added => AppendedWith prof prof' mp mps added answer.copyBlock := by
  cases logged with
  | none =>
      cases isLogged
      exact absurd rfl drawn
  | some mpr =>
      rw [Profiler.log] at isLogged
      split_ifs at isLogged
      · exact appendedWith_append isLogged
      · cases isLogged
        exact absurd rfl drawn

theorem mprofileCreate_granted (prof : Profiler) (granted : answer.createOk = true) :
    (prof.mprofileCreate answer).2 = prof.mprofileTop ∧
      (prof.mprofileCreate answer).1.mprId = prof.mprId ∧
      (prof.mprofileCreate answer).1.stackHeap =
        (mprofileCreateStset prof.stackHeap answer.stsetOk).1 ∧
      (prof.mprofileCreate answer).1.mprofile prof.mprofileTop =
        ⟨[], (mprofileCreateStset prof.stackHeap answer.stsetOk).2⟩ := by
  unfold Profiler.mprofileCreate
  simp only [if_pos granted]
  split_ifs
  · exact ⟨rfl, rfl, rfl, Function.update_self _ _ _⟩
  · exact ⟨rfl, rfl, rfl, Function.update_self _ _ _⟩

theorem mprofileCreate_refused (refused : answer.createOk ≠ true) :
    (prof.mprofileCreate answer).2 = 0 := by
  unfold Profiler.mprofileCreate
  rw [if_neg refused]

/-- The profile that a hook works with: the one of its thread, or a new one. -/
theorem getMprofile_cases {found : Profiler × Nat}
    (isFound : prof.getMprofile tid answer = .ok found) :
    (prof.specific tid ≠ 0 ∧ found = (prof, prof.specific tid)) ∨
      (prof.specific tid = 0 ∧ found.1.mprId = prof.mprId ∧ found.1.specific tid = found.2 ∧
        found.1.stackHeap = (mprofileCreateStset prof.stackHeap answer.stsetOk).1 ∧
        (found.1.mprofile found.2).mpStset =
          (mprofileCreateStset prof.stackHeap answer.stsetOk).2) := by
  rw [Profiler.getMprofile] at isFound
  by_cases unknown : prof.specific tid = 0
  · rw [if_pos unknown] at isFound
    simp only at isFound
    by_cases granted : answer.createOk = true
    · rcases mprofileCreate_granted prof granted with ⟨handle, id, heap, set⟩
      split_ifs at isFound
      cases isFound
      refine Or.inr ⟨unknown, id, Function.update_self _ _ _, heap, ?_⟩
      simp only [handle, set]
    · rw [if_pos (mprofileCreate_refused granted)] at isFound
      cases isFound
  · rw [if_neg unknown] at isFound
    cases isFound
    exact Or.inl ⟨unknown, rfl⟩

/-- A set that was just created has the id 1 to hand out. -/
theorem nameable_created (heap : StackHeap) (mps : MprofileStack) :
    Nameable (mprofileCreateStset heap true).1 heap.stsetTop mps := by
  have empty : (mprofileCreateStset heap true).1.stset heap.stsetTop = ⟨1, [], []⟩ :=
    Function.update_self _ _ _
  refine ⟨?_, fun p member => ?_⟩
  · rw [StackHeap.idFor, empty]
    exact Nat.one_ne_zero
  · rw [StackHeap.members, empty] at member
    cases member

/-- The set of the thread can name the stack once the profile is found. -/
theorem stackReady_iff (inv : StsetsSorted w.prof.stackHeap) {found : Profiler × Nat}
    (isFound : w.prof.getMprofile tid answer = .ok found) (mps : MprofileStack) :
    StackReady w tid answer mps ↔ (found.1.mprofile found.2).mpStset ≠ 0 ∧
      Nameable found.1.stackHeap (found.1.mprofile found.2).mpStset mps := by
  rw [StackReady]
  rcases getMprofile_cases isFound with ⟨known, rfl⟩ | ⟨unknown, -, -, heap, set⟩
  · rw [if_neg known]
  · rw [if_pos unknown, heap, set]
    cases ok : answer.stsetOk with
    | false =>
        constructor
        · intro impossible
          cases impossible
        · rintro ⟨isSet, -⟩
          exact absurd rfl isSet
    | true => exact ⟨fun _ => ⟨Nat.ne_of_gt inv.stsetTop, nameable_created _ mps⟩, fun _ => rfl⟩

theorem stsetsSorted_getMprofile (inv : StsetsSorted prof.stackHeap) {found : Profiler × Nat}
    (isFound : prof.getMprofile tid answer = .ok found) : StsetsSorted found.1.stackHeap := by
  rcases getMprofile_cases isFound with ⟨-, rfl⟩ | ⟨-, -, -, heap, -⟩
  · exact inv
  · rw [heap]
    exact inv.create answer.stsetOk

theorem getMprofile_own {found : Profiler × Nat}
    (isFound : prof.getMprofile tid answer = .ok found) :
    found.1.mprId = prof.mprId ∧ found.1.specific tid = found.2 := by
  rcases getMprofile_cases isFound with ⟨-, rfl⟩ | ⟨-, id, own, -, -⟩
  · exact ⟨rfl, rfl⟩
  · exact ⟨id, own⟩

/-- What a stack with the frames of the call is filed under. -/
theorem namesStack_stack_iff {heap : StackHeap} {s : Nat} {added : StackHeap × Nat}
    (inv : StsetsSorted heap) (fresh : heap.freshBlock answer.copyBlock)
    (copied : answer.copyBlock ≠ none)
    (delivered : answer.backtrace ≠ [])
    (isAdded : mprofileAddStack heap s (call.stack answer) answer.copyBlock = added) :
    NamesStack added.1 s (mprofileGetStackId added.1 added.2)
      (answer.backtrace.take stackBufLimit) ↔
      call.Collects ∧ s ≠ 0 ∧
        Nameable heap s (capturedStack answer.stackBuf answer.around answer.backtrace) := by
  subst isAdded
  by_cases valid : s = 0
  · constructor
    · intro names
      rw [mprofileAddStack, if_pos valid] at names
      exact absurd rfl names.isId
    · rintro ⟨-, isSet, -⟩
      exact absurd valid isSet
  · by_cases collects : call.Collects
    · rw [← frames_capturedStack answer.stackBuf answer.around, stack_of_collects collects,
        namesStack_added_iff inv fresh valid copied]
      exact ⟨fun nameable => ⟨collects, valid, nameable⟩, fun parts => parts.2.2⟩
    · have some : answer.backtrace.take stackBufLimit ≠ [] := by
        intro none
        rcases List.take_eq_nil_iff.mp none with zero | empty
        · exact absurd zero (by decide)
        · exact delivered empty
      constructor
      · intro names
        exact absurd names
          (not_namesStack_empty inv fresh valid copied (frames_of_not_collects collects) some)
      · rintro ⟨impossible, -⟩
        exact absurd impossible collects

/-- The record of a call is filed under the frames of the call, as far as they fit,
exactly if the call collects them before it records and the set can name them. -/
theorem filedUnder_iff_of_sorted (inv : StsetsSorted w.prof.stackHeap)
    (ran : hookMachine.run fuel answer (hook .traceWithStack tid call) w = .ok (w', rv))
    (appends : Appends w w' tid mpr) (delivered : answer.backtrace ≠ [])
    (copied : answer.copyBlock ≠ none) :
    FiledUnder w' tid mpr (answer.backtrace.take stackBufLimit) ↔ Fileable w tid call answer := by
  rw [run_hook_traced (by decide), filed_traceWithStack] at ran
  cases isFound : w.prof.getMprofile tid answer with
  | error fault => rw [isFound] at ran; cases ran
  | ok found =>
      rw [isFound] at ran
      simp only [ok_bind, Call.tracedRun] at ran
      cases done : call.traced w.heap answer with
      | error fault => rw [done] at ran; cases ran
      | ok out =>
          rw [done] at ran
          simp only [ok_bind] at ran
          cases logged : found.1.log found.2 out.logged (some (call.stack answer)) answer with
          | error fault => rw [logged] at ran; cases ran
          | ok prof =>
              rw [logged] at ran
              cases ran
              have own := getMprofile_own isFound
              have drawn : prof.mprId ≠ found.1.mprId := by
                have next : prof.mprId = w.prof.mprId + 1 := appends.drawn
                omega
              rcases appendedWith_log logged drawn with ⟨added, step⟩
              have mine : prof.specific tid = found.2 := by
                rw [step.specific]
                exact own.2
              have id : mpr.mprStackId = mprofileGetStackId added.1 added.2 := by
                have last : (prof.mprofile (prof.specific tid)).mpTqhead.getLast? = some mpr :=
                  appends.last
                rcases step.last with ⟨other, isLast, id⟩
                rw [mine, isLast] at last
                cases last
                exact id
              rw [FiledUnder, Fileable, stackReady_iff inv isFound]
              simp only
              rw [mine, step.stackHeap, step.stset, id]
              exact namesStack_stack_iff (stsetsSorted_getMprofile inv isFound) step.fresh copied
                delivered
                step.isAdded

end Calls

/-! ## Runs -/

/-- No operation puts the content trees out of order. -/
theorem stsetsSorted_op {answer : Answer} {o : HookOp} {w w' : World} {r : o.Res}
    (inv : StsetsSorted w.prof.stackHeap) (executed : o.exec answer w = .ok (w', r)) :
    StsetsSorted w'.prof.stackHeap := by
  cases o with
  | libcMalloc size =>
      rw [run_libcMalloc] at executed
      cases taken : Libc.malloc w.heap size answer with
      | error fault => rw [taken] at executed; cases executed
      | ok result => rw [taken] at executed; cases executed; exact inv
  | libcFree p =>
      rw [run_libcFree] at executed
      cases freed : Libc.free w.heap p with
      | error fault => rw [freed] at executed; cases executed
      | ok heap => rw [freed] at executed; cases executed; exact inv
  | libcRealloc p size =>
      rw [run_libcRealloc] at executed
      cases taken : Libc.realloc w.heap p size answer with
      | error fault => rw [taken] at executed; cases executed
      | ok result => rw [taken] at executed; cases executed; exact inv
  | loadMemhdr p =>
      rw [HookOp.exec] at executed
      cases found : memhdrAt w.heap p with
      | none => rw [found] at executed; cases executed
      | some hdr => rw [found] at executed; cases executed; exact inv
  | storeMemhdr p hdr =>
      rw [run_storeMemhdr] at executed
      cases stored : storeHeader w.heap p hdr with
      | error fault => rw [stored] at executed; cases executed
      | ok heap => rw [stored] at executed; cases executed; exact inv
  | abort => cases executed
  | mprofileCreate =>
      cases executed
      by_cases granted : answer.createOk = true
      · rw [(mprofileCreate_granted _ granted).2.2.1]
        exact inv.create answer.stsetOk
      · unfold Profiler.mprofileCreate
        rw [if_neg granted]
        split_ifs
        · exact inv
        · exact inv
  | mprofileAdd mp =>
      rw [HookOp.exec] at executed
      split_ifs at executed
      cases executed
      exact inv
  | insertTail mp mpr =>
      rw [HookOp.exec] at executed
      split_ifs at executed
      cases executed
      exact inv
  | addStack mp mps =>
      rw [HookOp.exec] at executed
      split_ifs at executed with fresh
      cases executed
      exact inv.add fresh
  | _ => cases executed; exact inv

section Runs

variable {Thread : Type} [DecidableEq Thread] {usesZeroBlocks : Bool}

theorem stsetsSorted_run {family : Family} (tid : Thread -> Nat)
    {labels : List (PoolLabel Thread Call Answer)}
    {pool : HookPool Thread usesZeroBlocks}
    (executed : exec (HookPool.next family tid) (HookPool.init Thread usesZeroBlocks) labels =
      .ok pool) :
    StsetsSorted pool.shared.prof.stackHeap := by
  refine exec_invariant_all (fun pool : HookPool Thread usesZeroBlocks =>
    StsetsSorted pool.shared.prof.stackHeap) (fun pool l pool' inv stepped => ?_)
    stsetsSorted_empty executed
  refine Pool.next_keeps (fun w : World => StsetsSorted w.prof.stackHeap) (fun _ => True)
    (fun answer _ o w w' r inv executed => stsetsSorted_op inv executed) (fun loop w inv => ?_) inv
    trivial stepped
  change StsetsSorted (comparePeak loop w).1.prof.stackHeap
  unfold comparePeak
  split_ifs
  · exact inv
  · exact inv

/-- After any run of any threads, a call that appends a record is filed under its
own frames exactly if it is no `realloc` to size 0 and the set can name the stack. -/
theorem filedUnder_iff {family : Family} (tidOf : Thread -> Nat)
    (labels : List (PoolLabel Thread Call Answer)) (pool : HookPool Thread usesZeroBlocks)
    (executed : exec (HookPool.next family tidOf) (HookPool.init Thread usesZeroBlocks) labels =
      .ok pool)
    (fuel tid : Nat) (call : Call) (answer : Answer) (w' : World) (rv : UInt64)
    (mpr : MprofileRecord)
    (ran : hookMachine.run fuel answer (hook .traceWithStack tid call) pool.shared = .ok (w', rv))
    (appends : Appends pool.shared w' tid mpr) (delivered : answer.backtrace ≠ [])
    (copied : answer.copyBlock ≠ none) :
    FiledUnder w' tid mpr (answer.backtrace.take stackBufLimit) ↔
      Fileable pool.shared tid call answer :=
  filedUnder_iff_of_sorted (stsetsSorted_run tidOf executed) ran appends delivered copied

end Runs

/-- Libc answers 4096, the unwinder delivers two frames, and there is a block for a copy. -/
def twoFrames : Answer :=
  { answering 4096 with
    copyBlock := some (fun _ => 8192), stackBuf := 12288, backtrace := [10, 20] }

theorem filedUnder_iff_firstMalloc : Exists fun w' => Exists fun mpr =>
    hookMachine.run 2 twoFrames (hook .traceWithStack 0 (.malloc 8)) World.init = .ok (w', 4112) ∧
      Appends World.init w' 0 mpr ∧ FiledUnder w' 0 mpr [10, 20] := by
  have executed : exec (HookPool.next .traceWithStack (fun t : Nat => t))
      (HookPool.init Nat false) [] = .ok (HookPool.init Nat false) := rfl
  have unknown : (HookPool.init Nat false).shared.prof.specific 0 = 0 := rfl
  refine ⟨_, _, rfl, ⟨rfl, rfl, rfl⟩, ?_⟩
  refine (filedUnder_iff _ _ _ executed 2 0 (.malloc 8) twoFrames _ 4112 _ rfl ⟨rfl, rfl, rfl⟩
    (by decide) (by decide)).mpr ⟨trivial, ?_⟩
  rw [StackReady, if_pos unknown]
  rfl

/-- A request of size 0 is recorded before its two frames are collected. -/
theorem reallocZero_not_filed :
    ¬ forall call w' rv mpr,
      hookMachine.run 2 twoFrames (hook .traceWithStack 0 call) World.init = .ok (w', rv) ->
        Appends World.init w' 0 mpr -> FiledUnder w' 0 mpr [10, 20] := by
  intro always
  have filed := always (.realloc 0 0) _ _ _ rfl ⟨rfl, rfl, rfl⟩
  exact absurd (filed.only 1 (by decide) rfl) (by decide)

end Mprofile
end OsslScripts
