import OsslScripts.Foundation.Interning
import OsslScripts.Foundation.Transition
import OsslScripts.Mprofile.Capture

namespace OsslScripts
namespace Mprofile

open Foundation

/-!
# One set and the stacks that are added to it

Any number of calls of `mprofile_add_stack` on one set.  The set interns the
stacks: it has an entry for each of them, counts its uses, and numbers the
entries from 1 on.

Two stacks without frames are compared by the words in front of their arrays,
which are the addresses of the arrays themselves.  These differ for any two
objects, so every call without frames adds an entry of its own.  `exec` rejects
a block or a buffer at the address of a live object, and a copy that fails.
-/

/-- A call of `mprofile_add_stack` with the stack in a hook's buffer. -/
structure AddCall where
  buf : UInt64
  around : Int -> UInt64
  delivered : List UInt64
  /-- The block for the copy, if one is made. -/
  copyBlock : Option (Int -> UInt64)

namespace AddCall

def stack (call : AddCall) : MprofileStack := capturedStack call.buf call.around call.delivered

def frames (call : AddCall) : List UInt64 := call.stack.frames

/-- What the copy of the stack is found by. -/
def key (call : AddCall) : Lex (Nat × List Nat) :=
  if call.frames = [] then toLex (0, [(call.copyBlock.getD (fun _ => 0) (-1)).toNat])
  else stackKey call.stack

end AddCall

inductive AddStop where
  /-- Two live objects at one address. -/
  | sharedAddress
  | copyFailed
deriving DecidableEq, Repr

/-- No live array has this address. -/
def StackHeap.apartFrom (heap : StackHeap) (address : UInt64) : Prop :=
  forall p, p < heap.mpsTop -> (heap.mps p).mpsStack (-1) ≠ address

instance (heap : StackHeap) (address : UInt64) : Decidable (heap.apartFrom address) :=
  inferInstanceAs (Decidable (forall p, p < heap.mpsTop -> (heap.mps p).mpsStack (-1) ≠ address))

/-- One call on the set `s`, next to the ids that were returned so far. -/
def addNext (s : Nat) (st : StackHeap × List Nat) (call : AddCall) :
    Except AddStop (StackHeap × List Nat) :=
  if st.1.apartFrom (call.buf + UInt64.ofNat sizeofMprofileStack) ∧
    st.1.freshBlock call.copyBlock then
    let added := mprofileAddStack st.1 s call.stack call.copyBlock
    if added.2 = 0 then .error .copyFailed
    else .ok (added.1, st.2 ++ [mprofileGetStackId added.1 added.2])
  else .error .sharedAddress

/-- A set that was just created. -/
structure NewSet (heap : StackHeap) (s : Nat) : Prop where
  valid : s ≠ 0
  top : 0 < heap.mpsTop
  empty : heap.stset s = ⟨1, [], []⟩

/-- What a stack set is for: it holds each call stack once. -/
structure EachOnce (heap : StackHeap) (s : Nat) (calls : List AddCall) (ids : List Nat) : Prop where
  /-- Two calls return the same id if and only if they have the same frames. -/
  sameId : forall i j, i < calls.length -> j < calls.length ->
    (ids[i]? = ids[j]? ↔ (calls.map AddCall.frames)[i]? = (calls.map AddCall.frames)[j]?)
  /-- There is one entry for each frame sequence. -/
  entries : ((heap.members s).map (fun p => (heap.mps p).frames)).Perm
    (calls.map AddCall.frames).dedup
  /-- An entry counts the calls that added it. -/
  counts : forall p, p ∈ heap.members s ->
    heap.countOf p = (calls.map AddCall.frames).count (heap.mps p).frames

/-- At most one stack without frames, and neither ids nor counts wrap. -/
structure Countable (calls : List AddCall) : Prop where
  emptyOnce : (calls.map AddCall.frames).count [] ≤ 1
  fewStacks : (calls.map AddCall.frames).dedup.length ≤ 2 ^ 32
  fewUses : forall frames, (calls.map AddCall.frames).count frames < 2 ^ 32

/-! ## Keys -/

section Keys

variable {call : AddCall} {mps : MprofileStack}

/-- The frames that a key stands for. -/
def framesOfKey (key : Lex (Nat × List Nat)) : List UInt64 :=
  if (ofLex key).1 = 0 then [] else (ofLex key).2.map UInt64.ofNat

theorem frames_eq_nil_iff (mps : MprofileStack) : mps.frames = [] ↔ mps.mpsStackDepth = 0 := by
  rw [← List.length_eq_zero_iff, MprofileStack.length_frames]

theorem framesOfKey_stackKey (mps : MprofileStack) : framesOfKey (stackKey mps) = mps.frames := by
  unfold framesOfKey stackKey
  by_cases empty : mps.mpsStackDepth = 0
  · rw [(frames_eq_nil_iff mps).mpr empty]
    exact if_pos empty
  · have parts : (ofLex (toLex (mps.mpsStackDepth, mps.frames.map UInt64.toNat))) =
        (mps.mpsStackDepth, mps.frames.map UInt64.toNat) := rfl
    rw [if_neg empty, parts]
    simp only [if_neg empty, List.map_map]
    refine (List.map_congr_left (fun frame _ => ?_)).trans (List.map_id _)
    exact UInt64.ofNat_toNat

theorem AddCall.framesOfKey_key (call : AddCall) : framesOfKey call.key = call.frames := by
  unfold AddCall.key
  split_ifs with empty
  · exact empty.symm
  · exact framesOfKey_stackKey call.stack

/-- Different frames or two calls without frames: different keys. -/
theorem stackKey_of_empty (empty : mps.frames = []) :
    stackKey mps = toLex (0, [(mps.mpsStack (-1)).toNat]) := by
  have none := (frames_eq_nil_iff mps).mp empty
  rw [stackKey, none, if_pos rfl]

/-- The copy is found by the key of the call. -/
theorem stackKey_copied {copy : MprofileStack}
    (copied : mprofileCopyStack call.stack call.copyBlock = some copy) (id : Nat) :
    stackKey { copy with mpsId := id } = call.key := by
  have same := frames_mprofileCopyStack copied
  have unnamed : stackKey { copy with mpsId := id } = stackKey copy := stackKey_congr rfl rfl
  rw [unnamed]
  unfold AddCall.key AddCall.frames
  by_cases empty : call.stack.frames = []
  · rw [if_pos empty, stackKey_of_empty (same.2.trans empty)]
    cases block : call.copyBlock with
    | none => rw [block] at copied; cases copied
    | some words =>
        rw [block] at copied
        cases copied
        rfl
  · have positive : 0 < copy.mpsStackDepth := by
      rw [same.1]
      exact Nat.pos_of_ne_zero (mt (frames_eq_nil_iff call.stack).mpr empty)
    rw [if_neg empty]
    exact (stackKey_eq_iff positive call.stack).mpr same.2

/-- What lies at another address than the buffer and has the key of its stack is
filed under the key of the call. -/
theorem key_of_known {heap : StackHeap} {p : Nat} (below : p < heap.mpsTop)
    (apart : heap.apartFrom (call.buf + UInt64.ofNat sizeofMprofileStack))
    (same : heap.key p = stackKey call.stack) : call.frames ≠ [] ∧ heap.key p = call.key := by
  have nonempty : call.frames ≠ [] := by
    intro empty
    have depth : (heap.mps p).mpsStackDepth = 0 := by
      rw [depth_eq_of_stackKey_eq same]
      exact (frames_eq_nil_iff call.stack).mp empty
    have words : stackKey (heap.mps p) = stackKey call.stack := same
    rw [stackKey_of_empty empty, stackKey_of_empty ((frames_eq_nil_iff _).mpr depth)] at words
    have word := (List.cons.inj (Prod.mk.inj (toLex.injective words)).2).1
    apply apart p below
    rw [← before_capturedStack call.buf call.around call.delivered]
    exact UInt64.toNat_inj.mp word
  refine ⟨nonempty, ?_⟩
  rw [same, AddCall.key, if_neg nonempty]

/-- A copy in a fresh block is found by no other key. -/
theorem key_of_new {heap : StackHeap} {p : Nat} {copy : MprofileStack} (below : p < heap.mpsTop)
    (fresh : heap.freshBlock call.copyBlock)
    (copied : mprofileCopyStack call.stack call.copyBlock = some copy)
    (different : heap.key p ≠ stackKey call.stack) : heap.key p ≠ call.key := by
  rw [← stackKey_copied copied 0]
  exact key_copied_ne fresh copied below different 0

end Keys

/-! ## The set interns the keys -/

/-- The set after these calls: its entries are the distinct keys in the order of
their first use, numbered and counted modulo `2 ^ 32`. -/
structure Interns (start : StackHeap) (s : Nat) (calls : List AddCall) (st : StackHeap × List Nat) :
    Prop where
  top : st.1.mpsTop = start.mpsTop + (distinct (calls.map AddCall.key)).length
  sorted : OrderedTree.Sorted st.1.key (st.1.stset s).stsetRbh
  members : forall p, p ∈ st.1.members s ↔ start.mpsTop ≤ p ∧ p < st.1.mpsTop
  entries : forall i k, (distinct (calls.map AddCall.key))[i]? = some k ->
    st.1.key (start.mpsTop + i) = k ∧ st.1.idOf (start.mpsTop + i) = (i + 1) % 2 ^ 32 ∧
      st.1.countOf (start.mpsTop + i) = (calls.map AddCall.key).count k % 2 ^ 32
  next : (st.1.stset s).stsetId = ((distinct (calls.map AddCall.key)).length + 1) % 2 ^ 32
  ids : st.2 = (calls.map AddCall.key).map
    (fun k => ((distinct (calls.map AddCall.key)).idxOf k + 1) % 2 ^ 32)
  emptyApart : calls.Pairwise (fun a b => b.frames = [] -> a.key ≠ b.key)

section Run

variable {start : StackHeap} {s : Nat} {calls : List AddCall} {call : AddCall}
  {st st' : StackHeap × List Nat}

/-- The steps that are taken: no object shares its address with another, and a copy is made
where one is needed. -/
theorem addNext_ok (added : addNext s st call = .ok st') :
    st.1.apartFrom (call.buf + UInt64.ofNat sizeofMprofileStack) ∧
      st.1.freshBlock call.copyBlock ∧
      Exists fun p => p ≠ 0 ∧ mprofileAddStack st.1 s call.stack call.copyBlock = (st'.1, p) ∧
        st'.2 = st.2 ++ [st'.1.idOf p] := by
  unfold addNext at added
  split at added
  · rename_i addresses
    cases result : mprofileAddStack st.1 s call.stack call.copyBlock with
    | mk heap p =>
        rw [result] at added
        simp only at added
        by_cases failed : p = 0
        · rw [if_pos failed] at added
          cases added
        · rw [if_neg failed] at added
          cases added
          refine ⟨addresses.1, addresses.2, p, failed, rfl, ?_⟩
          rw [mprofileGetStackId, if_neg failed]
          rfl
  · cases added

theorem Interns.entry_of_member (interns : Interns start s calls st) {p : Nat}
    (member : p ∈ st.1.members s) :
    Exists fun i => p = start.mpsTop + i ∧
      (distinct (calls.map AddCall.key))[i]? = some (st.1.key p) := by
  have bounds := (interns.members p).mp member
  have top := interns.top
  have inside : p - start.mpsTop < (distinct (calls.map AddCall.key)).length := by omega
  have isEntry : start.mpsTop + (p - start.mpsTop) = p := by omega
  have parts := interns.entries (p - start.mpsTop) _ (List.getElem?_eq_getElem inside)
  rw [isEntry] at parts
  exact ⟨p - start.mpsTop, isEntry.symm, by rw [List.getElem?_eq_getElem inside, parts.1]⟩

/-- A stack that the set knows. -/
theorem Interns.known (interns : Interns start s calls st) {p : Nat} (member : p ∈ st.1.members s)
    (nonempty : call.frames ≠ []) (same : st.1.key p = call.key)
    (bumped : st'.1 = st.1.bump p) (returned : st'.2 = st.2 ++ [st'.1.idOf p]) :
    Interns start s (calls ++ [call]) st' := by
  rcases interns.entry_of_member member with ⟨i, rfl, found⟩
  rw [same] at found
  have isKey : call.key ∈ calls.map AddCall.key :=
    (mem_distinct _ _).mp (List.mem_of_getElem? found)
  have keys : distinct ((calls ++ [call]).map AddCall.key) = distinct (calls.map AddCall.key) := by
    rw [List.map_append, List.map_singleton, distinct_append_seen isKey]
  have number : (distinct (calls.map AddCall.key)).idxOf call.key = i := by
    rcases List.getElem?_eq_some_iff.mp found with ⟨inside, isEntry⟩
    rw [← isEntry]
    exact (nodup_distinct _).idxOf_getElem i inside
  have agree := bump_agree st.1 (start.mpsTop + i)
  refine ⟨?_, ?_, ?_, fun j k entry => ?_, ?_, ?_, ?_⟩
  · rw [keys, bumped]
    exact interns.top
  · rw [bumped]
    refine interns.sorted.imp (fun {a b} less => ?_)
    rw [(agree a).1, (agree b).1]
    exact less
  · rw [bumped]
    exact interns.members
  · rw [keys] at entry
    have before := interns.entries j k entry
    rw [bumped, (agree _).1, (agree _).2, List.map_append, List.map_singleton, List.count_append]
    refine ⟨before.1, before.2.1, ?_⟩
    by_cases here : j = i
    · subst here
      have isCall : k = call.key := Option.some.inj (entry.symm.trans found)
      have counted := before.2.2
      unfold StackHeap.countOf at counted
      rw [isCall] at counted ⊢
      rw [List.count_singleton_self, StackHeap.bump, countOf_setMps_self, counted, uintSucc,
        Nat.mod_add_mod]
    · have other : call.key ≠ k := by
        intro equal
        rcases List.getElem?_eq_some_iff.mp entry with ⟨insideJ, isJ⟩
        rcases List.getElem?_eq_some_iff.mp found with ⟨insideI, isI⟩
        exact here ((nodup_distinct _).getElem_inj_iff.mp (by rw [isJ, isI, equal]))
      have apart : start.mpsTop + j ≠ start.mpsTop + i := by omega
      rw [List.count_singleton, if_neg (by simpa using other), Nat.add_zero, StackHeap.bump,
        countOf_setMps_of_ne _ _ apart]
      exact before.2.2
  · rw [keys, bumped]
    exact interns.next
  · rw [returned, bumped, (agree _).2, interns.ids, keys, List.map_append, List.map_append,
      List.map_singleton, List.map_singleton, number, (interns.entries i _ found).2.1]
  · refine List.pairwise_append.mpr ⟨interns.emptyApart, List.pairwise_singleton _ _, ?_⟩
    intro earlier _ last isLast empty
    rw [List.mem_singleton.mp isLast] at empty
    exact absurd empty nonempty

/-- A stack that the set does not know. -/
theorem Interns.added (interns : Interns start s calls st) {copy : MprofileStack}
    (copied : mprofileCopyStack call.stack call.copyBlock = some copy)
    (new : forall p, p ∈ st.1.members s -> st.1.key p ≠ call.key)
    (hung : st'.1 = hangStack (newStack st.1 s copy) s st.1.mpsTop
      (uintSucc (st.1.stset s).stsetId))
    (returned : st'.2 = st.2 ++ [st'.1.idOf st.1.mpsTop]) :
    Interns start s (calls ++ [call]) st' := by
  have top := interns.top
  have others : forall p, p < st.1.mpsTop -> st'.1.mps p = st.1.mps p := by
    intro p below
    rw [hung]
    exact newStack_others st.1 s copy (Nat.ne_of_lt below)
  have own : st'.1.mps st.1.mpsTop = { copy with mpsId := (st.1.stset s).stsetId } := by
    rw [hung]
    exact newStack_self st.1 s copy
  have ownKey : st'.1.key st.1.mpsTop = call.key := by
    unfold StackHeap.key
    rw [own]
    exact stackKey_copied copied _
  have fresh : call.key ∉ calls.map AddCall.key := by
    intro seen
    rcases List.getElem?_of_mem ((mem_distinct _ _).mpr seen) with ⟨i, found⟩
    have inside := (List.getElem?_eq_some_iff.mp found).1
    exact new _ ((interns.members _).mpr ⟨Nat.le_add_right _ i, by omega⟩)
      (interns.entries i _ found).1
  have keys : distinct ((calls ++ [call]).map AddCall.key) =
      distinct (calls.map AddCall.key) ++ [call.key] := by
    rw [List.map_append, List.map_singleton, distinct_append_new fresh]
  have number : (distinct (calls.map AddCall.key) ++ [call.key]).idxOf call.key =
      (distinct (calls.map AddCall.key)).length := by
    rw [List.idxOf_append_of_notMem (mt (mem_distinct _ _).mp fresh), List.idxOf_cons_self,
      Nat.add_zero]
  have top' : st'.1.mpsTop = st.1.mpsTop + 1 := by
    rw [hung]
    rfl
  -- the tree before and after, seen in the heap with the new object
  have sameKey : forall p, p ∈ st.1.members s -> (newStack st.1 s copy).key p = st.1.key p := by
    intro p member
    unfold StackHeap.key
    rw [newStack_others st.1 s copy (Nat.ne_of_lt ((interns.members p).mp member).2)]
  have newKey : (newStack st.1 s copy).key st.1.mpsTop = call.key := by
    unfold StackHeap.key
    rw [newStack_self]
    exact stackKey_copied copied _
  have absent : forall p, p ∈ (newStack st.1 s copy).members s ->
      (newStack st.1 s copy).key p ≠ (newStack st.1 s copy).key st.1.mpsTop := by
    intro p member
    rw [sameKey p member, newKey]
    exact new p member
  have tree := OrderedTree.insert_fresh
    (fun p _ => contentOrder_keyed (newStack st.1 s copy) st.1.mpsTop p) absent
  refine ⟨?_, ?_, fun p => ?_, fun i k entry => ?_, ?_, ?_, ?_⟩
  · rw [keys, List.length_append, List.length_singleton, top', top, Nat.add_assoc]
  · have before : OrderedTree.Sorted (newStack st.1 s copy).key (st.1.stset s).stsetRbh := by
      refine interns.sorted.imp_of_mem (fun {a b} memberA memberB less => ?_)
      rw [sameKey a memberA, sameKey b memberB]
      exact less
    rw [hung, hangStack, StackHeap.setStset_stset, Function.update_self]
    exact tree.2.2 before
  · rw [top', hung, mem_hang absent]
    have before := interns.members p
    have below : start.mpsTop ≤ st.1.mpsTop := by omega
    constructor
    · rintro (rfl | old)
      · exact ⟨below, Nat.lt_succ_self _⟩
      · exact ⟨(before.mp old).1, Nat.lt_succ_of_lt (before.mp old).2⟩
    · rintro ⟨above, within⟩
      rcases Nat.lt_succ_iff_lt_or_eq.mp within with old | rfl
      · exact Or.inr (before.mpr ⟨above, old⟩)
      · exact Or.inl rfl
  · rw [keys] at entry
    rw [List.map_append, List.map_singleton, List.count_append]
    by_cases old : i < (distinct (calls.map AddCall.key)).length
    · rw [List.getElem?_append_left old] at entry
      have before := interns.entries i k entry
      have other : call.key ≠ k := by
        rintro rfl
        exact fresh ((mem_distinct _ _).mp (List.mem_of_getElem? entry))
      have same := others (start.mpsTop + i) (by omega)
      rw [List.count_singleton, if_neg (by simpa using other), Nat.add_zero]
      unfold StackHeap.key StackHeap.idOf StackHeap.countOf at before ⊢
      rw [same]
      exact before
    · rw [List.getElem?_append_right (Nat.le_of_not_lt old)] at entry
      have last : i = (distinct (calls.map AddCall.key)).length := by
        have inside := (List.getElem?_eq_some_iff.mp entry).1
        rw [List.length_singleton] at inside
        omega
      subst last
      rw [Nat.sub_self] at entry
      have isCall : call.key = k := Option.some.inj entry
      rw [← top]
      refine ⟨by rw [ownKey, isCall], ?_, ?_⟩
      · rw [StackHeap.idOf, own]
        exact interns.next
      · have once : copy.mpsCount = 1 := by
          have unmanaged : call.stack.mpsFlags ≠ mpsFlagManaged := by
            rw [AddCall.stack, flags_capturedStack]
            decide
          cases block : call.copyBlock with
          | none => rw [block] at copied; cases copied
          | some words =>
              rw [block] at copied
              cases copied
              exact if_neg unmanaged
        rw [StackHeap.countOf, own, ← isCall, List.count_eq_zero_of_not_mem fresh,
          List.count_singleton_self]
        exact once
  · rw [hung, hangStack, StackHeap.setStset_stset, Function.update_self, keys, List.length_append,
      List.length_singleton]
    simp only
    rw [interns.next, uintSucc, Nat.mod_add_mod]
  · rw [returned, interns.ids, keys, List.map_append, List.map_append, List.map_singleton,
      List.map_singleton, number, StackHeap.idOf, own]
    congr 1
    · apply List.map_congr_left
      intro k seen
      rw [List.idxOf_append_of_mem ((mem_distinct _ _).mpr seen)]
    · exact congrArg (fun id => [id]) interns.next
  · refine List.pairwise_append.mpr ⟨interns.emptyApart, List.pairwise_singleton _ _, ?_⟩
    intro earlier member last isLast _ same
    rw [List.mem_singleton.mp isLast] at same
    exact fresh (same ▸ List.mem_map_of_mem member)

/-- One call. -/
theorem Interns.step (interns : Interns start s calls st) (valid : s ≠ 0)
    (stepped : addNext s st call = .ok st') : Interns start s (calls ++ [call]) st' := by
  rcases addNext_ok stepped with ⟨apart, fresh, p, returned, added, ids⟩
  rcases mprofileAddStack_cases call.stack call.copyBlock interns.sorted valid with
    ⟨q, member, same, known⟩ | ⟨absent, ⟨-, failed⟩ | ⟨copy, copied, new⟩⟩
  · rw [added] at known
    have heap := congrArg Prod.fst known
    have handle := congrArg Prod.snd known
    simp only at heap handle
    subst handle
    have below := ((interns.members p).mp member).2
    have parts := key_of_known below apart same
    exact interns.known member parts.1 parts.2 heap ids
  · rw [added] at failed
    exact absurd (congrArg Prod.snd failed) returned
  · rw [added] at new
    have heap := congrArg Prod.fst new
    have handle := congrArg Prod.snd new
    simp only at heap handle
    subst handle
    refine interns.added copied (fun q member => ?_) heap ids
    exact key_of_new ((interns.members q).mp member).2 fresh copied (absent q member)

theorem interns_new (new : NewSet start s) : Interns start s [] (start, []) := by
  have noMember : forall p, p ∉ start.members s := by
    intro p member
    rw [StackHeap.members, new.empty] at member
    cases member
  refine ⟨rfl, ?_, fun p => ?_, fun i k entry => (by cases entry), ?_, rfl, List.Pairwise.nil⟩
  · rw [new.empty]
    exact List.Pairwise.nil
  · constructor
    · intro member
      exact absurd member (noMember p)
    · rintro ⟨above, below⟩
      exact absurd below (Nat.not_lt.mpr above)
  · rw [new.empty]
    rfl

/-- A run of calls on a new set. -/
theorem interns_exec (new : NewSet start s) (later : List AddCall) :
    forall earlier st st', Interns start s earlier st -> exec (addNext s) st later = .ok st' ->
      Interns start s (earlier ++ later) st' := by
  induction later with
  | nil =>
      intro earlier st st' interns executed
      cases executed
      rwa [List.append_nil]
  | cons call later inductionHypothesis =>
      intro earlier st st' interns executed
      rcases exec_cons_ok executed with ⟨middle, stepped, rest⟩
      have onward := inductionHypothesis (earlier ++ [call]) middle st'
        (interns.step new.valid stepped) rest
      rwa [List.append_assoc, List.singleton_append] at onward

end Run

/-! ## When each stack is held once -/

section Exact

variable {start : StackHeap} {s : Nat} {calls : List AddCall} {st : StackHeap × List Nat}

theorem map_framesOfKey (calls : List AddCall) :
    (calls.map AddCall.key).map framesOfKey = calls.map AddCall.frames := by
  rw [List.map_map]
  exact List.map_congr_left (fun call _ => call.framesOfKey_key)

/-- The entries hold the frames of the distinct keys. -/
theorem Interns.frames_members (interns : Interns start s calls st) :
    ((st.1.members s).map (fun p => (st.1.mps p).frames)).Perm
      ((distinct (calls.map AddCall.key)).map framesOfKey) := by
  have entryFrames : forall p, (st.1.mps p).frames = framesOfKey (st.1.key p) :=
    fun p => (framesOfKey_stackKey (st.1.mps p)).symm
  have nodup : ((st.1.members s).map st.1.key).Nodup :=
    List.pairwise_map.mpr (interns.sorted.imp (fun less => ne_of_lt less))
  have keys : ((st.1.members s).map st.1.key).Perm (distinct (calls.map AddCall.key)) := by
    rw [List.perm_ext_iff_of_nodup nodup (nodup_distinct _)]
    intro k
    rw [List.mem_map]
    constructor
    · rintro ⟨p, member, rfl⟩
      rcases interns.entry_of_member member with ⟨i, -, found⟩
      exact List.mem_of_getElem? found
    · intro member
      rcases List.getElem?_of_mem member with ⟨i, found⟩
      have inside := (List.getElem?_eq_some_iff.mp found).1
      have top := interns.top
      exact ⟨start.mpsTop + i, (interns.members _).mpr ⟨Nat.le_add_right _ i, by omega⟩,
        (interns.entries i k found).1⟩
  have mapped := keys.map framesOfKey
  rw [List.map_map] at mapped
  simp only [entryFrames]
  exact mapped

/-- Keys are told apart by their frames if there is one call without frames at most. -/
theorem Interns.injective_iff (interns : Interns start s calls st) :
    (forall first, first ∈ calls.map AddCall.key -> forall second, second ∈ calls.map AddCall.key ->
        framesOfKey first = framesOfKey second -> first = second) ↔
      (calls.map AddCall.frames).count [] ≤ 1 := by
  have counted : (calls.map AddCall.frames).count [] =
      (calls.filter (fun call => call.frames = [])).length := by
    rw [List.count_eq_countP, List.countP_map, List.countP_eq_length_filter]
    apply congrArg List.length
    apply List.filter_congr
    intro call _
    rw [Bool.eq_iff_iff, decide_eq_true_iff]
    exact beq_iff_eq
  have isEmpty : forall call, call ∈ calls.filter (fun call => call.frames = []) ->
      call ∈ calls ∧ call.frames = [] := by
    intro call member
    have parts := List.mem_filter.mp member
    exact ⟨parts.1, of_decide_eq_true parts.2⟩
  rw [counted]
  constructor
  · intro injective
    have apart := interns.emptyApart.filter (fun call => decide (call.frames = []))
    cases empties : calls.filter (fun call => call.frames = []) with
    | nil => exact Nat.zero_le _
    | cons first rest =>
        cases rest with
        | nil => exact Nat.le_refl _
        | cons second others =>
            have isFirst := isEmpty first (by rw [empties]; exact List.mem_cons_self)
            have isSecond := isEmpty second
              (by rw [empties]; exact List.mem_cons_of_mem _ List.mem_cons_self)
            rw [empties] at apart
            have different := (List.pairwise_cons.mp apart).1 second List.mem_cons_self isSecond.2
            exact absurd (injective _ (List.mem_map_of_mem isFirst.1)
              _ (List.mem_map_of_mem isSecond.1)
              (by rw [first.framesOfKey_key, second.framesOfKey_key, isFirst.2, isSecond.2]))
                different
  · intro once firstKey isFirst secondKey isSecond same
    rcases List.mem_map.mp isFirst with ⟨first, memberFirst, rfl⟩
    rcases List.mem_map.mp isSecond with ⟨second, memberSecond, rfl⟩
    rw [first.framesOfKey_key, second.framesOfKey_key] at same
    by_cases empty : first.frames = []
    · have inFirst : first ∈ calls.filter (fun call => call.frames = []) :=
        List.mem_filter.mpr ⟨memberFirst, decide_eq_true empty⟩
      have inSecond : second ∈ calls.filter (fun call => call.frames = []) :=
        List.mem_filter.mpr ⟨memberSecond, decide_eq_true (same.symm.trans empty)⟩
      cases empties : calls.filter (fun call => call.frames = []) with
      | nil => rw [empties] at inFirst; cases inFirst
      | cons only rest =>
          cases rest with
          | nil =>
              rw [empties, List.mem_singleton] at inFirst inSecond
              rw [inFirst, inSecond]
          | cons next rest =>
              rw [empties, List.length_cons, List.length_cons] at once
              omega
    · have positive : 0 < first.stack.mpsStackDepth :=
        Nat.pos_of_ne_zero (mt (frames_eq_nil_iff first.stack).mpr empty)
      rw [AddCall.key, AddCall.key, if_neg empty, if_neg (same ▸ empty)]
      exact (stackKey_eq_iff positive second.stack).mpr same

/-- The number of a key tells it from the others as long as it does not wrap. -/
theorem wrapped_inj {a b : Nat} (smallA : a < 2 ^ 32) (smallB : b < 2 ^ 32) :
    (a + 1) % 2 ^ 32 = (b + 1) % 2 ^ 32 ↔ a = b := by
  omega

/-- What a call returned, and what it added. -/
theorem Interns.getElem (interns : Interns start s calls st) {i : Nat} (inside : i < calls.length) :
    Exists fun key => key ∈ calls.map AddCall.key ∧
      st.2[i]? = some (((distinct (calls.map AddCall.key)).idxOf key + 1) % 2 ^ 32) ∧
      (calls.map AddCall.frames)[i]? = some (framesOfKey key) := by
  refine ⟨calls[i].key, List.mem_map_of_mem (List.getElem_mem inside), ?_, ?_⟩
  · rw [interns.ids, List.getElem?_map, List.getElem?_map, List.getElem?_eq_getElem inside]
    rfl
  · rw [List.getElem?_map, List.getElem?_eq_getElem inside, AddCall.framesOfKey_key]
    rfl

/-- Two distinct keys `2 ^ 32` apart have the same id. -/
theorem Interns.fewStacks (interns : Interns start s calls st) (each : EachOnce st.1 s calls st.2)
    (injective : forall first, first ∈ calls.map AddCall.key -> forall second,
      second ∈ calls.map AddCall.key -> framesOfKey first = framesOfKey second -> first = second) :
    (distinct (calls.map AddCall.key)).length ≤ 2 ^ 32 := by
  by_contra many
  have wraps : 2 ^ 32 < (distinct (calls.map AddCall.key)).length := Nat.lt_of_not_le many
  have callOf : forall n (inside : n < (distinct (calls.map AddCall.key)).length),
      Exists fun i => Exists fun key => i < calls.length ∧ key ∈ calls.map AddCall.key ∧
        key = (distinct (calls.map AddCall.key))[n] ∧ st.2[i]? = some ((n + 1) % 2 ^ 32) ∧
        (calls.map AddCall.frames)[i]? = some (framesOfKey key) := by
    intro n inside
    have isKey := (mem_distinct _ _).mp (List.getElem_mem inside)
    rcases List.getElem?_of_mem isKey with ⟨i, found⟩
    have within := (List.getElem?_eq_some_iff.mp found).1
    rw [List.length_map] at within
    refine ⟨i, _, within, isKey, rfl, ?_, ?_⟩
    · rw [interns.ids, List.getElem?_map, found, Option.map_some,
        (nodup_distinct _).idxOf_getElem n inside]
    · rw [← map_framesOfKey, List.getElem?_map, found, Option.map_some]
  rcases callOf 0 (by omega) with ⟨i, first, insideI, isFirst, firstEq, firstId, firstFrames⟩
  rcases callOf (2 ^ 32) wraps with ⟨j, second, insideJ, isSecond, secondEq, secondId, secondFrames⟩
  have wrapped : (0 + 1) % 2 ^ 32 = (2 ^ 32 + 1) % 2 ^ 32 := by decide
  have sameIds : st.2[i]? = st.2[j]? := by
    rw [firstId, secondId, wrapped]
  have sameFrames := (each.sameId i j insideI insideJ).mp sameIds
  rw [firstFrames, secondFrames] at sameFrames
  have equal := injective first isFirst second isSecond (Option.some.inj sameFrames)
  rw [firstEq, secondEq] at equal
  have indices := (nodup_distinct (calls.map AddCall.key)).getElem_inj_iff.mp equal
  omega

/-- The set holds each stack once exactly as long as nothing wraps and there is
one stack without frames at most. -/
theorem eachOnce_iff (new : NewSet start s)
    (executed : exec (addNext s) (start, []) calls = .ok st) :
    EachOnce st.1 s calls st.2 ↔ Countable calls := by
  have interns := interns_exec new calls [] (start, []) st (interns_new new) executed
  rw [List.nil_append] at interns
  have frames := map_framesOfKey calls
  have read := perm_map_distinct_iff framesOfKey (calls.map AddCall.key)
  rw [frames] at read
  constructor
  · intro each
    have perm := interns.frames_members.symm.trans each.entries
    have injective := read.mp perm
    have lengths := perm.length_eq
    rw [List.length_map] at lengths
    refine ⟨interns.injective_iff.mp injective, ?_, fun sequence => ?_⟩
    · rw [← lengths]
      exact interns.fewStacks each injective
    · by_cases used : sequence ∈ calls.map AddCall.frames
      · rcases List.mem_map.mp (each.entries.mem_iff.mpr (List.mem_dedup.mpr used)) with
          ⟨p, member, rfl⟩
        rcases interns.entry_of_member member with ⟨i, rfl, found⟩
        rw [← each.counts _ member, (interns.entries i _ found).2.2]
        exact Nat.mod_lt _ (Nat.two_pow_pos 32)
      · rw [List.count_eq_zero_of_not_mem used]
        exact Nat.two_pow_pos 32
  · intro countable
    have injective := interns.injective_iff.mpr countable.emptyOnce
    have perm := read.mpr injective
    have lengths := perm.length_eq
    rw [List.length_map] at lengths
    refine ⟨fun i j insideI insideJ => ?_, interns.frames_members.trans perm, fun p member => ?_⟩
    · rcases interns.getElem insideI with ⟨first, isFirst, firstId, firstFrames⟩
      rcases interns.getElem insideJ with ⟨second, isSecond, secondId, secondFrames⟩
      have small : forall key, key ∈ calls.map AddCall.key ->
          (distinct (calls.map AddCall.key)).idxOf key < 2 ^ 32 := by
        intro key isKey
        have inside := List.idxOf_lt_length_of_mem ((mem_distinct _ _).mpr isKey)
        have few := countable.fewStacks
        omega
      rw [firstId, secondId, firstFrames, secondFrames, Option.some_inj, Option.some_inj,
        wrapped_inj (small first isFirst) (small second isSecond), idxOf_distinct_inj isFirst]
      exact ⟨fun same => by rw [same], injective first isFirst second isSecond⟩
    · rcases interns.entry_of_member member with ⟨i, rfl, found⟩
      have isKey := (mem_distinct _ _).mp (List.mem_of_getElem? found)
      have counted := count_map_of_apart framesOfKey
        (fun other isOther same => injective other isOther _ isKey same)
      rw [frames] at counted
      have entry : (st.1.mps (start.mpsTop + i)).frames =
          framesOfKey (st.1.key (start.mpsTop + i)) :=
        (framesOfKey_stackKey _).symm
      have few := countable.fewUses (framesOfKey (st.1.key (start.mpsTop + i)))
      rw [entry, (interns.entries i _ found).2.2, counted]
      rw [counted] at few
      exact Nat.mod_eq_of_lt few

end Exact

/-- The heap with one new set. -/
def oneStset : StackHeap := (mprofileCreateStset StackHeap.empty true).1

theorem newSet_oneStset : NewSet oneStset 1 := ⟨by decide, by decide, rfl⟩

/-- A call with a buffer at 4096; a copy is made in the block at this address. -/
def addAt (block : UInt64) (delivered : List UInt64) : AddCall :=
  ⟨4096, fun _ => 0, delivered, some (fun _ => block)⟩

/-- One stack twice, a longer one, and one without frames. -/
def ordinaryCalls : List AddCall :=
  [addAt 8192 [10], addAt 8448 [10], addAt 8448 [10, 20], addAt 8704 []]

theorem eachOnce_ordinaryCalls :
    Exists fun st => exec (addNext 1) (oneStset, []) ordinaryCalls = .ok st ∧
      EachOnce st.1 1 ordinaryCalls st.2 := by
  have frames : ordinaryCalls.map AddCall.frames = [[10], [10], [10, 20], []] := by decide +kernel
  have countable : Countable ordinaryCalls := by
    refine ⟨by rw [frames]; decide, by rw [frames]; decide, fun sequence => ?_⟩
    exact Nat.lt_of_le_of_lt List.count_le_length (by rw [frames]; decide)
  exact ⟨_, rfl, (eachOnce_iff newSet_oneStset rfl).mpr countable⟩

/-- Two stacks without frames. -/
def emptyCalls : List AddCall := [addAt 8192 [], addAt 8448 []]

/-- They get the ids 1 and 2. -/
theorem emptyCalls_not_eachOnce :
    ¬ forall calls st, exec (addNext 1) (oneStset, []) calls = .ok st ->
      EachOnce st.1 1 calls st.2 := by
  intro always
  have same := ((always emptyCalls _ rfl).sameId 0 1 (by decide) (by decide)).mpr (by decide)
  exact absurd same (by decide +kernel)

end Mprofile
end OsslScripts
