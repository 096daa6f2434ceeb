import OsslScripts.Mprofile.StackSets
import OsslScripts.Foundation.Transition

namespace OsslScripts
namespace Mprofile

open Foundation

/-!
# Runs of the stack sets

The sets of all profiles as one system.  Sets are created, captured stacks are
added to any set at any time, and once a destination is chosen the recorded
stack ids of any set are merged into it one by one, in the order in which they
were recorded.  `mprofile_save` takes the sets one after the other; here they
may also alternate.

The recorded ids matter for the invariant: a source set gives a stack away when
its use count is one, so the count must not fall behind the uses that are still
to be merged.

A stack that moves and keeps its id leaves `stset_id` of the destination as it
is.  If the kept id is not below `stset_id` the next fresh id will run into it.
`KeepsForeignId` is the exact situation.
-/

/-- The sets, the destination of the merge (`0` before it starts), and for each
set the stack ids recorded in its profile and not merged yet. -/
structure StackSystem where
  heap : StackHeap
  master : Nat
  pending : Nat -> List Nat

namespace StackSystem

def init : StackSystem := ⟨.empty, 0, fun _ => []⟩

inductive Label where
  /-- `mprofile_create_stset`, whose `malloc` may fail. -/
  | create (ok : Bool)
  /-- `mprofile_add_stack` of a captured stack, and the record that keeps the id. -/
  | add (stset : Nat) (mps : MprofileStack) (block : Option (Int -> UInt64))
  /-- `mprofile_save` takes this set as the destination. -/
  | choose (stset : Nat)
  /-- `mprofile_merge_stack` for the next record of this set. -/
  | merge (src : Nat) (block : Option (Int -> UInt64))

/-- Why a label cannot be taken. -/
inductive Stop where
  | disabled
  | failed (fault : MergeFault)
deriving DecidableEq

def valid (s : StackSystem) (stset : Nat) : Prop := 0 < stset ∧ stset < s.heap.stsetTop

instance (s : StackSystem) (stset : Nat) : Decidable (s.valid stset) :=
  inferInstanceAs (Decidable (_ ∧ _))

/-- A stack as the hooks capture it: on their own buffer, with a frame at least. -/
def captured (mps : MprofileStack) : Prop := 0 < mps.mpsStackDepth ∧ mps.mpsFlags = 0

instance (mps : MprofileStack) : Decidable (captured mps) := inferInstanceAs (Decidable (_ ∧ _))

def next (s : StackSystem) : Label -> Except Stop StackSystem
  | .create ok => .ok { s with heap := (mprofileCreateStset s.heap ok).1 }
  | .add stset mps block =>
      if s.valid stset ∧ captured mps then
        let (heap, p) := mprofileAddStack s.heap stset mps block
        let id := mprofileGetStackId heap p
        .ok { s with
          heap := heap
          pending := if id = 0 then s.pending
            else Function.update s.pending stset (s.pending stset ++ [id]) }
      else .error .disabled
  | .choose stset =>
      if s.master = 0 ∧ s.valid stset then .ok { s with master := stset } else .error .disabled
  | .merge src block =>
      if s.master ≠ 0 ∧ s.valid src then
        match s.pending src with
        | [] => .error .disabled
        | k :: rest =>
            match mprofileMergeStack s.heap s.master src k block with
            | .ok (heap, _) =>
                .ok { s with heap := heap, pending := Function.update s.pending src rest }
            | .error fault => .error (.failed fault)
      else .error .disabled

end StackSystem

/-- The counter that an addition increments is not at its largest value. -/
def CounterRoom (heap : StackHeap) (stset : Nat) (mps : MprofileStack) : Prop :=
  match heap.findContent mps (heap.stset stset).stsetRbh with
  | some p => (heap.mps p).mpsCount + 1 < 2 ^ 32
  | none => (heap.stset stset).stsetId + 1 < 2 ^ 32

instance (heap : StackHeap) (stset : Nat) (mps : MprofileStack) :
    Decidable (CounterRoom heap stset mps) :=
  show Decidable (match heap.findContent mps (heap.stset stset).stsetRbh with
    | some p => (heap.mps p).mpsCount + 1 < 2 ^ 32
    | none => (heap.stset stset).stsetId + 1 < 2 ^ 32) from
  match heap.findContent mps (heap.stset stset).stsetRbh with
  | some _ => Nat.decLt _ _
  | none => Nat.decLt _ _

/-- A stack with one use left, new to the destination, moves there under an id
which is free in the destination but not below its `stset_id`. -/
def KeepsForeignId (heap : StackHeap) (dst src k : Nat) : Prop :=
  match heap.findId k (heap.stset src).stsetIdRbh with
  | none => False
  | some old => src ≠ dst ∧ (heap.mps old).mpsCount = 1 ∧
      heap.findContent (heap.mps old) (heap.stset dst).stsetRbh = none ∧
      heap.findId k (heap.stset dst).stsetIdRbh = none ∧ (heap.stset dst).stsetId ≤ k

instance (heap : StackHeap) (dst src k : Nat) : Decidable (KeepsForeignId heap dst src k) :=
  show Decidable (match heap.findId k (heap.stset src).stsetIdRbh with
    | none => False
    | some old => src ≠ dst ∧ (heap.mps old).mpsCount = 1 ∧
        heap.findContent (heap.mps old) (heap.stset dst).stsetRbh = none ∧
        heap.findId k (heap.stset dst).stsetIdRbh = none ∧ (heap.stset dst).stsetId ≤ k) from
  match heap.findId k (heap.stset src).stsetIdRbh with
  | none => instDecidableFalse
  | some _ => inferInstance

/-- The condition on one step. -/
def StackSystem.Careful (s : StackSystem) : StackSystem.Label -> Prop
  | .create _ => True
  | .choose _ => True
  | .add stset mps _ => CounterRoom s.heap stset mps
  | .merge src _ =>
      match s.pending src with
      | [] => True
      | k :: _ => ¬ KeepsForeignId s.heap s.master src k ∧
          match s.heap.findId k (s.heap.stset src).stsetIdRbh with
          | none => True
          | some old => src = s.master ∨ CounterRoom s.heap s.master (s.heap.mps old)

instance (s : StackSystem) : (l : StackSystem.Label) -> Decidable (s.Careful l)
  | .create _ => instDecidableTrue
  | .choose _ => instDecidableTrue
  | .add stset mps _ => inferInstanceAs (Decidable (CounterRoom s.heap stset mps))
  | .merge src _ =>
      show Decidable (match s.pending src with
        | [] => True
        | k :: _ => ¬ KeepsForeignId s.heap s.master src k ∧
            match s.heap.findId k (s.heap.stset src).stsetIdRbh with
            | none => True
            | some old => src = s.master ∨ CounterRoom s.heap s.master (s.heap.mps old)) from
      match s.pending src with
      | [] => instDecidableTrue
      | k :: _ =>
          have : Decidable (match s.heap.findId k (s.heap.stset src).stsetIdRbh with
              | none => True
              | some old => src = s.master ∨ CounterRoom s.heap s.master (s.heap.mps old)) :=
            match s.heap.findId k (s.heap.stset src).stsetIdRbh with
            | none => instDecidableTrue
            | some _ => inferInstance
          inferInstance

/-- The representation invariant of one set. -/
structure Represents (heap : StackHeap) (stset : Nat) : Prop where
  sameStacks : forall p, p ∈ (heap.stset stset).stsetRbh ↔ p ∈ (heap.stset stset).stsetIdRbh
  contentOnce : (heap.stset stset).stsetRbh.Nodup
  idOnce : (heap.stset stset).stsetIdRbh.Nodup
  distinctIds : forall p q, p ∈ (heap.stset stset).stsetRbh -> q ∈ (heap.stset stset).stsetRbh ->
    (heap.mps p).mpsId = (heap.mps q).mpsId -> p = q
  below : forall p, p ∈ (heap.stset stset).stsetRbh ->
    (heap.mps p).mpsId < (heap.stset stset).stsetId

/-! ## One set and its recorded ids -/

/-- What is kept of one set, next to well-formedness. -/
structure SetInv (heap : StackHeap) (pending : List Nat) (t : Nat) : Prop where
  below : forall p, p ∈ heap.members t -> heap.idOf p < (heap.stset t).stsetId
  counted : forall p, p ∈ heap.members t -> pending.count (heap.idOf p) ≤ heap.countOf p
  small : forall p, p ∈ heap.members t -> heap.countOf p < 2 ^ 32
  known : forall k, k ∈ pending -> Exists fun p => p ∈ heap.members t ∧ heap.idOf p = k

section Sets

variable {heap heap' : StackHeap} {pending rest : List Nat} {t p old k next : Nat}

theorem StsetWf.id_injective {q : Nat} (wf : StsetWf heap t) (inP : p ∈ heap.members t)
    (inQ : q ∈ heap.members t) (same : heap.idOf p = heap.idOf q) : p = q :=
  wf.ids.injective ((wf.same p).mpr inP) ((wf.same q).mpr inQ) same

theorem SetInv.agree (inv : SetInv heap pending t) (sameSet : heap'.stset t = heap.stset t)
    (agree : forall p, p ∈ heap.members t ->
      heap'.idOf p = heap.idOf p ∧ heap'.countOf p = heap.countOf p) : SetInv heap' pending t := by
  have membersSame : heap'.members t = heap.members t := by
    rw [StackHeap.members, StackHeap.members, sameSet]
  refine ⟨?_, ?_, ?_, ?_⟩
  · intro p member
    rw [membersSame] at member
    rw [(agree p member).1, sameSet]
    exact inv.below p member
  · intro p member
    rw [membersSame] at member
    rw [(agree p member).1, (agree p member).2]
    exact inv.counted p member
  · intro p member
    rw [membersSame] at member
    rw [(agree p member).2]
    exact inv.small p member
  · intro k recorded
    rcases inv.known k recorded with ⟨p, member, isId⟩
    exact ⟨p, by rw [membersSame]; exact member, by rw [(agree p member).1, isId]⟩

/-- Fewer recorded ids ask for less. -/
theorem SetInv.sublist (inv : SetInv heap pending t) (fewer : rest.Sublist pending) :
    SetInv heap rest t :=
  ⟨inv.below, fun p member => (fewer.count_le _).trans (inv.counted p member), inv.small,
    fun k recorded => inv.known k (fewer.subset recorded)⟩

/-- An id that no stack of the set has is recorded nowhere. -/
theorem SetInv.count_fresh (inv : SetInv heap pending t)
    (fresh : forall q, q ∈ heap.members t -> heap.idOf q ≠ k) : pending.count k = 0 := by
  rw [List.count_eq_zero]
  intro recorded
  rcases inv.known k recorded with ⟨q, member, isId⟩
  exact fresh q member isId

/-- One more use of a stack. -/
theorem SetInv.bump (inv : SetInv heap pending t) (room : heap.countOf p + 1 < 2 ^ 32) :
    SetInv (heap.bump p) pending t := by
  have increased : (heap.bump p).countOf p = heap.countOf p + 1 :=
    (countOf_setMps_self heap p _).trans (uintSucc_of_lt room)
  have others : forall q, q ≠ p -> (heap.bump p).countOf q = heap.countOf q :=
    fun q different => countOf_setMps_of_ne heap _ different
  refine ⟨fun q member => ?_, fun q member => ?_, fun q member => ?_, fun k recorded => ?_⟩
  · rw [(bump_agree heap p q).2]
    exact inv.below q member
  · rw [(bump_agree heap p q).2]
    have before := inv.counted q member
    by_cases same : q = p
    · subst same
      omega
    · rw [others q same]
      exact before
  · have before := inv.small q member
    by_cases same : q = p
    · subst same
      omega
    · rw [others q same]
      exact before
  · rcases inv.known k recorded with ⟨q, member, isId⟩
    exact ⟨q, member, by rw [(bump_agree heap p q).2, isId]⟩

/-- One more use of a stack, and the record of it. -/
theorem SetInv.bump_record (inv : SetInv heap pending t) (wf : StsetWf heap t)
    (member : p ∈ heap.members t) (room : heap.countOf p + 1 < 2 ^ 32) :
    SetInv (heap.bump p) (pending ++ [heap.idOf p]) t := by
  have bumped := inv.bump room
  have increased : (heap.bump p).countOf p = heap.countOf p + 1 :=
    (countOf_setMps_self heap p _).trans (uintSucc_of_lt room)
  refine ⟨bumped.below, fun q inSet => ?_, bumped.small, fun k recorded => ?_⟩
  · rw [List.count_append, (bump_agree heap p q).2]
    by_cases same : q = p
    · subst same
      have before := inv.counted q member
      rw [List.count_singleton_self]
      omega
    · have other : heap.idOf p ≠ heap.idOf q :=
        fun equal => same (wf.id_injective member inSet equal).symm
      have before := bumped.counted q inSet
      rw [(bump_agree heap p q).2] at before
      rw [List.count_singleton, if_neg (by simpa using other)]
      exact before
  · rcases List.mem_append.mp recorded with old | last
    · exact bumped.known k old
    · exact ⟨p, member, by rw [(bump_agree heap p p).2, List.mem_singleton.mp last]⟩

/-- A new stack under a new id. -/
theorem SetInv.hang (inv : SetInv heap pending t)
    (freshKey : forall q, q ∈ heap.members t -> heap.key q ≠ heap.key p)
    (freshId : forall q, q ∈ heap.members t -> heap.idOf q ≠ heap.idOf p)
    (small : heap.countOf p < 2 ^ 32) (idBelow : heap.idOf p < next)
    (grows : (heap.stset t).stsetId ≤ next) : SetInv (hangStack heap t p next) pending t := by
  have here := fun q => mem_hang freshKey next q
  have nextIs : ((hangStack heap t p next).stset t).stsetId = next := by
    rw [hangStack, StackHeap.setStset_stset, Function.update_self]
  refine ⟨fun q member => ?_, fun q member => ?_, fun q member => ?_, fun k recorded => ?_⟩
  · rw [nextIs]
    rcases (here q).mp member with rfl | old
    · exact idBelow
    · exact Nat.lt_of_lt_of_le (inv.below q old) grows
  · rcases (here q).mp member with rfl | old
    · change pending.count (heap.idOf q) ≤ heap.countOf q
      rw [inv.count_fresh freshId]
      exact Nat.zero_le _
    · exact inv.counted q old
  · rcases (here q).mp member with rfl | old
    · exact small
    · exact inv.small q old
  · rcases inv.known k recorded with ⟨q, member, isId⟩
    exact ⟨q, (here q).mpr (Or.inr member), isId⟩

/-- A new stack under a new id, and the record of it. -/
theorem SetInv.hang_record (inv : SetInv heap pending t)
    (freshKey : forall q, q ∈ heap.members t -> heap.key q ≠ heap.key p)
    (freshId : forall q, q ∈ heap.members t -> heap.idOf q ≠ heap.idOf p)
    (small : heap.countOf p < 2 ^ 32) (idBelow : heap.idOf p < next)
    (grows : (heap.stset t).stsetId ≤ next) (used : 1 ≤ heap.countOf p) :
    SetInv (hangStack heap t p next) (pending ++ [heap.idOf p]) t := by
  have here := fun q => mem_hang freshKey next q
  have hung := inv.hang freshKey freshId small idBelow grows
  refine ⟨hung.below, fun q member => ?_, hung.small, fun k recorded => ?_⟩
  · rw [List.count_append]
    rcases (here q).mp member with rfl | old
    · change pending.count (heap.idOf q) + [heap.idOf q].count (heap.idOf q) ≤ heap.countOf q
      rw [inv.count_fresh freshId, List.count_singleton_self]
      omega
    · have before := inv.counted q old
      change pending.count (heap.idOf q) + [heap.idOf p].count (heap.idOf q) ≤ heap.countOf q
      have different : heap.idOf p ≠ heap.idOf q := fun equal => freshId q old equal.symm
      rw [List.count_singleton, if_neg (by simpa using different)]
      exact before
  · rcases List.mem_append.mp recorded with old | last
    · exact hung.known k old
    · exact ⟨p, (here p).mpr (Or.inl rfl), (List.mem_singleton.mp last).symm⟩

/-- The last use of a stack is merged, and the stack leaves its set. -/
theorem SetInv.unlink (inv : SetInv heap (k :: rest) t) (wf : StsetWf heap t)
    (member : old ∈ heap.members t) (isId : heap.idOf old = k) (single : heap.countOf old = 1) :
    SetInv (unlinkStack heap t old) rest t := by
  have here := fun q => wf.mem_unlink old q
  have sameNext : ((unlinkStack heap t old).stset t).stsetId = (heap.stset t).stsetId := by
    rw [unlinkStack, StackHeap.setStset_stset, Function.update_self]
  have fewer : rest.Sublist (k :: rest) := List.sublist_cons_self k rest
  -- one use recorded, so no further one is
  have last : k ∉ rest := by
    have counted := inv.counted old member
    rw [isId, single, List.count_cons_self] at counted
    exact List.count_eq_zero.mp (by omega)
  refine ⟨fun q inSet => ?_, fun q inSet => ?_, fun q inSet => ?_, fun j recorded => ?_⟩
  · rw [sameNext]
    exact inv.below q ((here q).mp inSet).2
  · exact (fewer.count_le _).trans (inv.counted q ((here q).mp inSet).2)
  · exact inv.small q ((here q).mp inSet).2
  · rcases inv.known j (List.mem_cons_of_mem k recorded) with ⟨q, inSet, isIdQ⟩
    refine ⟨q, (here q).mpr ⟨?_, inSet⟩, isIdQ⟩
    rintro rfl
    exact last (isId ▸ isIdQ ▸ recorded)

/-- One of several uses of a stack is merged. -/
theorem SetInv.unbump (inv : SetInv heap (k :: rest) t)
    (member : old ∈ heap.members t) (isId : heap.idOf old = k) :
    SetInv (heap.unbump old) rest t := by
  have counted := inv.counted old member
  rw [isId, List.count_cons_self] at counted
  have decreased : (heap.unbump old).countOf old = heap.countOf old - 1 :=
    (countOf_setMps_self heap old _).trans (uintPred_of_pos (by
      change 0 < heap.countOf old
      omega) (inv.small old member))
  have others : forall q, q ≠ old -> (heap.unbump old).countOf q = heap.countOf q :=
    fun q different => countOf_setMps_of_ne heap _ different
  have fewer : rest.Sublist (k :: rest) := List.sublist_cons_self k rest
  refine ⟨fun q inSet => ?_, fun q inSet => ?_, fun q inSet => ?_, fun j recorded => ?_⟩
  · rw [(unbump_agree heap old q).2]
    exact inv.below q inSet
  · rw [(unbump_agree heap old q).2]
    by_cases same : q = old
    · subst same
      rw [decreased, isId]
      omega
    · rw [others q same]
      exact (fewer.count_le _).trans (inv.counted q inSet)
  · have before := inv.small q inSet
    by_cases same : q = old
    · subst same
      rw [decreased]
      omega
    · rw [others q same]
      exact before
  · rcases inv.known j (List.mem_cons_of_mem k recorded) with ⟨q, inSet, isIdQ⟩
    exact ⟨q, inSet, by rw [(unbump_agree heap old q).2, isIdQ]⟩

end Sets

/-! ## All sets -/

/-- What is kept of all sets and their recorded ids. -/
structure SetsInv (heap : StackHeap) (pending : Nat -> List Nat) : Prop where
  wf : StacksWf heap
  set : forall t, SetInv heap (pending t) t
  unborn : forall t, heap.stsetTop ≤ t -> heap.stset t = ⟨1, [], []⟩

namespace SetsInv

variable {heap heap' : StackHeap} {pending : Nat -> List Nat} {t p old k next : Nat}
  {rest : List Nat}

/-- The other sets keep their invariant when neither they nor their stacks change. -/
theorem of_set (inv : SetsInv heap pending) (wf : StacksWf heap')
    (unborn : forall u, heap'.stsetTop ≤ u -> heap'.stset u = ⟨1, [], []⟩) {recorded : List Nat}
    (own : SetInv heap' recorded t)
    (others : forall u, u ≠ t -> heap'.stset u = heap.stset u ∧
      forall q, q ∈ heap.members u -> heap'.idOf q = heap.idOf q ∧
        heap'.countOf q = heap.countOf q) :
    SetsInv heap' (Function.update pending t recorded) := by
  refine ⟨wf, fun u => ?_, unborn⟩
  by_cases same : u = t
  · subst same
    rw [Function.update_self]
    exact own
  · rw [Function.update_of_ne same]
    exact (inv.set u).agree (others u same).1 (others u same).2

/-- Changing an object that hangs in no set. -/
theorem setMps (inv : SetsInv heap pending) (mps : MprofileStack)
    (outside : forall s, p ∉ heap.members s) : SetsInv (heap.setMps p mps) pending := by
  refine ⟨inv.wf.setMps mps outside, fun t => (inv.set t).agree rfl (fun q member => ?_),
    inv.unborn⟩
  have different : q ≠ p := fun same => outside t (same ▸ member)
  rw [countOf_setMps_of_ne heap mps different, StackHeap.idOf, StackHeap.setMps_mps,
    Function.update_of_ne different]
  exact ⟨rfl, rfl⟩

theorem alloc (inv : SetsInv heap pending) (mps : MprofileStack) :
    SetsInv (heap.alloc mps) pending := by
  have changed := inv.setMps mps (p := heap.mpsTop) inv.wf.top_outside
  exact ⟨inv.wf.alloc mps, fun t => (changed.set t).agree rfl (fun _ _ => ⟨rfl, rfl⟩), inv.unborn⟩

/-- A stack of one set is no stack of another. -/
theorem ne_of_apart (inv : SetsInv heap pending) (member : p ∈ heap.members t) {u q : Nat}
    (different : u ≠ t) (inU : q ∈ heap.members u) : q ≠ p := by
  rintro rfl
  exact different (inv.wf.apart u t q inU member)

theorem recount_others (inv : SetsInv heap pending) (member : p ∈ heap.members t) (count : Nat) :
    forall u, u ≠ t ->
      (heap.setMps p { heap.mps p with mpsCount := count }).stset u = heap.stset u ∧
      forall q, q ∈ heap.members u ->
        (heap.setMps p { heap.mps p with mpsCount := count }).idOf q = heap.idOf q ∧
          (heap.setMps p { heap.mps p with mpsCount := count }).countOf q = heap.countOf q :=
  fun _ different => ⟨rfl, fun q inU => ⟨(recount_agree heap p q count).2,
    countOf_setMps_of_ne heap _ (inv.ne_of_apart member different inU)⟩⟩

theorem bump (inv : SetsInv heap pending) (member : p ∈ heap.members t)
    (room : heap.countOf p + 1 < 2 ^ 32) : SetsInv (heap.bump p) pending := by
  have result := inv.of_set (inv.wf.bump p) inv.unborn ((inv.set t).bump room)
    (inv.recount_others member _)
  rwa [Function.update_eq_self] at result

theorem bump_record (inv : SetsInv heap pending) (member : p ∈ heap.members t)
    (room : heap.countOf p + 1 < 2 ^ 32) :
    SetsInv (heap.bump p) (Function.update pending t (pending t ++ [heap.idOf p])) :=
  inv.of_set (inv.wf.bump p) inv.unborn ((inv.set t).bump_record (inv.wf.sets t) member room)
    (inv.recount_others member _)

theorem unbump (inv : SetsInv heap pending) (recorded : pending t = k :: rest)
    (member : old ∈ heap.members t) (isId : heap.idOf old = k) :
    SetsInv (heap.unbump old) (Function.update pending t rest) := by
  have own := inv.set t
  rw [recorded] at own
  exact inv.of_set (inv.wf.unbump old) inv.unborn (own.unbump member isId)
    (inv.recount_others member _)

theorem unborn_setStset (inv : SetsInv heap pending) (born : t < heap.stsetTop)
    (set : MprofileStset) : forall u, (heap.setStset t set).stsetTop ≤ u ->
      (heap.setStset t set).stset u = ⟨1, [], []⟩ := by
  intro u beyond
  have different : u ≠ t := by
    rintro rfl
    exact absurd born (Nat.not_lt.mpr beyond)
  rw [StackHeap.setStset_stset, Function.update_of_ne different]
  exact inv.unborn u beyond

theorem setStset_others (heap : StackHeap) (t : Nat) (set : MprofileStset) :
    forall u, u ≠ t -> (heap.setStset t set).stset u = heap.stset u ∧
      forall q, q ∈ heap.members u ->
        (heap.setStset t set).idOf q = heap.idOf q ∧
          (heap.setStset t set).countOf q = heap.countOf q :=
  fun u different => ⟨by rw [StackHeap.setStset_stset, Function.update_of_ne different],
    fun _ _ => ⟨rfl, rfl⟩⟩

theorem unlink (inv : SetsInv heap pending) (born : t < heap.stsetTop)
    (recorded : pending t = k :: rest) (member : old ∈ heap.members t) (isId : heap.idOf old = k)
    (single : heap.countOf old = 1) :
    SetsInv (unlinkStack heap t old) (Function.update pending t rest) := by
  have own := inv.set t
  rw [recorded] at own
  exact inv.of_set (inv.wf.unlink t old) (inv.unborn_setStset born _)
    (own.unlink (inv.wf.sets t) member isId single) (setStset_others heap t _)

/-- What has to hold of an object before it can hang in a set. -/
structure Hangable (heap : StackHeap) (t p next : Nat) : Prop where
  outside : forall u, p ∉ heap.members u
  allocated : 0 < p ∧ p < heap.mpsTop
  nonempty : 0 < (heap.mps p).mpsStackDepth
  freshKey : forall q, q ∈ heap.members t -> heap.key q ≠ heap.key p
  freshId : forall q, q ∈ heap.members t -> heap.idOf q ≠ heap.idOf p
  small : heap.countOf p < 2 ^ 32
  idBelow : heap.idOf p < next
  grows : (heap.stset t).stsetId ≤ next

theorem hang (inv : SetsInv heap pending) (born : t < heap.stsetTop)
    (able : Hangable heap t p next) : SetsInv (hangStack heap t p next) pending := by
  have result := inv.of_set
    (inv.wf.hang able.outside able.allocated able.nonempty able.freshKey able.freshId next)
    (inv.unborn_setStset born _)
    ((inv.set t).hang able.freshKey able.freshId able.small able.idBelow able.grows)
    (setStset_others heap t _)
  rwa [Function.update_eq_self] at result

theorem hang_record (inv : SetsInv heap pending) (born : t < heap.stsetTop)
    (able : Hangable heap t p next) (used : 1 ≤ heap.countOf p) :
    SetsInv (hangStack heap t p next) (Function.update pending t (pending t ++ [heap.idOf p])) :=
  inv.of_set (inv.wf.hang able.outside able.allocated able.nonempty able.freshKey able.freshId next)
    (inv.unborn_setStset born _)
    ((inv.set t).hang_record able.freshKey able.freshId able.small able.idBelow
      able.grows used)
    (setStset_others heap t _)

/-- The copy of a stack whose content is new to the set can hang there under the next id. -/
theorem hangable_copy (inv : SetsInv heap pending) {mps copy : MprofileStack}
    {block : Option (Int -> UInt64)} (copied : mprofileCopyStack mps block = some copy)
    (nonempty : 0 < mps.mpsStackDepth)
    (absent : forall q, q ∈ heap.members t -> heap.key q ≠ stackKey mps)
    (small : copy.mpsCount < 2 ^ 32) (room : (heap.stset t).stsetId + 1 < 2 ^ 32) :
    Hangable (newStack heap t copy) t heap.mpsTop (uintSucc (heap.stset t).stsetId) := by
  have created : (newStack heap t copy).mps heap.mpsTop =
      { copy with mpsId := (heap.stset t).stsetId } := by
    simp only [newStack, StackHeap.alloc, StackHeap.setMps_mps, Function.update_self]
  have older : forall q, q ∈ heap.members t -> (newStack heap t copy).mps q = heap.mps q := by
    intro q member
    have different : q ≠ heap.mpsTop := fun same => inv.wf.top_outside t (same ▸ member)
    simp only [newStack, StackHeap.alloc, StackHeap.setMps_mps, Function.update_of_ne different]
  have sameFrames := frames_mprofileCopyStack copied
  have key : (newStack heap t copy).key heap.mpsTop = stackKey mps := by
    rw [StackHeap.key, created, stackKey_eq_iff (sameFrames.1.symm ▸ nonempty)]
    exact sameFrames.2
  refine ⟨fun u => inv.wf.top_outside u, ⟨inv.wf.top, Nat.lt_succ_self _⟩, ?_, ?_, ?_, ?_, ?_, ?_⟩
  · rw [created]
    simp only [sameFrames.1, nonempty]
  · intro q member
    rw [key, StackHeap.key, older q member]
    exact absent q member
  · intro q member
    rw [StackHeap.idOf, StackHeap.idOf, older q member, created]
    exact Nat.ne_of_lt ((inv.set t).below q member)
  · rw [StackHeap.countOf, created]
    exact small
  · rw [StackHeap.idOf, created, uintSucc_of_lt room]
    exact Nat.lt_succ_self _
  · rw [uintSucc_of_lt room]
    exact Nat.le_succ _

end SetsInv

/-- The invariant of the system. -/
structure StackInv (s : StackSystem) : Prop where
  sets : SetsInv s.heap s.pending
  master : s.master ≠ 0 -> s.master < s.heap.stsetTop

section Steps

variable {s s' : StackSystem} {heap : StackHeap} {pending : Nat -> List Nat}

theorem stackInv_init : StackInv StackSystem.init := by
  refine ⟨⟨stacksWf_empty, fun t => ⟨?_, ?_, ?_, ?_⟩, fun _ _ => rfl⟩,
    fun chosen => absurd rfl chosen⟩
  · exact fun p member => absurd member List.not_mem_nil
  · exact fun p member => absurd member List.not_mem_nil
  · exact fun p member => absurd member List.not_mem_nil
  · exact fun k recorded => absurd recorded List.not_mem_nil

/-- A set whose handle was not in use yet is already empty. -/
theorem SetsInv.createStset (inv : SetsInv heap pending) (ok : Bool) :
    SetsInv (mprofileCreateStset heap ok).1 pending := by
  cases ok with
  | false => exact inv
  | true =>
      have sameSets : (mprofileCreateStset heap true).1.stset = heap.stset := by
        rw [createStset_stset, ← inv.unborn heap.stsetTop (Nat.le_refl _), Function.update_eq_self]
      exact ⟨inv.wf.createStset true,
        fun t => (inv.set t).agree (by rw [sameSets]) (fun _ _ => ⟨rfl, rfl⟩),
        fun t beyond => by rw [sameSets]; exact inv.unborn t (Nat.le_of_succ_le beyond)⟩

/-- Adding a captured stack and recording its id. -/
theorem SetsInv.add (inv : SetsInv heap pending) {t : Nat} {mps : MprofileStack}
    {block : Option (Int -> UInt64)} (valid : 0 < t ∧ t < heap.stsetTop)
    (captured : StackSystem.captured mps) (room : CounterRoom heap t mps) {result : StackHeap × Nat}
    (added : mprofileAddStack heap t mps block = result) :
    SetsInv result.1
        (if mprofileGetStackId result.1 result.2 = 0 then pending
          else Function.update pending t
            (pending t ++ [mprofileGetStackId result.1 result.2])) ∧
      result.1.stsetTop = heap.stsetTop := by
  have wf := inv.wf.sets t
  rcases mprofileAddStack_cases mps block wf.content (Nat.ne_of_gt valid.1) with
    ⟨p, member, same, outcome⟩ | ⟨absent, ⟨uncopied, outcome⟩ | ⟨copy, copied, outcome⟩⟩
  · rw [outcome] at added
    subst added
    rw [CounterRoom, wf.findContent_some_iff.mpr ⟨member, same⟩] at room
    have id : mprofileGetStackId (heap.bump p) p = heap.idOf p := by
      rw [mprofileGetStackId, if_neg (Nat.ne_of_gt (inv.wf.allocated t p member).1)]
      exact (bump_agree heap p p).2
    simp only [id]
    refine ⟨?_, rfl⟩
    split_ifs
    · exact inv.bump member room
    · exact inv.bump_record member room
  · rw [outcome] at added
    subst added
    exact ⟨by simpa [mprofileGetStackId] using inv, rfl⟩
  · rw [outcome] at added
    subst added
    rw [CounterRoom, findContent_none_iff.mpr absent] at room
    have count : copy.mpsCount = 1 := by
      cases block with
      | none => cases copied
      | some words =>
          cases copied
          simp only [captured.2, mpsFlagManaged]
          rfl
    have able := inv.hangable_copy copied captured.1 absent (by rw [count]; decide) room
    have created : SetsInv (newStack heap t copy) pending := inv.alloc _
    have id : mprofileGetStackId (hangStack (newStack heap t copy) t heap.mpsTop
        (uintSucc (heap.stset t).stsetId)) heap.mpsTop =
          (newStack heap t copy).idOf heap.mpsTop := by
      rw [mprofileGetStackId, if_neg (Nat.ne_of_gt inv.wf.top)]
      rfl
    have used : 1 ≤ (newStack heap t copy).countOf heap.mpsTop := by
      simp only [StackHeap.countOf, newStack, StackHeap.alloc, StackHeap.setMps_mps,
        Function.update_self, count, Nat.le_refl]
    simp only [id]
    refine ⟨?_, rfl⟩
    split_ifs
    · exact created.hang valid.2 able
    · exact created.hang_record valid.2 able used

/-- A single use that moves to another set. -/
theorem SetsInv.move (inv : SetsInv heap pending) {dst src old k : Nat} {rest : List Nat}
    (born : dst < heap.stsetTop ∧ src < heap.stsetTop) (different : dst ≠ src)
    (recorded : pending src = k :: rest) (member : old ∈ heap.members src)
    (isId : heap.idOf old = k) (single : heap.countOf old = 1)
    (notKept : ¬ KeepsForeignId heap dst src k) (room : CounterRoom heap dst (heap.mps old))
    {result : Except MergeFault (StackHeap × Nat)} (moved : MoveCase heap dst src old result) :
    Exists fun after : StackHeap × Nat => result = .ok after ∧
      SetsInv after.1 (Function.update pending src rest) ∧ after.1.stsetTop = heap.stsetTop := by
  have unlinked := inv.unlink born.2 recorded member isId single
  have sameMembers : (unlinkStack heap src old).members dst = heap.members dst :=
    members_unlink_of_ne different
  have sameSet : (unlinkStack heap src old).stset dst = heap.stset dst := by
    rw [unlinkStack, StackHeap.setStset_stset, Function.update_of_ne different]
  have outside := inv.wf.unlink_outside member
  have target := inv.wf.sets dst
  cases moved with
  | folded p inDst same =>
      rw [CounterRoom, target.findContent_some_iff.mpr ⟨inDst, same⟩] at room
      exact ⟨_, rfl, unlinked.bump (p := p) (t := dst) (by rw [sameMembers]; exact inDst) room, rfl⟩
  | kept absent free =>
      have below : k < (heap.stset dst).stsetId := by
        by_contra notBelow
        refine notKept ?_
        rw [KeepsForeignId, (inv.wf.sets src).findId_some_iff.mpr ⟨member, isId⟩]
        exact ⟨different.symm, single, findContent_none_iff.mpr absent,
          target.findId_none_iff.mpr (fun p inDst => isId ▸ free p inDst),
            Nat.le_of_not_lt notBelow⟩
      refine ⟨_, rfl, unlinked.hang born.1 ⟨outside, inv.wf.allocated src old member,
        (inv.wf.sets src).nonempty old member, ?_, ?_, ?_, ?_, ?_⟩, rfl⟩
      · rw [sameMembers]
        exact absent
      · rw [sameMembers]
        exact free
      · exact (inv.set src).small old member
      · change heap.idOf old < _
        rw [isId]
        exact below
      · rw [sameSet]
  | renamed absent taken free =>
      have fresh := inv.set dst
      rw [CounterRoom, findContent_none_iff.mpr absent] at room
      have renamed :=
        unlinked.setMps { heap.mps old with mpsId := (heap.stset dst).stsetId } outside
      have others : forall q, q ∈ heap.members dst -> q ≠ old :=
        fun q inDst => inv.ne_of_apart member different inDst
      have keyOld : ((unlinkStack heap src old).setMps old
          { heap.mps old with mpsId := (heap.stset dst).stsetId }).key old = heap.key old := by
        rw [StackHeap.key, StackHeap.setMps_mps, Function.update_self]
        exact stackKey_congr rfl rfl
      have idOld : ((unlinkStack heap src old).setMps old
          { heap.mps old with mpsId := (heap.stset dst).stsetId }).idOf old =
            (heap.stset dst).stsetId := by
        rw [StackHeap.idOf, StackHeap.setMps_mps, Function.update_self]
      refine ⟨_, rfl, renamed.hang born.1 ⟨outside, inv.wf.allocated src old member, ?_, ?_, ?_, ?_,
        ?_, ?_⟩, rfl⟩
      · rw [StackHeap.setMps_mps, Function.update_self]
        exact (inv.wf.sets src).nonempty old member
      · intro q inDst
        have inOld : q ∈ heap.members dst := by rw [← sameMembers]; exact inDst
        rw [keyOld, StackHeap.key, StackHeap.setMps_mps, Function.update_of_ne (others q inOld)]
        exact absent q inOld
      · intro q inDst
        have inOld : q ∈ heap.members dst := by rw [← sameMembers]; exact inDst
        rw [idOld, StackHeap.idOf, StackHeap.setMps_mps, Function.update_of_ne (others q inOld)]
        exact free q inOld
      · rw [StackHeap.countOf, StackHeap.setMps_mps, Function.update_self]
        exact (inv.set src).small old member
      · rw [idOld, uintSucc_of_lt room]
        exact Nat.lt_succ_self _
      · rw [StackHeap.setMps_stset, sameSet, uintSucc_of_lt room]
        exact Nat.le_succ _
  | refused absent taken clash =>
      rcases clash with ⟨p, inDst, isNext⟩
      exact absurd isNext (Nat.ne_of_lt ((inv.set dst).below p inDst))

/-- One of several uses that is folded into another set. -/
theorem SetsInv.share (inv : SetsInv heap pending) {dst src old k : Nat} {rest : List Nat}
    {block : Option (Int -> UInt64)} (born : dst < heap.stsetTop) (different : dst ≠ src)
    (recorded : pending src = k :: rest) (member : old ∈ heap.members src)
    (isId : heap.idOf old = k) (room : CounterRoom heap dst (heap.mps old))
    {result : Except MergeFault (StackHeap × Nat)} (shared : ShareCase heap dst old block result) :
    (Exists fun after : StackHeap × Nat => result = .ok after ∧
      SetsInv after.1 (Function.update pending src rest) ∧ after.1.stsetTop = heap.stsetTop) ∨
      result = .error .noMemory := by
  have target := inv.wf.sets dst
  cases shared with
  | folded p inDst same =>
      rw [CounterRoom, target.findContent_some_iff.mpr ⟨inDst, same⟩] at room
      have bumped := inv.bump inDst room
      exact Or.inl ⟨_, rfl, bumped.unbump recorded member ((bump_agree heap p old).2.trans isId),
        rfl⟩
  | noMemory absent uncopied => exact Or.inr rfl
  | copied copy absent copied =>
      rw [CounterRoom, findContent_none_iff.mpr absent] at room
      have small : copy.mpsCount < 2 ^ 32 := by
        cases block with
        | none => cases copied
        | some words =>
            cases copied
            have before := (inv.set src).small old member
            change (if _ then _ else _) < _
            split_ifs
            · exact before
            · decide
      have able :=
        inv.hangable_copy copied ((inv.wf.sets src).nonempty old member) absent small room
      have created : SetsInv (newStack heap dst copy) pending := inv.alloc _
      have hung := created.hang born able
      have inSrc : old ∈ (hangStack (newStack heap dst copy) dst heap.mpsTop
          (uintSucc (heap.stset dst).stsetId)).members src := by
        rw [members_hang_of_ne different.symm]
        exact member
      have notTop : old ≠ heap.mpsTop := Nat.ne_of_lt (inv.wf.allocated src old member).2
      refine Or.inl ⟨_, rfl, hung.unbump recorded inSrc ?_, rfl⟩
      rw [StackHeap.idOf, hangStack, StackHeap.setStset_mps, newStack, StackHeap.alloc]
      simp only [StackHeap.setMps_mps, Function.update_of_ne notTop]
      exact isId

/-- A merge that is careful keeps the invariant, or runs out of memory. -/
theorem SetsInv.merge (inv : SetsInv heap pending) {dst src k : Nat} {rest : List Nat}
    (block : Option (Int -> UInt64)) (valid : 0 < dst) (born : dst < heap.stsetTop)
    (bornSrc : src < heap.stsetTop) (recorded : pending src = k :: rest)
    (notKept : ¬ KeepsForeignId heap dst src k)
    (room : forall old, heap.findId k (heap.stset src).stsetIdRbh = some old ->
      src = dst ∨ CounterRoom heap dst (heap.mps old)) :
    (Exists fun after : StackHeap × Nat => mprofileMergeStack heap dst src k block = .ok after ∧
      SetsInv after.1 (Function.update pending src rest) ∧ after.1.stsetTop = heap.stsetTop) ∨
      mprofileMergeStack heap dst src k block = .error .noMemory := by
  by_cases self : src = dst
  · subst self
    rcases (inv.set src).known k (by rw [recorded]; exact List.mem_cons_self) with
      ⟨old, member, isId⟩
    have wf := inv.wf.sets src
    refine Or.inl ⟨_, mprofileMergeStack_self wf.trees ((wf.same old).mpr member) isId
      ((inv.set src).small old member), ?_, rfl⟩
    have own := inv.set src
    rw [recorded] at own
    exact inv.of_set inv.wf inv.unborn (own.sublist (List.sublist_cons_self k rest))
      (fun u _ => ⟨rfl, fun _ _ => ⟨rfl, rfl⟩⟩)
  · have different : dst ≠ src := fun same => self same.symm
    rcases mprofileMergeStack_case k block inv.wf different (Nat.ne_of_gt valid) with
      ⟨unknown, -⟩ | ⟨old, member, isId, ⟨single, moved⟩ | ⟨-, shared⟩⟩
    · rcases (inv.set src).known k (by rw [recorded]; exact List.mem_cons_self) with
        ⟨old, member, isId⟩
      exact absurd isId (unknown old member)
    · have found := (inv.wf.sets src).findId_some_iff.mpr ⟨member, isId⟩
      exact Or.inl (inv.move ⟨born, bornSrc⟩ different recorded member isId single notKept
        ((room old found).resolve_left self) moved)
    · have found := (inv.wf.sets src).findId_some_iff.mpr ⟨member, isId⟩
      exact inv.share born different recorded member isId
        ((room old found).resolve_left self) shared

/-- One careful step keeps the invariant. -/
theorem next_stackInv (inv : StackInv s) {l : StackSystem.Label} (careful : s.Careful l)
    (stepped : s.next l = .ok s') : StackInv s' := by
  cases l with
  | create ok =>
      cases stepped
      refine ⟨inv.sets.createStset ok, fun chosen => Nat.lt_of_lt_of_le (inv.master chosen) ?_⟩
      cases ok with
      | false => exact Nat.le_refl _
      | true => exact Nat.le_succ _
  | add stset mps block =>
      rw [StackSystem.next] at stepped
      by_cases enabled : s.valid stset ∧ StackSystem.captured mps
      · rw [if_pos enabled] at stepped
        cases added : mprofileAddStack s.heap stset mps block with
        | mk heap p =>
            have kept := inv.sets.add enabled.1 enabled.2 careful added
            simp only [added] at stepped
            cases stepped
            exact ⟨kept.1, fun chosen => Nat.lt_of_lt_of_eq (inv.master chosen) kept.2.symm⟩
      · rw [if_neg enabled] at stepped
        cases stepped
  | choose stset =>
      rw [StackSystem.next] at stepped
      by_cases enabled : s.master = 0 ∧ s.valid stset
      · rw [if_pos enabled] at stepped
        cases stepped
        exact ⟨inv.sets, fun _ => enabled.2.2⟩
      · rw [if_neg enabled] at stepped
        cases stepped
  | merge src block =>
      rw [StackSystem.next] at stepped
      by_cases enabled : s.master ≠ 0 ∧ s.valid src
      · rw [if_pos enabled] at stepped
        cases recorded : s.pending src with
        | nil => rw [recorded] at stepped; cases stepped
        | cons k rest =>
            rw [recorded] at stepped
            rw [StackSystem.Careful, recorded] at careful
            rcases inv.sets.merge block (Nat.pos_of_ne_zero enabled.1)
              (inv.master enabled.1) enabled.2.2 recorded careful.1
              (fun old found => by have room := careful.2; rw [found] at room; exact room) with
              ⟨after, merged, kept, sameTop⟩ | failed
            · simp only [merged] at stepped
              cases stepped
              exact ⟨kept, fun chosen => by rw [sameTop]; exact inv.master chosen⟩
            · simp only [failed] at stepped
              cases stepped
      · rw [if_neg enabled] at stepped
        cases stepped

/-- One careful step fails in no assertion. -/
theorem next_no_assert (inv : StackInv s) {l : StackSystem.Label} (careful : s.Careful l)
    {fault : MergeFault} (failed : s.next l = .error (.failed fault)) : fault = .noMemory := by
  cases l with
  | create ok => cases failed
  | add stset mps block =>
      rw [StackSystem.next] at failed
      by_cases enabled : s.valid stset ∧ StackSystem.captured mps
      · rw [if_pos enabled] at failed
        cases failed
      · rw [if_neg enabled] at failed
        cases failed
  | choose stset =>
      rw [StackSystem.next] at failed
      split_ifs at failed
      cases failed
  | merge src block =>
      rw [StackSystem.next] at failed
      by_cases enabled : s.master ≠ 0 ∧ s.valid src
      · rw [if_pos enabled] at failed
        cases recorded : s.pending src with
        | nil => rw [recorded] at failed; cases failed
        | cons k rest =>
            rw [recorded] at failed
            rw [StackSystem.Careful, recorded] at careful
            rcases inv.sets.merge block (Nat.pos_of_ne_zero enabled.1)
              (inv.master enabled.1) enabled.2.2 recorded careful.1
              (fun old found => by have room := careful.2; rw [found] at room; exact room) with
              ⟨after, merged, -, -⟩ | outOfMemory
            · simp only [merged] at failed
              cases failed
            · simp only [outOfMemory] at failed
              cases failed
              rfl
      · rw [if_neg enabled] at failed
        cases failed

theorem StackInv.represents (inv : StackInv s) (stset : Nat) : Represents s.heap stset := by
  have wf := inv.sets.wf.sets stset
  exact ⟨fun p => (wf.same p).symm, wf.content.nodup, wf.ids.nodup,
    fun p q inP inQ same => wf.id_injective inP inQ same, (inv.sets.set stset).below⟩

end Steps

/-- Careful runs keep the representation invariant of every set, so that the
next fresh id is free, and fail in no assertion. -/
theorem stack_sets_represented (labels : List StackSystem.Label)
    (careful : Meets StackSystem.next StackSystem.Careful StackSystem.init labels) :
    (forall s, exec StackSystem.next StackSystem.init labels = .ok s -> forall stset,
        Represents s.heap stset ∧
          s.heap.findId (s.heap.stset stset).stsetId (s.heap.stset stset).stsetIdRbh = none) ∧
      forall fault, exec StackSystem.next StackSystem.init labels = .error (.failed fault) ->
        fault = .noMemory := by
  constructor
  · intro s executed stset
    have inv : StackInv s := exec_invariant StackInv
      (fun _ _ _ inv careful stepped => next_stackInv inv careful stepped) stackInv_init careful
      executed
    refine ⟨inv.represents stset, ?_⟩
    rw [(inv.sets.wf.sets stset).findId_none_iff]
    exact fun p member => Nat.ne_of_lt ((inv.sets.set stset).below p member)
  · intro fault executed
    by_contra assertion
    exact exec_never StackInv (.failed fault)
      (fun _ _ _ inv careful stepped => next_stackInv inv careful stepped)
      (fun _ _ inv careful failed => assertion (next_no_assert inv careful failed)) stackInv_init
      careful executed

/-- A captured stack of one frame. -/
def oneFrame (frame : UInt64) : MprofileStack :=
  ⟨51, 0, 1, 0, 0, 0, fun i => if i = 0 then frame else 0⟩

/-- Two threads without a common stack; the second one uses its stack twice. -/
def disjointRun : List StackSystem.Label :=
  [.create true, .create true, .add 1 (oneFrame 10) (some fun _ => 0),
    .add 2 (oneFrame 20) (some fun _ => 0), .add 2 (oneFrame 20) none, .choose 1, .merge 1 none,
    .merge 2 (some fun _ => 0), .merge 2 none]

theorem stack_sets_represented_disjointRun :
    Exists fun s => exec StackSystem.next StackSystem.init disjointRun = .ok s ∧
      forall stset, Represents s.heap stset :=
  ⟨_, rfl, fun stset => ((stack_sets_represented disjointRun
    (meets_of_check (by decide))).1 _ rfl stset).1⟩

/-- The second thread shares the stack of the first, and has one of its own
which moves to the first set under the id 2. -/
def sharedRun : List StackSystem.Label :=
  [.create true, .create true, .add 1 (oneFrame 10) (some fun _ => 0),
    .add 2 (oneFrame 10) (some fun _ => 0), .add 2 (oneFrame 20) (some fun _ => 0), .choose 1,
    .merge 1 none, .merge 2 none, .merge 2 none]

/-- After this run `stset_id` of the destination is 2, which is an id in use. -/
theorem sharedRun_not_represented :
    ¬ forall labels s, exec StackSystem.next StackSystem.init labels = .ok s ->
      forall stset, Represents s.heap stset := by
  intro always
  have represents := always sharedRun _ rfl 1
  exact absurd (represents.below 3 (by decide)) (by decide)

end Mprofile
end OsslScripts
