import OsslScripts.Mprofile.LinkedChains
import OsslScripts.Mprofile.LinkedDrain

namespace OsslScripts
namespace Mprofile

open Foundation
open Utils

/-!
# Saving linked records

`mprofile_save` on linked structures.  The records leave the queues of their profiles
for the sorter, their stacks go over to the set of the first profile, and the profiles
are destroyed; then the sorter is drained into the queue of the first profile, the
chains are linked and the document is written.
-/

/-- All stacks of the set are in its id tree. -/
def StackHeap.Whole (heap : StackHeap) (s : Nat) : Prop :=
  forall p, p ∈ heap.members s -> p ∈ (heap.stset s).stsetIdRbh

/-- A merge takes memory for one stack at most, and keeps sets whole. -/
structure MergeBounds (heap heap' : StackHeap) (dst : Nat) : Prop where
  mpsTop : heap'.mpsTop ≤ heap.mpsTop + 1
  stsetTop : heap'.stsetTop = heap.stsetTop
  whole : forall t, t ≠ dst -> heap.Whole t -> heap'.Whole t

section Bounds

variable {heap heap' : StackHeap} {s t p dst src old stackId : Nat} {block : Option (Int -> UInt64)}
  {result : StackHeap × Nat}

theorem StackHeap.Whole.same (whole : heap.Whole t) (same : heap'.stset t = heap.stset t) :
    heap'.Whole t := by
  intro p member
  rw [StackHeap.members, same] at member
  rw [same]
  exact whole p member

theorem StackHeap.Whole.unlink (whole : heap.Whole t) (inOrder : TreesInOrder heap) (s p : Nat) :
    (unlinkStack heap s p).Whole t := by
  by_cases here : t = s
  · subst here
    intro q member
    rw [StackHeap.members, unlinkStack, StackHeap.setStset_stset, Function.update_self] at member
    rw [unlinkStack, StackHeap.setStset_stset, Function.update_self]
    have parts := (inOrder.content t).nodup.mem_erase_iff.mp member
    exact (List.mem_erase_of_ne parts.1).mpr (whole q parts.2)
  · refine whole.same ?_
    rw [unlinkStack, StackHeap.setStset_stset, Function.update_of_ne here]

theorem StackHeap.Whole.clear (whole : heap.Whole t) (s next : Nat) :
    (clearStset heap s next).Whole t := by
  by_cases here : t = s
  · subst here
    intro p member
    rw [members_clear, if_pos rfl] at member
    cases member
  · refine whole.same ?_
    rw [clearStset, StackHeap.setStset_stset, Function.update_of_ne here]

theorem moveStack_bounds (tidy : Tidy heap) (moved : moveStack heap dst src old = .ok result) :
    MergeBounds heap result.1 dst := by
  have whole : forall t, heap.Whole t -> (unlinkStack heap src old).Whole t :=
    fun t before => before.unlink tidy.inOrder src old
  rcases moveStack_placed (tidy.unlink src old).inOrder moved with
    ⟨same, -, rfl⟩ | ⟨-, id, next, rfl⟩
  · exact ⟨Nat.le_succ _, rfl, fun t _ before => (whole t before).same rfl⟩
  · refine ⟨Nat.le_succ _, rfl, fun t notDst before => (whole t before).same ?_⟩
    rw [hangStack, StackHeap.setStset_stset, Function.update_of_ne notDst]
    rfl

theorem mprofileAddStack_bounds (tidy : Tidy heap) (newMps : MprofileStack)
    (block : Option (Int -> UInt64)) :
    MergeBounds heap (mprofileAddStack heap s newMps block).1 s := by
  by_cases valid : s = 0
  · rw [mprofileAddStack, if_pos valid]
    exact ⟨Nat.le_succ _, rfl, fun _ _ whole => whole⟩
  · rcases mprofileAddStack_cases newMps block (tidy.inOrder.content s) valid with
      ⟨p, -, -, added⟩ | ⟨-, ⟨-, added⟩ | ⟨copy, -, added⟩⟩
    · rw [added]
      exact ⟨Nat.le_succ _, rfl, fun t _ whole => whole.same rfl⟩
    · rw [added]
      exact ⟨Nat.le_succ _, rfl, fun _ _ whole => whole⟩
    · rw [added]
      refine ⟨Nat.le_refl _, rfl, fun t different whole => whole.same ?_⟩
      rw [hangStack, StackHeap.setStset_stset, Function.update_of_ne different]
      rfl

theorem shareStack_bounds (tidy : Tidy heap) (shared : shareStack heap dst old block = .ok result) :
    MergeBounds heap result.1 dst := by
  rcases shareStack_added shared with ⟨p, rfl⟩ | rfl
  · exact ⟨Nat.le_succ _, rfl, fun t _ whole => whole.same rfl⟩
  · have bounds := mprofileAddStack_bounds (s := dst) tidy (heap.mps old) block
    exact ⟨bounds.mpsTop, bounds.stsetTop,
      fun t different whole => (bounds.whole t different whole).same rfl⟩

theorem mprofileMergeStack_bounds (tidy : Tidy heap)
    (merged : mprofileMergeStack heap dst src stackId block = .ok result) :
    MergeBounds heap result.1 dst := by
  rcases mprofileMergeStack_parts tidy merged with ⟨old, -, moved, -⟩ | ⟨old, shared, -⟩
  · exact moveStack_bounds tidy moved
  · exact shareStack_bounds tidy shared

end Bounds

/-! ## The inner loop -/

/-- What the loops change. -/
def LinkedRecords.withRecords (s s' : LinkedRecords) : LinkedRecords :=
  { s with mpr := s'.mpr, mprTqe := s'.mprTqe, mprRbe := s'.mprRbe, stsets := s'.stsets }

/-- The structures in memory are those of the state of the loops. -/
structure Emptying (s : LinkedRecords) (dst : Nat) (st : DrainState) (queues : TailQueues)
    (sorted : List Nat) : Prop where
  embodies : Embodies s.stsets st.saved.stackHeap st.freed
  sound : Sound st.saved.stackHeap st.freed.mps
  accounted : Accounted st.saved.stackHeap st.freed.mps
  created : dst < st.saved.stackHeap.stsetTop
  whole : forall t, t ≠ dst -> st.saved.stackHeap.Whole t
  plants : s.mprRbe.Plants (fun head => if head = Linked.sorter then sorted else [])
  values : sorted.map s.mpr = st.saved.sorter
  inOrder : OrderedTree.Sorted MprofileRecord.mprId st.saved.sorter
  holds : s.mprTqe.Holds queues
  apart : forall mp q, q ∈ queues mp -> q ∉ sorted

/-- Blocks for copies are not in use. -/
def DrainOp.Asks (copyBlock : Nat -> Option (Int -> UInt64)) (st : DrainState) : DrainOp -> Prop
  | .record _ mpr => mpr.mprStackId ≠ 0 -> st.saved.stackHeap.Unused (copyBlock mpr.mprId)
  | .destroyStset _ => True

instance (copyBlock : Nat -> Option (Int -> UInt64)) (st : DrainState) : (op : DrainOp) ->
    Decidable (op.Asks copyBlock st)
  | .record _ mpr =>
    inferInstanceAs (Decidable (mpr.mprStackId ≠ 0 ->
      st.saved.stackHeap.Unused (copyBlock mpr.mprId)))
  | .destroyStset _ => instDecidableTrue

/-- There is fuel for what is in memory, and for this many records more. -/
def Roomy (fuel : Nat) (st : DrainState) (sorted : List Nat) (left : Nat) : Prop :=
  2 * (st.saved.stackHeap.mpsTop + sorted.length + 2 * left) < fuel

theorem withRecords_trans {s s' : LinkedRecords} (first : s' = s.withRecords s')
    (s'' : LinkedRecords) :
    s'.withRecords s'' = s.withRecords s'' := by
  rw [first]
  rfl

theorem log_le (n : Nat) : Nat.log 2 (n + 1) ≤ n :=
  Nat.lt_succ_iff.mp (Nat.log_lt_self 2 (Nat.succ_ne_zero n))

section Records

variable {s : LinkedRecords} {fuel dst src mp p : Nat} {st : DrainState} {queues : TailQueues}
  {sorted rest : List Nat}
  {copyBlock : Nat -> Option (Int -> UInt64)}

theorem forest_sorter (first : List Nat) (second : List Nat) :
    Function.update (fun head => if head = Linked.sorter then first else []) Linked.sorter second =
      fun head => if head = Linked.sorter then second else [] := by
  funext head
  by_cases here : head = Linked.sorter
  · rw [here, Function.update_self, if_pos rfl]
  · rw [Function.update_of_ne here, if_neg here, if_neg here]

/-- The sorter is in the order of the ids. -/
theorem Emptying.sortedAddresses (emptying : Emptying s dst st queues sorted) :
    OrderedTree.Sorted (fun q => (s.mpr q).mprId) sorted := by
  have inOrder : List.Pairwise (fun a b : MprofileRecord => a.mprId < b.mprId) st.saved.sorter :=
    emptying.inOrder
  rw [← emptying.values, List.pairwise_map] at inOrder
  exact inOrder

/-- `RB_INSERT` by id. -/
theorem Emptying.insertSorter (emptying : Emptying s dst st queues sorted) (nonzero : p ≠ 0)
    (outside : p ∉ sorted)
    (fuelled : Fuelled fuel sorted) : Exists fun links => Exists fun sorted' =>
      Exists fun refusal =>
      OrderedTree.insert (fun a b => recordIdCompare (s.mpr a) (s.mpr b)) p sorted =
        (sorted', refusal) ∧
      OrderedTree.insert recordIdCompare (s.mpr p) st.saved.sorter =
        (sorted'.map s.mpr, refusal.map s.mpr) ∧
      Runs (Linked.insertSorter fuel p) s (refusal.getD 0) { s with mprRbe := links } ∧
      links.Plants (fun head => if head = Linked.sorter then sorted' else []) := by
  have inserted :=
    @OrderedTree.insert_map _ (fun a b => recordIdCompare (s.mpr a) (s.mpr b)) sorted p _
    s.mpr _ (fun _ _ => rfl)
  rw [emptying.values] at inserted
  have ran :=
    @RbHeap.Plants.rbInsert _ _ _ _ _ (fun a b => recordIdCompare (s.mpr a) (s.mpr b))
      emptying.plants
    (by
      rw [if_pos rfl]
      exact ColorTree.Cuts.of_sorted emptying.sortedAddresses
        (fun y _ => recordIdCompare_keyed (s.mpr p) (s.mpr y)))
    nonzero
    (fun other member => by
      by_cases here : other = Linked.sorter
      · rw [if_pos here] at member
        exact absurd member outside
      · rw [if_neg here] at member
        cases member)
    (by rw [if_pos rfl]; exact fuelled)
  rcases ran with ⟨links, ran, plants⟩
  rw [if_pos rfl] at ran plants
  rw [forest_sorter] at plants
  exact ⟨links, _, _, rfl, inserted, (runs_get s).bind (runs_focus ran), plants⟩

/-- What a part of the loops leaves, if the records at these addresses go over. -/
structure Drained (s : LinkedRecords) (dst : Nat) (st : DrainState) (queues : TailQueues)
    (sorted touched : List Nat)
    (s' : LinkedRecords) : Prop where
  emptying : Emptying s' dst st queues sorted
  frame : s' = s.withRecords s'
  others : forall q, q ∉ touched -> s'.mpr q = s.mpr q

/-- The sorter takes no null pointer. -/
theorem Emptying.proper_sorted (emptying : Emptying s dst st queues sorted) : 0 ∉ sorted := by
  rcases emptying.plants.shows Linked.sorter with ⟨t, shows, -, same⟩
  have proper := shows.proper
  rwa [same, if_pos rfl] at proper

/-- Changes that the loops do not see. -/
theorem Emptying.elsewhere (emptying : Emptying s dst st queues sorted) {s' : LinkedRecords}
    (mpr : s'.mpr = s.mpr)
    (mprTqe : s'.mprTqe = s.mprTqe) (mprRbe : s'.mprRbe = s.mprRbe)
    (stsets : s'.stsets = s.stsets) :
    Emptying s' dst st queues sorted :=
  ⟨by rw [stsets]; exact emptying.embodies, emptying.sound, emptying.accounted,
    emptying.created, emptying.whole,
    by rw [mprRbe]; exact emptying.plants, by rw [mpr]; exact emptying.values, emptying.inOrder,
    by rw [mprTqe]; exact emptying.holds, emptying.apart⟩

/-- The first record leaves its queue. -/
theorem Emptying.dequeue (emptying : Emptying s dst st queues sorted)
    (queue : queues mp = p :: rest) :
    Emptying { s with mprTqe := s.mprTqe.tailqRemove mp p } dst st (Function.update queues mp rest)
      sorted := by
  have removed := @TailqHeap.Holds.remove _ _ mp p emptying.holds [] rest queue
  refine ⟨emptying.embodies, emptying.sound, emptying.accounted, emptying.created, emptying.whole,
    emptying.plants,
    emptying.values, emptying.inOrder, removed, fun other q member => ?_⟩
  by_cases here : other = mp
  · subst here
    rw [Function.update_self] at member
    exact emptying.apart other q (queue ▸ List.mem_cons_of_mem p member)
  · rw [Function.update_of_ne here] at member
    exact emptying.apart other q member

/-- A record that leaves its queue is in no other. -/
theorem Emptying.left_queue (emptying : Emptying s dst st queues sorted)
    (queue : queues mp = p :: rest) (other : Nat) :
    p ∉ Function.update queues mp rest other := by
  have inQueue : p ∈ queues mp := queue ▸ List.mem_cons_self
  intro member
  by_cases here : other = mp
  · subst here
    rw [Function.update_self] at member
    have distinct := (emptying.holds.shows other).distinct
    rw [queue] at distinct
    exact (List.nodup_cons.mp distinct).1 member
  · rw [Function.update_of_ne here] at member
    exact here (emptying.holds.apart other mp p member inQueue)

/-- The record has left its queue, and the sorter has taken it. -/
structure SorterTakes (s : LinkedRecords) (queues : TailQueues) (links : RbHeap)
    (sorted sorted' : List Nat) (p : Nat) :
    Prop where
  outside : p ∉ sorted
  left : forall other, p ∉ queues other
  inserted : OrderedTree.insert (fun a b => recordIdCompare (s.mpr a) (s.mpr b)) p sorted =
    (sorted', none)
  plants : links.Plants (fun head => if head = Linked.sorter then sorted' else [])

section Filing

variable {links : RbHeap} {sorted' : List Nat}

/-- The same sorter, whatever is written into the record after that but for its id. -/
theorem Emptying.insert_filed (emptying : Emptying s dst st queues sorted)
    (takes : SorterTakes s queues links sorted sorted' p) {record : MprofileRecord}
    (sameId : record.mprId = (s.mpr p).mprId) :
    OrderedTree.insert recordIdCompare record st.saved.sorter =
      (sorted'.map (Function.update s.mpr p record), none) := by
  have own : Function.update s.mpr p record p = record := Function.update_self _ _ _
  have others : forall y, y ∈ sorted -> Function.update s.mpr p record y = s.mpr y :=
    fun y member => Function.update_of_ne (fun same : y = p => takes.outside (same ▸ member)) _ _
  have inserted :=
    @OrderedTree.insert_map _ (fun a b => recordIdCompare (s.mpr a) (s.mpr b)) sorted p _
    (Function.update s.mpr p record) recordIdCompare (fun y member => by
      rw [own, others y member, recordIdCompare, recordIdCompare, sameId])
  rw [takes.inserted, own, List.map_congr_left others, emptying.values] at inserted
  exact inserted

/-- What is left in memory, whatever becomes of the stack. -/
theorem Emptying.filed (emptying : Emptying s dst st queues sorted)
    (takes : SorterTakes s queues links sorted sorted' p) {left : Nat}
    (room : Roomy fuel st sorted (left + 1))
    {linked : LinkedHeap} {heap : StackHeap} {freed : Freed} (embodies : Embodies linked heap freed)
    (sound : Sound heap freed.mps) (accounted : Accounted heap freed.mps)
    (bounds : MergeBounds st.saved.stackHeap heap dst) {record : MprofileRecord}
    (sameId : record.mprId = (s.mpr p).mprId) :
    Drained s dst ⟨⟨heap, sorted'.map (Function.update s.mpr p record)⟩, freed⟩ queues sorted' [p]
        { s with mprRbe := links, mpr := Function.update s.mpr p record, stsets := linked } ∧
      Roomy fuel ⟨⟨heap, sorted'.map (Function.update s.mpr p record)⟩, freed⟩ sorted' left := by
  have ordered := emptying.inOrder.insert (fun y _ => recordIdCompare_keyed record y)
  rw [emptying.insert_filed takes sameId] at ordered
  have origin : forall other q, q ∈ queues other -> q ∉ sorted' := by
    intro other q member inSorted
    have inserted : q ∈
        (OrderedTree.insert (fun a b => recordIdCompare (s.mpr a) (s.mpr b)) p sorted).1 := by
      rwa [takes.inserted]
    rcases OrderedTree.mem_insert inserted with rfl | before
    · exact takes.left other member
    · exact emptying.apart other q member before
  refine ⟨⟨⟨embodies, sound, accounted, ?_,
    fun t notDst => bounds.whole t notDst (emptying.whole t notDst),
    takes.plants, rfl, ordered, emptying.holds, origin⟩, rfl, fun q untouched => ?_⟩, ?_⟩
  · rw [bounds.stsetTop]
    exact emptying.created
  · exact Function.update_of_ne (fun same => untouched (List.mem_singleton.mpr same)) _ _
  · have grown := (OrderedTree.perm_insert_of_accepted (congrArg Prod.snd takes.inserted)).length_eq
    rw [takes.inserted, List.length_cons] at grown
    have top := bounds.mpsTop
    rw [Roomy] at room ⊢
    simp only at room grown ⊢
    omega

/-- The stack of a record goes over to the set of the master. -/
theorem Emptying.fileStack (emptying : Emptying s dst st queues sorted)
    (takes : SorterTakes s queues links sorted sorted' p) (isSrc : s.mpStset mp = src)
    (isDst : s.mpStset s.master = dst) {left : Nat} (room : Roomy fuel st sorted (left + 1))
    (asks : (DrainOp.record src (s.mpr p)).Asks copyBlock st) :
    match drainNext copyBlock dst st (.record src (s.mpr p)) with
    | .ok st' =>
      Exists fun s' =>
        Runs (Linked.fileStack fuel copyBlock mp p) { s with mprRbe := links } () s' ∧
        Drained s dst st' queues sorted' [p] s' ∧ Roomy fuel st' sorted' left
    | .error fault =>
      Stops (Linked.fileStack fuel copyBlock mp p) { s with mprRbe := links } (.save fault) := by
  have enough : 2 * Nat.log 2 (st.saved.stackHeap.mpsTop + 1) < fuel := by
    have short := log_le st.saved.stackHeap.mpsTop
    rw [Roomy] at room
    omega
  let s2 : LinkedRecords := { s with mprRbe := links }
  have sameDst : s2.mpStset s2.master = dst := isDst
  have sameSrc : s2.mpStset mp = src := isSrc
  have reads : Runs (get : RecordM LinkedRecords) s2 s2 s2 := runs_get s2
  have listed := emptying.insert_filed takes (rfl : (s.mpr p).mprId = (s.mpr p).mprId)
  rw [drainNext, Mprofile.saveRecord, listed]
  by_cases unstacked : (s.mpr p).mprStackId = 0
  · have left := emptying.filed takes room emptying.embodies emptying.sound emptying.accounted
      ⟨Nat.le_succ _, rfl, fun _ _ whole => whole⟩ (rfl : (s.mpr p).mprId = (s.mpr p).mprId)
    simp only [if_pos unstacked, recordFrees, List.append_nil, Except.map]
    refine ⟨s2, reads.bind ?_, ?_⟩
    · rw [if_pos (show (s2.mpr p).mprStackId = 0 from unstacked)]
      exact runs_pure () s2
    · rw [Function.update_eq_self] at left ⊢
      exact left
  have stacked : (s2.mpr p).mprStackId ≠ 0 := unstacked
  simp only [if_neg unstacked, recordFrees]
  by_cases null : dst = 0
  · simp only [if_pos null, Except.map]
    refine reads.then_stops ?_
    rw [if_neg stacked, sameDst, if_pos null]
    rfl
  simp only [if_neg null]
  have notInUse := emptying.accounted.notInUse (asks unstacked)
  have agrees :=
    @Embodies.mprofileMergeStack _ _ _ dst src (s.mpr p).mprStackId _ _ emptying.embodies
    emptying.sound.tidy enough notInUse
  cases merged : Mprofile.mprofileMergeStack st.saved.stackHeap dst src (s.mpr p).mprStackId
      (copyBlock (s.mpr p).mprId) with
  | error fault =>
      rw [merged] at agrees
      have stops : Stops (Linked.stsets (Linked.mprofileMergeStack fuel dst src (s.mpr p).mprStackId
        (copyBlock (s.mpr p).mprId))) s2 (.save (.merge fault)) :=
        @stops_focus _ _ _ _ _ LinkedRecords.stsets _ RecordStop.ofStset _ s2 (.merge fault) agrees
      refine reads.then_stops ?_
      rw [if_neg stacked, sameDst, sameSrc, if_neg null]
      exact stops.bind
  | ok result =>
      rw [merged] at agrees
      rcases agrees with ⟨linked, ran, embodies⟩
      let s3 : LinkedRecords := { s2 with stsets := linked }
      have third : Runs (Linked.stsets (Linked.mprofileMergeStack fuel dst src (s.mpr p).mprStackId
        (copyBlock (s.mpr p).mprId))) s2 result.2 s3 := runs_focus ran
      have fourth : Runs (Linked.stsets (Linked.mprofileGetStackId result.2)) s3
          (mprofileGetStackId result.1 result.2) s3 := by
        have read : Runs (Linked.mprofileGetStackId result.2) linked
            (mprofileGetStackId result.1 result.2) linked := by
          rw [mprofileGetStackId, ← embodies.mps]
          exact (runs_get linked).bind (runs_pure _ linked)
        exact runs_focus read
      -- the record is updated where it stands in the tree
      let record : MprofileRecord :=
        { s.mpr p with mprStackId := mprofileGetStackId result.1 result.2 }
      have sameId : record.mprId = (s.mpr p).mprId := rfl
      have left :=
        emptying.filed takes room embodies (emptying.sound.mprofileMergeStack notInUse merged)
        (emptying.accounted.mprofileMergeStack emptying.sound notInUse emptying.created merged)
        (mprofileMergeStack_bounds emptying.sound.tidy merged) sameId
      simp only [Except.map]
      rw [emptying.insert_filed takes sameId]
      refine ⟨{ s3 with mpr := Function.update s.mpr p record }, reads.bind ?_, left⟩
      rw [if_neg stacked, sameDst, sameSrc, if_neg null]
      exact third.bind (fourth.bind (runs_modify _ _))

end Filing

/-- The body of the inner loop of `mprofile_save`. -/
theorem Emptying.saveRecord (emptying : Emptying s dst st queues sorted)
    (isSrc : s.mpStset mp = src)
    (isDst : s.mpStset s.master = dst) (queue : queues mp = p :: rest) {left : Nat}
    (room : Roomy fuel st sorted (left + 1))
    (asks : (DrainOp.record src (s.mpr p)).Asks copyBlock st) :
    match drainNext copyBlock dst st (.record src (s.mpr p)) with
    | .ok st' =>
      Exists fun s' => Exists fun sorted' => Runs (Linked.saveRecord fuel copyBlock mp p) s () s' ∧
        Drained s dst st' (Function.update queues mp rest) sorted'
        [p] s' ∧ Roomy fuel st' sorted' left
    | .error fault => Stops (Linked.saveRecord fuel copyBlock mp p) s (.save fault) := by
  have inQueue : p ∈ queues mp := queue ▸ List.mem_cons_self
  have outside := emptying.apart mp p inQueue
  have nonzero : p ≠ 0 := fun zero => (emptying.holds.shows mp).proper (zero ▸ inQueue)
  have dequeued := emptying.dequeue queue
  have first : Runs (Linked.queue (fun links => links.tailqRemove mp p)) s ()
      { s with mprTqe := s.mprTqe.tailqRemove mp p } := runs_modify _ s
  have fuelled : Fuelled fuel sorted := by
    have short := log_le sorted.length
    rw [Roomy] at room
    rw [Fuelled]
    omega
  rcases dequeued.insertSorter nonzero outside fuelled with
    ⟨links, sorted', refusal, inserted, listed, second, plants⟩
  cases refusal with
  | some other =>
      have listed : OrderedTree.insert recordIdCompare (s.mpr p) st.saved.sorter =
        (sorted'.map s.mpr, some (s.mpr other)) := listed
      have inSorted := (OrderedTree.insert_refused (congrArg Prod.snd inserted)).1
      have taken : other ≠ 0 := fun zero => emptying.proper_sorted (zero ▸ inSorted)
      rw [drainNext, Mprofile.saveRecord, listed]
      refine first.then_stops (second.then_stops ?_)
      rw [Option.getD_some, if_pos taken]
      rfl
  | none =>
      have notRefused : ¬ (none : Option Nat).getD 0 ≠ 0 := fun impossible => impossible rfl
      have files :=
        dequeued.fileStack ⟨outside, emptying.left_queue queue, inserted, plants⟩ isSrc isDst
          room asks
      cases stepped : drainNext copyBlock dst st (.record src (s.mpr p)) with
      | error fault =>
          rw [show drainNext copyBlock dst st (.record src _) = .error fault from stepped] at files
          refine first.then_stops (second.then_stops ?_)
          rw [if_neg notRefused]
          exact files
      | ok st' =>
          rw [show drainNext copyBlock dst st (.record src _) = .ok st' from stepped] at files
          rcases files with ⟨s', ran, drained, room'⟩
          refine ⟨s', sorted', first.bind (second.bind ?_),
            ⟨drained.emptying, drained.frame, drained.others⟩, room'⟩
          rw [if_neg notRefused]
          exact ran

/-- The inner loop of `mprofile_save`. -/
theorem Emptying.saveRecords {addrs : List Nat} {turns left : Nat}
    (emptying : Emptying s dst st queues sorted)
    (isSrc : s.mpStset mp = src) (isDst : s.mpStset s.master = dst) (queue : queues mp = addrs)
    (room : Roomy fuel st sorted (left + addrs.length)) (turnsLeft : addrs.length < turns)
    (asks : Meets (drainNext copyBlock dst) (DrainOp.Asks copyBlock) st
      ((addrs.map s.mpr).map (.record src))) :
    match exec (drainNext copyBlock dst) st ((addrs.map s.mpr).map (.record src)) with
    | .ok st' => Exists fun s' => Exists fun sorted' =>
        Runs (Linked.saveRecords fuel copyBlock mp turns) s () s' ∧
          Drained s dst st' (Function.update queues mp []) sorted' addrs s' ∧
            Roomy fuel st' sorted' left
    | .error fault => Stops (Linked.saveRecords fuel copyBlock mp turns) s (.save fault) := by
  induction addrs generalizing s st queues sorted turns with
  | nil =>
      cases turns with
      | zero => cases turnsLeft
      | succ turns =>
          have first := (emptying.holds.shows mp).first
          rw [queue, List.headD_nil] at first
          have same : Function.update queues mp [] = queues := by
            rw [← queue, Function.update_eq_self]
          refine ⟨s, sorted, (runs_get s).bind ?_, ⟨?_, rfl, fun _ _ => rfl⟩, room⟩
          · rw [if_pos first]
            exact runs_pure () s
          · rw [same]
            exact emptying
  | cons p rest inductionHypothesis =>
      cases turns with
      | zero => cases turnsLeft
      | succ turns =>
          have first := (emptying.holds.shows mp).first
          rw [queue, List.headD_cons] at first
          have inQueue : p ∈ queues mp := queue ▸ List.mem_cons_self
          have nonzero : p ≠ 0 := fun zero => (emptying.holds.shows mp).proper (zero ▸ inQueue)
          have distinct := (emptying.holds.shows mp).distinct
          rw [queue] at distinct
          have one := emptying.saveRecord isSrc isDst queue room asks.1
          rw [List.map_cons, List.map_cons, exec]
          cases stepped : drainNext copyBlock dst st (.record src (s.mpr p)) with
          | error fault =>
              rw [stepped] at one
              refine (runs_get s).then_stops ?_
              rw [first, if_neg nonzero]
              exact one.bind
          | ok middle =>
              rw [stepped] at one
              rcases one with ⟨s1, sorted1, ran, drained, room1⟩
              have sameRest : rest.map s1.mpr = rest.map s.mpr :=
                List.map_congr_left (fun q inRest =>
                drained.others q
                  (fun own => (List.nodup_cons.mp distinct).1 (List.mem_singleton.mp own ▸ inRest)))
              have fields : s1.mpStset = s.mpStset ∧ s1.master = s.master := by
                rw [drained.frame]
                exact ⟨rfl, rfl⟩
              have asks1 := asks.2 middle stepped
              rw [← sameRest] at asks1
              have onward := inductionHypothesis drained.emptying (by rw [fields.1]; exact isSrc)
                (by rw [fields.1, fields.2]; exact isDst) (Function.update_self _ _ _) room1
                (Nat.lt_of_succ_lt_succ turnsLeft) asks1
              rw [sameRest, Function.update_idem] at onward
              simp only
              cases looped : exec (drainNext copyBlock dst) middle
                  ((rest.map s.mpr).map (.record src)) with
              | error fault =>
                  rw [looped] at onward
                  refine (runs_get s).then_stops ?_
                  rw [first, if_neg nonzero]
                  exact ran.then_stops onward
              | ok st' =>
                  rw [looped] at onward
                  rcases onward with ⟨s', sorted', loops, drained', room'⟩
                  refine ⟨s', sorted', (runs_get s).bind ?_,
                    ⟨drained'.emptying, ?_, fun q untouched => ?_⟩, room'⟩
                  · rw [first, if_neg nonzero]
                    exact ran.bind loops
                  · exact drained'.frame.trans (withRecords_trans drained.frame s')
                  · rw [List.mem_cons, not_or] at untouched
                    have own : q ∉ [p] := fun same => untouched.1 (List.mem_singleton.mp same)
                    exact (drained'.others q untouched.2).trans (drained.others q own)

/-- `mprofile_destroy`, once the records of the profile have left it. -/
theorem Emptying.mprofileDestroy (emptying : Emptying s dst st queues sorted)
    (queue : queues mp = [])
    (notDst : s.mpStset mp ≠ 0 -> s.mpStset mp ≠ dst) {left : Nat}
    (room : Roomy fuel st sorted left) :
    Exists fun st' => drainNext copyBlock dst st (.destroyStset (s.mpStset mp)) = .ok st' ∧
      Exists fun stsets => Runs (Linked.mprofileDestroy fuel mp) s ()
          { s with stsets := stsets, freedMp := s.freedMp ++ [mp] } ∧
        Emptying { s with stsets := stsets, freedMp := s.freedMp ++ [mp] } dst st' queues sorted ∧
        Roomy fuel st' sorted left := by
  have positive : 0 < fuel := by
    rw [Roomy] at room
    omega
  have first := (emptying.holds.shows mp).first
  rw [queue, List.headD_nil] at first
  have noRecords : Runs (Linked.destroyRecords mp fuel (s.mprTqe.tailqFirst mp)) s () s := by
    rcases Nat.exists_eq_succ_of_ne_zero positive.ne' with ⟨turns, rfl⟩
    rw [first, Linked.destroyRecords, if_pos rfl]
    exact runs_pure () s
  rw [drainNext]
  by_cases null : s.mpStset mp = 0
  · rw [if_pos null]
    have nothing : Runs (Linked.mprofileDestroyStset fuel fuel (s.mpStset mp)) s.stsets ()
        s.stsets := by
      rw [Linked.mprofileDestroyStset, if_pos null]
      exact runs_pure () s.stsets
    have destroys : Runs (Linked.stsets (Linked.mprofileDestroyStset fuel fuel (s.mpStset mp)))
        s () s :=
      runs_focus nothing
    exact ⟨st, rfl, s.stsets, (runs_get s).bind (noRecords.bind (destroys.bind (runs_modify _ s))),
      emptying.elsewhere rfl rfl rfl rfl, room⟩
  · rw [if_neg null]
    have heapTop := emptying.sound.tidy.inOrder
    have enough : 2 * Nat.log 2 st.saved.stackHeap.mpsTop < fuel := by
      have short : Nat.log 2 st.saved.stackHeap.mpsTop ≤
          Nat.log 2 (st.saved.stackHeap.mpsTop + 1) :=
        Nat.log_mono_right (Nat.le_succ _)
      have shorter := log_le st.saved.stackHeap.mpsTop
      rw [Roomy] at room
      omega
    have turns : (st.saved.stackHeap.members (s.mpStset mp)).length < fuel := by
      have subset : st.saved.stackHeap.members (s.mpStset mp) ⊆ List.range
          st.saved.stackHeap.mpsTop :=
        fun p member => List.mem_range.mpr (heapTop.allocated _ p (Or.inl member))
      have short := (List.subperm_of_subset (heapTop.content (s.mpStset mp)).nodup subset).length_le
      rw [List.length_range] at short
      rw [Roomy] at room
      change (st.saved.stackHeap.members (s.mpStset mp)).length ≤ _ at short
      omega
    rcases emptying.embodies.mprofileDestroyStset emptying.sound enough null
      (emptying.whole _ (notDst null)) turns with ⟨linked, ran, embodies, sound⟩
    have destroys : Runs (Linked.stsets (Linked.mprofileDestroyStset fuel fuel (s.mpStset mp))) s ()
      { s with stsets := linked } := runs_focus ran
    refine ⟨_, rfl, linked, (runs_get s).bind (noRecords.bind (destroys.bind (runs_modify _ _))),
      ⟨embodies, sound, emptying.accounted.clear _ _, emptying.created, fun t other => ?_,
        emptying.plants,
        emptying.values, emptying.inOrder, emptying.holds, emptying.apart⟩, room⟩
    exact (emptying.whole t other).clear _ _

/-! ## The outer loop -/

/-- The profile at an address. -/
def LinkedRecords.profileAt (s : LinkedRecords) (queues : TailQueues) (mp : Nat) : Profile :=
  ⟨(queues mp).map s.mpr, s.mpStset mp⟩

/-- These profiles have lost their records. -/
def emptied (queues : TailQueues) (mps : List Nat) : TailQueues :=
  fun mp => if mp ∈ mps then [] else queues mp

theorem emptied_cons (queues : TailQueues) (mp : Nat) (mps : List Nat) :
    emptied (Function.update queues mp []) mps = emptied queues (mp :: mps) := by
  funext other
  rw [emptied, emptied]
  by_cases own : other = mp
  · subst own
    rw [if_pos List.mem_cons_self, Function.update_self, ite_self]
  · rw [Function.update_of_ne own]
    by_cases inRest : other ∈ mps
    · rw [if_pos inRest, if_pos (List.mem_cons_of_mem mp inRest)]
    · rw [if_neg inRest, if_neg (fun member => (List.mem_cons.mp member).elim own inRest)]

/-- What `mprofile_save` only reads. -/
def LinkedRecords.kept (s : LinkedRecords) : Timespec × (Nat -> Nat) × List Nat :=
  (s.startTimeTv, s.mpStset, s.freedMpr)

/-- What is left when these profiles have been saved, and these of them have been freed. -/
structure Emptied (s : LinkedRecords) (dst master : Nat) (st : DrainState) (queues : TailQueues)
    (sorted gone : List Nat) (s' : LinkedRecords) : Prop where
  emptying : Emptying s' dst st queues sorted
  kept : s'.kept = s.kept
  master : s'.master = master
  freedMp : s'.freedMp = s.freedMp ++ gone
  mpTqe : s'.mpTqe.Shows Linked.profiles []

variable {mps : List Nat}

/-- Profiles whose records have not been touched. -/
theorem profileAt_untouched {s' : LinkedRecords} (holds : s.mprTqe.Holds queues)
    (others : forall q, q ∉ queues mp -> s'.mpr q = s.mpr q) (sets : s'.mpStset = s.mpStset)
    (outside : mp ∉ mps) :
    mps.map (s'.profileAt (Function.update queues mp [])) = mps.map (s.profileAt queues) := by
  refine List.map_congr_left (fun other member => ?_)
  have different : other ≠ mp := fun same => outside (same ▸ member)
  rw [LinkedRecords.profileAt, LinkedRecords.profileAt, Function.update_of_ne different, sets]
  have same : (queues other).map s'.mpr = (queues other).map s.mpr :=
    List.map_congr_left (fun q inQueue =>
    others q (fun inOwn => different (holds.apart other mp q inQueue inOwn)))
  rw [same]

/-- The outer loop of `mprofile_save`, once the first profile has become the master. -/
theorem Emptying.saveOthers {turns left : Nat} (emptying : Emptying s dst st queues sorted)
    (isDst : s.mpStset s.master = dst) (isMaster : s.master ≠ 0) (notMaster : s.master ∉ mps)
    (notDst : forall mp, mp ∈ mps -> s.mpStset mp ≠ 0 -> s.mpStset mp ≠ dst)
    (shows : s.mpTqe.Shows Linked.profiles mps)
    (room : Roomy fuel st sorted (left + (mps.flatMap queues).length))
    (turnsLeft : mps.length < turns)
    (asks : Meets (drainNext copyBlock dst) (DrainOp.Asks copyBlock) st
      (drainOthers (mps.map (s.profileAt queues)))) :
    match exec (drainNext copyBlock dst) st (drainOthers (mps.map (s.profileAt queues))) with
    | .ok st' => Exists fun s' => Exists fun sorted' =>
        Runs (Linked.saveProfiles fuel copyBlock turns (mps.headD 0)) s () s' ∧
          Emptied s dst s.master st' (emptied queues mps) sorted' mps s' ∧
            Roomy fuel st' sorted' left
    | .error fault =>
      Stops (Linked.saveProfiles fuel copyBlock turns (mps.headD 0)) s (.save fault) := by
  induction mps generalizing s st queues sorted turns with
  | nil =>
      cases turns with
      | zero => cases turnsLeft
      | succ turns =>
          refine ⟨s, sorted, ?_, ⟨emptying, rfl, rfl, (List.append_nil _).symm, shows⟩, room⟩
          rw [List.headD_nil, Linked.saveProfiles, if_pos rfl]
          exact runs_pure () s
  | cons mp rest inductionHypothesis =>
      cases turns with
      | zero => cases turnsLeft
      | succ turns =>
          have around :=
            TailqHeap.Shows.around
              (show s.mpTqe.Shows Linked.profiles ([] ++ mp :: rest) from shows)
          have different : s.master ≠ mp := fun same => notMaster (same ▸ List.mem_cons_self)
          -- the profile leaves the list of profiles
          let s1 : LinkedRecords := { s with mpTqe := s.mpTqe.tailqRemove Linked.profiles mp }
          have first : Runs
              (Linked.profileQueue (fun links => links.tailqRemove Linked.profiles mp)) s () s1 :=
            runs_modify _ s
          have second : Runs (Linked.chooseMaster mp) s1 () s1 := by
            have kept : Runs (Linked.chooseMaster mp) s1 ()
              (if s1.master = 0 then { s1 with master := mp } else s1) := runs_modify _ s1
            rwa [if_neg (show s1.master ≠ 0 from isMaster)] at kept
          have showsRest : s1.mpTqe.Shows Linked.profiles rest :=
            @shows_tailqRemove _ _ _ [] _ shows
          have emptying1 : Emptying s1 dst st queues sorted := emptying.elsewhere rfl rfl rfl rfl
          rw [List.flatMap_cons, List.length_append] at room
          have room1 : Roomy fuel st sorted
              ((left + (rest.flatMap queues).length) + (queues mp).length) := by
            rw [Roomy] at room ⊢
            omega
          have queueTurns : (queues mp).length < fuel := by
            rw [Roomy] at room
            omega
          rw [List.map_cons, drainOthers_cons] at asks ⊢
          rw [meets_append] at asks
          rw [exec_append]
          have records := emptying1.saveRecords rfl isDst rfl room1 queueTurns
            asks.1
          have sameOps : (s.profileAt queues mp).drainOps =
            ((queues mp).map s.mpr).map (.record (s.mpStset mp)) := rfl
          rw [sameOps] at asks ⊢
          rw [show s1.mpr = s.mpr from rfl] at records
          cases saved : exec (drainNext copyBlock dst) st
              (((queues mp).map s.mpr).map (.record (s.mpStset mp))) with
          | error fault =>
              rw [saved] at records
              rw [List.headD_cons, Linked.saveProfiles, if_neg around.nonzero]
              exact (runs_get s).then_stops (first.then_stops (second.then_stops records.bind))
          | ok middle =>
              rw [saved] at records
              rcases records with ⟨s2, sorted2, third, drained, room2⟩
              have fields : s2.mpStset = s.mpStset ∧ s2.master = s.master ∧ s2.freedMp = s.freedMp ∧
                  s2.mpTqe = s1.mpTqe ∧ s2.kept = s.kept := by
                rw [drained.frame]
                exact ⟨rfl, rfl, rfl, rfl, rfl⟩
              -- the profile goes
              have goes : s2.mpStset mp ≠ 0 -> s2.mpStset mp ≠ dst := by
                rw [fields.1]
                exact notDst mp List.mem_cons_self
              rcases drained.emptying.mprofileDestroy (Function.update_self _ _ _) goes room2
                with ⟨final, destroyed, stsets, fourth, emptying3, room3⟩
              have destroyed : drainNext copyBlock dst middle
                  (.destroyStset (s.profileAt queues mp).mpStset) = .ok final := by
                rw [fields.1] at destroyed
                exact destroyed
              let s3 : LinkedRecords := { s2 with stsets := stsets, freedMp := s2.freedMp ++ [mp] }
              have sameRest : rest.map (s3.profileAt (Function.update queues mp [])) =
                  rest.map (s.profileAt queues) :=
                profileAt_untouched emptying.holds drained.others fields.1
                  (List.nodup_cons.mp shows.distinct).1
              have sameQueues : rest.flatMap (Function.update queues mp []) = rest.flatMap queues :=
                List.flatMap_congr (fun other member => Function.update_of_ne
                  (fun same : other = mp => (List.nodup_cons.mp shows.distinct).1 (same ▸ member))
                    _ _)
              have asks2 := asks.2 middle saved
              have asks3 := asks2.2 final destroyed
              have onward := inductionHypothesis (s := s3) emptying3 (by
                change s2.mpStset s2.master = dst
                rw [fields.1, fields.2.1]
                exact isDst) (by
                change s2.master ≠ 0
                rw [fields.2.1]
                exact isMaster) (by
                change s2.master ∉ rest
                rw [fields.2.1]
                exact fun member => notMaster (List.mem_cons_of_mem mp member))
                    (fun other member => by
                change s2.mpStset other ≠ 0 -> s2.mpStset other ≠ dst
                rw [fields.1]
                exact notDst other (List.mem_cons_of_mem mp member)) (by
                change s2.mpTqe.Shows Linked.profiles rest
                rw [fields.2.2.2.1]
                exact showsRest) (by rw [sameQueues]; exact room3)
                  (Nat.lt_of_succ_lt_succ turnsLeft)
                (by rw [sameRest]; exact asks3)
              have isMaster2 : s2.master ≠ mp := by
                rw [fields.2.1]
                exact different
              have next : s.mpTqe.tailqNext mp = rest.headD 0 := around.next
              rw [sameRest, emptied_cons] at onward
              simp only [exec, destroyed]
              rw [List.headD_cons, Linked.saveProfiles, if_neg around.nonzero]
              cases looped : exec (drainNext copyBlock dst) final
                  (drainOthers (rest.map (s.profileAt queues))) with
              | error fault =>
                  rw [looped] at onward
                  refine (runs_get s).then_stops
                    (first.then_stops (second.then_stops (third.then_stops
                    ((runs_get s2).then_stops ?_))))
                  rw [if_pos isMaster2, next]
                  exact fourth.then_stops onward
              | ok st' =>
                  rw [looped] at onward
                  rcases onward with ⟨s', sorted', loops, left', room'⟩
                  refine ⟨s', sorted', (runs_get s).bind (first.bind (second.bind (third.bind
                    ((runs_get s2).bind ?_)))), ⟨left'.emptying, left'.kept.trans fields.2.2.2.2,
                      left'.master.trans fields.2.1, ?_, left'.mpTqe⟩, room'⟩
                  · rw [if_pos isMaster2, next]
                    exact fourth.bind loops
                  · rw [left'.freedMp]
                    change (s2.freedMp ++ [mp]) ++ rest = _
                    rw [fields.2.2.1, List.append_assoc, List.singleton_append]

/-- The loops of `mprofile_save`.  The first profile becomes the master, and stays. -/
theorem Emptying.saveProfiles {turns left : Nat} (emptying : Emptying s dst st queues sorted)
    (noMaster : s.master = 0)
    (isDst : s.mpStset mp = dst)
    (notDst : forall other, other ∈ mps -> s.mpStset other ≠ 0 -> s.mpStset other ≠ dst)
    (shows : s.mpTqe.Shows Linked.profiles (mp :: mps))
    (room : Roomy fuel st sorted (left + ((mp :: mps).flatMap queues).length))
    (turnsLeft : (mp :: mps).length < turns)
    (asks : Meets (drainNext copyBlock dst) (DrainOp.Asks copyBlock) st
      (drainProfiles ((mp :: mps).map (s.profileAt queues)))) :
    match exec (drainNext copyBlock dst) st
      (drainProfiles ((mp :: mps).map (s.profileAt queues))) with
    | .ok st' => Exists fun s' => Exists fun sorted' =>
        Runs (Linked.saveProfiles fuel copyBlock turns mp) s () s' ∧
          Emptied s dst mp st' (emptied queues (mp :: mps)) sorted' mps s' ∧
            Roomy fuel st' sorted' left
    | .error fault => Stops (Linked.saveProfiles fuel copyBlock turns mp) s (.save fault) := by
  rcases Nat.exists_eq_succ_of_ne_zero (Nat.ne_zero_of_lt turnsLeft) with ⟨fewer, rfl⟩
  have around :=
    TailqHeap.Shows.around (show s.mpTqe.Shows Linked.profiles ([] ++ mp :: mps) from shows)
  have distinct := List.nodup_cons.mp shows.distinct
  let s1 : LinkedRecords := { s with mpTqe := s.mpTqe.tailqRemove Linked.profiles mp }
  let s2 : LinkedRecords := { s1 with master := mp }
  have first : Runs (Linked.profileQueue (fun links => links.tailqRemove Linked.profiles mp)) s
      () s1 :=
    runs_modify _ s
  have second : Runs (Linked.chooseMaster mp) s1 () s2 := by
    have chosen : Runs (Linked.chooseMaster mp) s1 ()
        (if s1.master = 0 then { s1 with master := mp } else s1) :=
      runs_modify _ s1
    rwa [if_pos (show s1.master = 0 from noMaster)] at chosen
  have showsRest : s2.mpTqe.Shows Linked.profiles mps := @shows_tailqRemove _ _ _ [] _ shows
  have emptying2 : Emptying s2 dst st queues sorted := emptying.elsewhere rfl rfl rfl rfl
  rw [List.flatMap_cons, List.length_append] at room
  have room2 : Roomy fuel st sorted
      ((left + (mps.flatMap queues).length) + (queues mp).length) := by
    rw [Roomy] at room ⊢
    omega
  have queueTurns : (queues mp).length < fuel := by
    rw [Roomy] at room
    omega
  have sameOps : (s.profileAt queues mp).drainOps =
    ((queues mp).map s.mpr).map (.record (s.mpStset mp)) := rfl
  rw [List.map_cons, drainProfiles, sameOps] at asks ⊢
  rw [meets_append] at asks
  rw [exec_append]
  have records := emptying2.saveRecords rfl isDst rfl room2 queueTurns asks.1
  rw [show s2.mpr = s.mpr from rfl] at records
  rw [Linked.saveProfiles, if_neg around.nonzero]
  cases saved : exec (drainNext copyBlock dst) st
      (((queues mp).map s.mpr).map (.record (s.mpStset mp))) with
  | error fault =>
      rw [saved] at records
      exact (runs_get s).then_stops (first.then_stops (second.then_stops records.bind))
  | ok middle =>
      rw [saved] at records
      rcases records with ⟨s3, sorted3, third, drained, room3⟩
      have fields : s3.mpStset = s.mpStset ∧ s3.master = mp ∧ s3.freedMp = s.freedMp ∧
          s3.mpTqe = s2.mpTqe ∧
          s3.kept = s.kept := by
        rw [drained.frame]
        exact ⟨rfl, rfl, rfl, rfl, rfl⟩
      have sameRest : mps.map (s3.profileAt (Function.update queues mp [])) =
          mps.map (s.profileAt queues) :=
        profileAt_untouched emptying.holds drained.others fields.1 distinct.1
      have sameQueues : mps.flatMap (Function.update queues mp []) = mps.flatMap queues :=
        List.flatMap_congr (fun other member => Function.update_of_ne
          (fun same : other = mp => distinct.1 (same ▸ member)) _ _)
      have onward := drained.emptying.saveOthers
        (by rw [fields.2.1, fields.1]; exact isDst) (by rw [fields.2.1]; exact around.nonzero)
        (by rw [fields.2.1]; exact distinct.1) (by rw [fields.1]; exact notDst)
        (by rw [fields.2.2.2.1]; exact showsRest) (by rw [sameQueues]; exact room3)
        (Nat.lt_of_succ_lt_succ turnsLeft) (by rw [sameRest]; exact asks.2 middle saved)
      have kept : ¬ s3.master ≠ mp := fun different => different fields.2.1
      have next : s.mpTqe.tailqNext mp = mps.headD 0 := around.next
      rw [sameRest, emptied_cons, fields.2.1] at onward
      simp only
      cases looped : exec (drainNext copyBlock dst) middle
          (drainOthers (mps.map (s.profileAt queues))) with
      | error fault =>
          rw [looped] at onward
          refine (runs_get s).then_stops (first.then_stops (second.then_stops (third.then_stops
            ((runs_get s3).then_stops ?_))))
          rw [if_neg kept, next]
          exact onward
      | ok st' =>
          rw [looped] at onward
          rcases onward with ⟨s', sorted', loops, left', room'⟩
          refine ⟨s', sorted',
            (runs_get s).bind (first.bind (second.bind (third.bind ((runs_get s3).bind ?_)))),
            ⟨left'.emptying, left'.kept.trans fields.2.2.2.2, left'.master, ?_, left'.mpTqe⟩, room'⟩
          · rw [if_neg kept, next]
            exact loops
          · rw [left'.freedMp, fields.2.2.1]

/-- The sorter is drained into the queue of the master. -/
theorem drainSorter_runs {master turns : Nat} {todo : List Nat} (holds : s.mprTqe.Holds queues)
    (isMaster : s.master = master)
    (plants : s.mprRbe.Plants (fun head => if head = Linked.sorter then todo else []))
    (distinct : todo.Nodup) (fresh : forall mp q, q ∈ queues mp -> q ∉ todo)
    (fuelled : Fuelled fuel todo)
    (turnsLeft : todo.length < turns) : Exists fun s' =>
      Runs (Linked.drainSorter fuel turns) s () s' ∧
      s'.mprTqe.Shows master (queues master ++ todo) ∧ s'.mprRbe.Plants (fun _ => []) ∧
      s' = { s with mprTqe := s'.mprTqe, mprRbe := s'.mprRbe } := by
  induction todo generalizing s queues turns with
  | nil =>
      cases turns with
      | zero => cases turnsLeft
      | succ turns =>
          have empty := plants.rbEmpty Linked.sorter
          rw [if_pos rfl] at empty
          have reads : Runs (Linked.records (rbEmpty Linked.sorter)) s true s := runs_focus empty
          refine ⟨s, reads.bind ?_, ?_, ?_, rfl⟩
          · rw [if_pos rfl]
            exact runs_pure () s
          · rw [List.append_nil]
            exact holds.shows master
          · have noTree : (fun head => if head = Linked.sorter then ([] : List Nat) else []) =
                fun _ => [] :=
              funext (fun head => ite_self _)
            rw [noTree] at plants
            exact plants
  | cons p rest inductionHypothesis =>
      cases turns with
      | zero => cases turnsLeft
      | succ turns =>
          have empty := plants.rbEmpty Linked.sorter
          have least := plants.rbMinmax (-1) (by rw [if_pos rfl]; exact fuelled)
          rw [if_pos rfl] at empty
          rw [if_pos (by decide : (-1 : Int) < 0), if_pos rfl, endOf, List.head?_cons,
            Option.getD_some] at least
          rcases plants.rbRemove
            (by rw [if_pos rfl]; exact List.mem_cons_self) (by rw [if_pos rfl]; exact fuelled) with
            ⟨links, removes, plants'⟩
          rw [if_pos rfl, List.erase_cons_head, forest_sorter] at plants'
          have nonzero : p ≠ 0 := by
            rcases plants.shows Linked.sorter with ⟨t, shows, -, same⟩
            have proper := shows.proper
            rw [same, if_pos rfl] at proper
            exact fun zero => proper (zero ▸ List.mem_cons_self)
          have outside : forall other, p ∉ queues other := fun other member =>
            fresh other p member List.mem_cons_self
          let s1 : LinkedRecords := { s with mprRbe := links }
          let s2 : LinkedRecords := { s1 with mprTqe := s1.mprTqe.tailqInsertTail s1.master p }
          have first : Runs (Linked.records (rbEmpty Linked.sorter)) s false s := runs_focus empty
          have second : Runs (Linked.records (rbMin fuel Linked.sorter)) s p s := runs_focus least
          have third : Runs (Linked.records (rbRemove fuel Linked.sorter p)) s p s1 :=
            runs_focus removes
          have fourth : Runs (modify (fun s : LinkedRecords =>
              { s with mprTqe := s.mprTqe.tailqInsertTail s.master p }) : RecordM PUnit) s1 () s2 :=
                runs_modify _ s1
          have holds2 : s2.mprTqe.Holds (Function.update queues master (queues master ++ [p])) := by
            change (s.mprTqe.tailqInsertTail s.master p).Holds _
            rw [isMaster]
            exact holds.insertTail master nonzero outside
          have fuelled2 : Fuelled fuel rest := by
            rw [Fuelled] at fuelled ⊢
            exact lt_of_le_of_lt (Nat.mul_le_mul_left 2 (Nat.log_mono_right (Nat.le_succ _)))
              fuelled
          rcases inductionHypothesis (s := s2) holds2 isMaster plants'
            (List.nodup_cons.mp distinct).2
            (fun mp q member inRest => by
              by_cases here : mp = master
              · subst here
                rw [Function.update_self] at member
                rcases List.mem_append.mp member with before | isP
                · exact fresh mp q before (List.mem_cons_of_mem p inRest)
                · exact (List.nodup_cons.mp distinct).1 (List.mem_singleton.mp isP ▸ inRest)
              · rw [Function.update_of_ne here] at member
                exact fresh mp q member (List.mem_cons_of_mem p inRest)) fuelled2
            (Nat.lt_of_succ_lt_succ turnsLeft) with ⟨s', loops, shows, bare, frame⟩
          refine ⟨s', first.bind ?_, ?_, bare, frame⟩
          · rw [if_neg Bool.false_ne_true]
            exact second.bind (third.bind (fourth.bind loops))
          · rw [Function.update_self, List.append_assoc, List.singleton_append] at shows
            exact shows

end Records

end Mprofile
end OsslScripts
