import OsslScripts.Mprofile.Chains
import OsslScripts.Mprofile.LinkedRecords
import OsslScripts.Utils.TailqQueues
import OsslScripts.Utils.RbForest

namespace OsslScripts
namespace Mprofile

open Foundation
open Utils

/-!
# Chains on linked records

`build_chains` on the records themselves.  The tree of open blocks hangs on the links
`mpr_rbe` of the records, and the records are linked where they stand in the queue.
Each turn of the loop does what it does on the list of records.
-/

/-- The record of an open block. -/
def addressOf (done : List Nat) (node : MemNode) : Nat := done.getD node.pos 0

/-- The records that have been visited are those of the list, and the links are those of
the open blocks. -/
structure ChainLinks (mpr : Nat -> MprofileRecord) (links : RbHeap) (done : List Nat)
    (st : ChainState) : Prop where
  linked : done.map mpr = st.linked
  plants : links.Plants (fun head => if head = Linked.memtree then st.memtree.map (addressOf done)
    else [])
  inside : forall node, node ∈ st.memtree -> node.pos < done.length
  keys : forall node, node ∈ st.memtree -> (mpr (addressOf done node)).mprMem = node.mprMem
  sorted : OrderedTree.Sorted (fun node : MemNode => node.mprMem.toNat) st.memtree

section Lists

variable {mpr mpr' : Nat -> MprofileRecord} {links links' : RbHeap} {done : List Nat}
  {st : ChainState} {p : Nat}

theorem mem_addressOf {node : MemNode} (inside : node.pos < done.length) :
    addressOf done node ∈ done := by
  rw [addressOf, List.getD_eq_getElem _ _ inside]
  exact List.getElem_mem inside

theorem addressOf_append {node : MemNode} (inside : node.pos < done.length) (p : Nat) :
    addressOf (done ++ [p]) node = addressOf done node := by
  rw [addressOf, addressOf, List.getD_append _ _ _ _ inside]

theorem addressOf_last (mem : UInt64) : addressOf (done ++ [p]) ⟨mem, done.length⟩ = p := by
  rw [addressOf, List.getD_eq_getElem _ _ (by simp), List.getElem_append_right (Nat.le_refl _)]
  simp

/-- Open blocks have different records. -/
theorem ChainLinks.injective (chains : ChainLinks mpr links done st) {a b : MemNode}
    (inA : a ∈ st.memtree)
    (inB : b ∈ st.memtree) (same : addressOf done a = addressOf done b) : a = b := by
  refine chains.sorted.injective inA inB (congrArg UInt64.toNat ?_)
  rw [← chains.keys a inA, ← chains.keys b inB, same]

/-- The tree of addresses is in the order of what they were allocated at. -/
theorem ChainLinks.sortedAddresses (chains : ChainLinks mpr links done st) :
    OrderedTree.Sorted (fun q => (mpr q).mprMem.toNat) (st.memtree.map (addressOf done)) := by
  refine List.pairwise_map.mpr (chains.sorted.imp_of_mem (fun {a b} inA inB less => ?_))
  change (mpr (addressOf done a)).mprMem.toNat < (mpr (addressOf done b)).mprMem.toNat
  rw [chains.keys a inA, chains.keys b inB]
  exact less

theorem ChainLinks.cuts (chains : ChainLinks mpr links done st) (key : UInt64) :
    ColorTree.Cuts (fun q => threeWay key.toNat (mpr q).mprMem.toNat)
      (st.memtree.map (addressOf done)) :=
  ColorTree.Cuts.of_sorted chains.sortedAddresses
    (fun _ _ => ⟨threeWay_neg_iff _ _, threeWay_zero_iff _ _⟩)

theorem ChainLinks.mem_done (chains : ChainLinks mpr links done st) {q : Nat}
    (member : q ∈ st.memtree.map (addressOf done)) : q ∈ done := by
  rcases List.mem_map.mp member with ⟨node, inTree, rfl⟩
  exact mem_addressOf (chains.inside node inTree)

/-- There are no more open blocks than records. -/
theorem ChainLinks.fuelled {fuel : Nat} (chains : ChainLinks mpr links done st)
    (enough : 2 * Nat.log 2 (done.length + 1) < fuel) :
    Fuelled fuel (st.memtree.map (addressOf done)) := by
  have distinct := chains.sortedAddresses.nodup
  have short := (List.subperm_of_subset distinct (fun q member => chains.mem_done member)).length_le
  exact lt_of_le_of_lt (Nat.mul_le_mul_left 2 (Nat.log_mono_right (Nat.succ_le_succ short))) enough

/-- A record of the list is changed where it stands. -/
theorem map_update_modify (distinct : done.Nodup) {i : Nat} (inside : i < done.length)
    (change : MprofileRecord -> MprofileRecord) :
    done.map (Function.update mpr (done.getD i 0) (change (mpr (done.getD i 0)))) =
      (done.map mpr).modify i change := by
  rw [List.getD_eq_getElem _ _ inside]
  refine List.ext_getElem (by simp) (fun j first second => ?_)
  rw [List.length_map] at first
  rw [List.getElem_map, List.getElem_modify, List.getElem_map]
  by_cases here : i = j
  · subst here
    rw [Function.update_self, if_pos rfl]
  · rw [if_neg here, Function.update_of_ne]
    exact fun same => here (distinct.getElem_inj_iff.mp same).symm

end Lists

section Steps

variable {s : LinkedRecords} {fuel p : Nat} {done : List Nat} {st : ChainState}

/-- The state of the records after this. -/
def LinkedRecords.withMpr (s : LinkedRecords) (mpr : Nat -> MprofileRecord) (links : RbHeap) :
    LinkedRecords :=
  { s with mpr := mpr, mprRbe := links }

theorem forest_update (first : List Nat) (second : List Nat) :
    Function.update (fun head => if head = Linked.memtree then first else []) Linked.memtree
      second = fun head => if head = Linked.memtree then second else [] := by
  funext head
  by_cases here : head = Linked.memtree
  · rw [here, Function.update_self, if_pos rfl]
  · rw [Function.update_of_ne here, if_neg here, if_neg here]

/-- `RB_FIND` by address. -/
theorem ChainLinks.findMem (chains : ChainLinks s.mpr s.mprRbe done st)
    (enough : 2 * Nat.log 2 (done.length + 1) < fuel) (key : UInt64) :
    Runs (Linked.findMem fuel key) s
      (((OrderedTree.find (fun node : MemNode => threeWay key.toNat node.mprMem.toNat)
        st.memtree).map
        (addressOf done)).getD 0) s := by
  have found :=
    @OrderedTree.find_map _ _ _ (addressOf done)
      (fun q => threeWay key.toNat (s.mpr q).mprMem.toNat) _
    (fun node member => by rw [chains.keys node member])
  have ran := chains.plants.rbFind (by rw [if_pos rfl]; exact chains.cuts key)
    (by rw [if_pos rfl]; exact chains.fuelled enough)
  rw [if_pos rfl, found] at ran
  exact (runs_get s).bind (runs_focus ran)

/-- What consuming a block leaves. -/
structure Consumed (s : LinkedRecords) (p : Nat) (done : List Nat) (st : ChainState)
    (record : MprofileRecord)
    (s' : LinkedRecords) : Prop where
  chains : ChainLinks s'.mpr s'.mprRbe done st
  own : s'.mpr p = record
  others : forall q, q ∉ done -> q ≠ p -> s'.mpr q = s.mpr q
  frame : s' = s.withMpr s'.mpr s'.mprRbe

/-- The block that a record goes back to. -/
theorem ChainLinks.consumeBlock (chains : ChainLinks s.mpr s.mprRbe done st) (distinct : done.Nodup)
    (proper : 0 ∉ done) (enough : 2 * Nat.log 2 (done.length + 1) < fuel) (outside : p ∉ done)
    (key : UInt64)
    (missing : ChainStop) :
    match Mprofile.consumeBlock st key missing (s.mpr p) with
    | .ok result => Exists fun s' => Runs (Linked.consumeBlock fuel key missing p) s () s' ∧
        Consumed s p done result.1 result.2 s'
    | .error stop => Stops (Linked.consumeBlock fuel key missing p) s (.save (.chains stop)) := by
  have search := chains.findMem enough key
  rw [Mprofile.consumeBlock]
  cases found : OrderedTree.find (fun node : MemNode => threeWay key.toNat node.mprMem.toNat)
      st.memtree with
  | none =>
      rw [found] at search
      refine search.then_stops ?_
      rw [Option.map_none, Option.getD_none, if_pos rfl]
      rfl
  | some node =>
      have member := (OrderedTree.find_some found).1
      have inside := chains.inside node member
      have inDone := mem_addressOf inside
      have nonzero : addressOf done node ≠ 0 := fun zero => proper (zero ▸ inDone)
      have different : addressOf done node ≠ p := fun same => outside (same ▸ inDone)
      rw [found, Option.map_some, Option.getD_some] at search
      -- the tree loses the block
      have removal := chains.plants.rbRemove
        (by rw [if_pos rfl]; exact List.mem_map_of_mem member)
        (by rw [if_pos rfl]; exact chains.fuelled enough)
      rcases removal with ⟨links, ran, plants⟩
      rw [if_pos rfl, OrderedTree.map_erase_of_injective (fun other inTree same =>
        chains.injective inTree member same), forest_update] at plants
      have removed : Runs (Linked.records (rbRemove fuel Linked.memtree (addressOf done node))) s
          (addressOf done node) { s with mprRbe := links } := runs_focus ran
      have isRecord : st.linked.getD node.pos default = s.mpr (addressOf done node) := by
        rw [← chains.linked, List.getD_eq_getElem _ _ (by simpa using inside), List.getElem_map,
          addressOf,
          List.getD_eq_getElem _ _ inside]
      simp only [isRecord]
      by_cases nextTaken : (s.mpr (addressOf done node)).mprNextId ≠ 0
      · rw [if_pos nextTaken]
        refine search.then_stops ?_
        rw [if_neg nonzero]
        refine removed.then_stops ((runs_get _).then_stops ?_)
        rw [if_pos nextTaken]
        rfl
      · rw [if_neg nextTaken]
        let linked := Function.update s.mpr (addressOf done node)
          { s.mpr (addressOf done node) with mprNextId := (s.mpr p).mprId }
        let s1 : LinkedRecords := { s with mpr := linked, mprRbe := links }
        have same : s1.mpr p = s.mpr p := Function.update_of_ne different.symm _ _
        have linking : Runs (Linked.setMpr (addressOf done node)
            (fun tree => { tree with mprNextId := (s.mpr p).mprId })) { s with mprRbe := links }
                () s1 :=
          runs_modify _ _
        by_cases prevTaken : (s.mpr p).mprPrevId ≠ 0
        · rw [if_pos prevTaken]
          refine search.then_stops ?_
          rw [if_neg nonzero]
          refine removed.then_stops ((runs_get _).then_stops ?_)
          rw [if_neg nextTaken]
          refine linking.then_stops ((runs_get _).then_stops ?_)
          rw [same, if_pos prevTaken]
          rfl
        · rw [if_neg prevTaken]
          let final :=
            Function.update linked p
              { s.mpr p with mprPrevId := (s.mpr (addressOf done node)).mprId }
          let s2 : LinkedRecords := { s with mpr := final, mprRbe := links }
          have own : (s1.mpr (addressOf done node)).mprId =
              (s.mpr (addressOf done node)).mprId := by
            change (Function.update s.mpr _ _ _).mprId = _
            rw [Function.update_self]
          have back : Runs (Linked.setMpr p
              (fun record => { record with mprPrevId := (s1.mpr (addressOf done node)).mprId })) s1
                  () s2 := by
            have changed : Runs (Linked.setMpr p
                (fun record => { record with mprPrevId := (s1.mpr (addressOf done node)).mprId }))
                  s1 ()
                (s1.withMpr (Function.update s1.mpr p
                  { s1.mpr p with mprPrevId := (s1.mpr (addressOf done node)).mprId }) links) :=
                    runs_modify _ _
            rw [own, same] at changed
            rw [own]
            exact changed
          refine ⟨s2, search.bind ?_, ?_⟩
          · rw [if_neg nonzero]
            refine removed.bind ((runs_get _).bind ?_)
            rw [if_neg nextTaken]
            refine linking.bind ((runs_get _).bind ?_)
            rw [same, if_neg prevTaken]
            exact back
          · have elsewhere : forall q, q ∈ done -> final q = linked q := fun q member =>
              Function.update_of_ne (fun isOwn : q = p => outside (isOwn ▸ member)) _ _
            have mem : forall q, q ∈ done -> (final q).mprMem = (s.mpr q).mprMem := by
              intro q inDone
              rw [elsewhere q inDone]
              by_cases here : q = addressOf done node
              · subst here
                change (Function.update s.mpr _ _ _).mprMem = _
                rw [Function.update_self]
              · change (Function.update s.mpr _ _ _).mprMem = _
                rw [Function.update_of_ne here]
            have left : forall other, other ∈ st.memtree.erase node -> other ∈ st.memtree :=
              fun other inTree =>
              List.mem_of_mem_erase inTree
            refine ⟨⟨?_, plants, fun other inTree => chains.inside other (left other inTree),
              fun other inTree => ?_,
              chains.sorted.erase node⟩, Function.update_self _ _ _,
                fun q notDone notOwn => ?_, rfl⟩
            · change done.map final = _
              rw [List.map_congr_left elsewhere]
              have changed := @map_update_modify s.mpr _ distinct _ inside
                (fun record => { record with mprNextId := (s.mpr p).mprId })
              rw [chains.linked] at changed
              exact changed
            · change (final (addressOf done other)).mprMem = _
              rw [mem _ (mem_addressOf (chains.inside other (left other inTree))),
                chains.keys other (left other inTree)]
            · have apart : q ≠ addressOf done node := fun same => notDone (same ▸ inDone)
              exact (Function.update_of_ne notOwn _ _).trans (Function.update_of_ne apart _ _)

/-- What a turn of the loop leaves. -/
structure Visited (s : LinkedRecords) (p : Nat) (done : List Nat) (st : ChainState)
    (s' : LinkedRecords) : Prop where
  chains : ChainLinks s'.mpr s'.mprRbe (done ++ [p]) st
  others : forall q, q ∉ done -> q ≠ p -> s'.mpr q = s.mpr q
  frame : s' = s.withMpr s'.mpr s'.mprRbe

/-- A record that opens a block. -/
theorem ChainLinks.openBlock (chains : ChainLinks s.mpr s.mprRbe done st)
    (enough : 2 * Nat.log 2 (done.length + 1) < fuel)
    (outside : p ∉ done) (nonzero : p ≠ 0) (proper : 0 ∉ done) (present : ChainStop) :
    match Mprofile.openBlock st present (s.mpr p) with
    | .ok st' =>
      Exists fun s' => Runs (Linked.openBlock fuel present p) s () s' ∧ Visited s p done st' s'
    | .error stop => Stops (Linked.openBlock fuel present p) s (.save (.chains stop)) := by
  have length : st.linked.length = done.length := by rw [← chains.linked, List.length_map]
  have own : (s.mpr (addressOf (done ++ [p]) ⟨(s.mpr p).mprMem, done.length⟩)).mprMem =
      (s.mpr p).mprMem := by
    rw [addressOf_last]
  have keys : forall node, node ∈ st.memtree ->
      (s.mpr (addressOf (done ++ [p]) node)).mprMem = node.mprMem := by
    intro node member
    rw [addressOf_append (chains.inside node member), chains.keys node member]
  have inserted := @OrderedTree.insert_map _ recordMemCompare _ ⟨(s.mpr p).mprMem, done.length⟩ _
    (addressOf (done ++ [p])) (fun a b => threeWay (s.mpr a).mprMem.toNat (s.mpr b).mprMem.toNat)
        (fun node member => by
      rw [own, keys node member]
      rfl)
  have same : st.memtree.map (addressOf (done ++ [p])) = st.memtree.map (addressOf done) :=
    List.map_congr_left (fun node member => addressOf_append (chains.inside node member) p)
  rw [addressOf_last, same] at inserted
  have ran :=
    @RbHeap.Plants.rbInsert
      _ _ _ _ _ (fun a b => threeWay (s.mpr a).mprMem.toNat (s.mpr b).mprMem.toNat)
    chains.plants
    (by rw [if_pos rfl]; exact chains.cuts (s.mpr p).mprMem) nonzero
    (fun other member => by
      by_cases here : other = Linked.memtree
      · rw [if_pos here] at member
        exact absurd (chains.mem_done member) outside
      · rw [if_neg here] at member
        cases member)
    (by rw [if_pos rfl]; exact chains.fuelled enough)
  rcases ran with ⟨links, ran, plants⟩
  rw [if_pos rfl, inserted] at ran plants
  rw [forest_update] at plants
  have inserts : Runs (Linked.insertMem fuel p) s _ { s with mprRbe := links } :=
    (runs_get s).bind (runs_focus ran)
  rw [Mprofile.openBlock, length]
  cases placed : OrderedTree.insert recordMemCompare ⟨(s.mpr p).mprMem, done.length⟩ st.memtree with
  | mk memtree refusal =>
      rw [placed] at inserts plants
      cases refusal with
      | none =>
          have grown : forall node, node ∈ memtree -> node ∈
              (OrderedTree.insert recordMemCompare ⟨(s.mpr p).mprMem, done.length⟩ st.memtree).1 :=
            fun node member => by rw [placed]; exact member
          refine ⟨{ s with mprRbe := links }, inserts.bind ?_,
            ⟨?_, plants, fun node member => ?_, fun node member => ?_, ?_⟩,
            fun q _ _ => rfl, rfl⟩
          · rw [if_neg (fun impossible => impossible rfl)]
            exact runs_pure () _
          · rw [List.map_append, List.map_singleton, chains.linked]
          · have origin := OrderedTree.mem_insert (grown node member)
            rw [List.length_append]
            rcases origin with rfl | inTree
            · exact Nat.lt_succ_self _
            · exact Nat.lt_succ_of_lt (chains.inside node inTree)
          · have origin := OrderedTree.mem_insert (grown node member)
            rcases origin with rfl | inTree
            · exact own
            · exact keys node inTree
          · have sorted := chains.sorted.insert (x := ⟨(s.mpr p).mprMem, done.length⟩)
              (fun node _ => recordMemCompare_keyed _ node)
            rwa [placed] at sorted
      | some node =>
          have inTree := (OrderedTree.insert_refused (congrArg Prod.snd placed)).1
          have taken : addressOf (done ++ [p]) node ≠ 0 := by
            rw [addressOf_append (chains.inside node inTree)]
            exact fun zero => proper (zero ▸ mem_addressOf (chains.inside node inTree))
          refine inserts.then_stops ?_
          rw [Option.map_some, Option.getD_some, if_pos taken]
          rfl

/-- A record that opens no block. -/
theorem ChainLinks.pass (chains : ChainLinks s.mpr s.mprRbe done st) (p : Nat) :
    ChainLinks s.mpr s.mprRbe (done ++ [p]) { st with linked := st.linked ++ [s.mpr p] } := by
  have same : st.memtree.map (addressOf (done ++ [p])) = st.memtree.map (addressOf done) :=
    List.map_congr_left (fun node member => addressOf_append (chains.inside node member) p)
  refine ⟨?_, ?_, fun node member => ?_, fun node member => ?_, chains.sorted⟩
  · rw [List.map_append, List.map_singleton, chains.linked]
  · rw [same]
    exact chains.plants
  · rw [List.length_append]
    exact Nat.lt_add_right _ (chains.inside node member)
  · rw [addressOf_append (chains.inside node member), chains.keys node member]

/-- The body of the loop in `build_chains`. -/
theorem ChainLinks.chainStep (chains : ChainLinks s.mpr s.mprRbe done st) (distinct : done.Nodup)
    (proper : 0 ∉ done) (enough : 2 * Nat.log 2 (done.length + 1) < fuel) (outside : p ∉ done)
    (nonzero : p ≠ 0) :
    match Mprofile.chainStep st (s.mpr p) with
    | .ok st' => Exists fun s' => Runs (Linked.chainStep fuel p) s () s' ∧ Visited s p done st' s'
    | .error stop => Stops (Linked.chainStep fuel p) s (.save (.chains stop)) := by
  rw [Mprofile.chainStep]
  have start := runs_get (ε := RecordStop) s
  cases state : (s.mpr p).mprState with
  | alloc =>
      have opened := chains.openBlock enough outside nonzero proper .allocFound
      simp only
      cases placed : Mprofile.openBlock st .allocFound (s.mpr p) with
      | error stop =>
          rw [placed] at opened
          refine start.then_stops ?_
          rw [state]
          exact opened
      | ok st' =>
          rw [placed] at opened
          rcases opened with ⟨s', ran, visited⟩
          refine ⟨s', start.bind ?_, visited⟩
          rw [state]
          exact ran
  | free =>
      simp only
      by_cases null : (s.mpr p).mprMem = 0
      · rw [if_pos null]
        refine ⟨s, start.bind ?_, chains.pass p, fun _ _ _ => rfl, rfl⟩
        rw [state]
        simp only [if_pos null]
        exact runs_pure () s
      · rw [if_neg null]
        have consumed :=
          chains.consumeBlock distinct proper enough outside (s.mpr p).mprMem .freeNotAllocated
        cases taken : Mprofile.consumeBlock st (s.mpr p).mprMem .freeNotAllocated (s.mpr p) with
        | error stop =>
            rw [taken] at consumed
            refine start.then_stops ?_
            rw [state]
            simp only [if_neg null]
            exact consumed
        | ok result =>
            rw [taken] at consumed
            rcases consumed with ⟨s', ran, left⟩
            have passed := left.chains.pass p
            rw [left.own] at passed
            refine ⟨s', start.bind ?_, passed, left.others, left.frame⟩
            rw [state]
            simp only [if_neg null]
            exact ran
  | realloc =>
      simp only
      have consumed :=
        chains.consumeBlock distinct proper enough outside (s.mpr p).mprRealloc .reallocNotAllocated
      cases taken : Mprofile.consumeBlock st (s.mpr p).mprRealloc .reallocNotAllocated
          (s.mpr p) with
      | error stop =>
          rw [taken] at consumed
          refine start.then_stops ?_
          rw [state]
          exact consumed.bind
      | ok result =>
          rw [taken] at consumed
          rcases consumed with ⟨s1, ran, left⟩
          have opened := left.chains.openBlock enough outside nonzero proper .reallocFound
          rw [left.own] at opened
          simp only
          cases placed : Mprofile.openBlock result.1 .reallocFound result.2 with
          | error stop =>
              rw [placed] at opened
              refine start.then_stops ?_
              rw [state]
              exact ran.then_stops opened
          | ok st' =>
              rw [placed] at opened
              rcases opened with ⟨s', opens, visited⟩
              refine ⟨s', start.bind ?_, visited.chains, fun q notDone notOwn => ?_, ?_⟩
              · rw [state]
                exact ran.bind opens
              · exact (visited.others q notDone notOwn).trans (left.others q notDone notOwn)
              · have whole := visited.frame
                rw [left.frame] at whole
                exact whole

/-- The loop of `build_chains` over the rest of the queue. -/
theorem ChainLinks.chainLoop {mp turns : Nat} {todo : List Nat}
    (chains : ChainLinks s.mpr s.mprRbe done st)
    (shows : s.mprTqe.Shows mp (done ++ todo))
    (enough : 2 * Nat.log 2 ((done ++ todo).length + 1) < fuel)
    (turnsLeft : todo.length < turns) :
    match Mprofile.chainLoop st (todo.map s.mpr) with
    | .ok st' => Exists fun s' => Runs (Linked.chainLoop fuel turns (todo.headD 0)) s () s' ∧
        ChainLinks s'.mpr s'.mprRbe (done ++ todo) st' ∧ s' = s.withMpr s'.mpr s'.mprRbe
    | .error stop =>
      Stops (Linked.chainLoop fuel turns (todo.headD 0)) s (.save (.chains stop)) := by
  induction todo generalizing s done st turns with
  | nil =>
      cases turns with
      | zero => cases turnsLeft
      | succ turns =>
          refine ⟨s, ?_, ?_, rfl⟩
          · rw [List.headD_nil, Linked.chainLoop, if_pos rfl]
            exact runs_pure () s
          · rw [List.append_nil]
            exact chains
  | cons p todo inductionHypothesis =>
      cases turns with
      | zero => cases turnsLeft
      | succ turns =>
          have around := shows.around
          have notZero : 0 ∉ done := fun zero => shows.proper (List.mem_append_left _ zero)
          have short : 2 * Nat.log 2 (done.length + 1) < fuel := by
            refine lt_of_le_of_lt (Nat.mul_le_mul_left 2 (Nat.log_mono_right ?_)) enough
            rw [List.length_append]
            omega
          have step :=
            chains.chainStep around.distinctBefore notZero short around.notBefore around.nonzero
          rw [List.map_cons, Mprofile.chainLoop, List.headD_cons, Linked.chainLoop,
            if_neg around.nonzero]
          cases stepped : Mprofile.chainStep st (s.mpr p) with
          | error stop =>
              rw [stepped] at step
              exact step.bind
          | ok st' =>
              rw [stepped] at step
              rcases step with ⟨s', ran, visited⟩
              have sameQueues : s'.mprTqe = s.mprTqe := by rw [visited.frame]; rfl
              have sameRest : todo.map s'.mpr = todo.map s.mpr :=
                List.map_congr_left (fun q inTodo =>
                visited.others q (fun inDone => around.apart q inDone inTodo)
                  (fun same => around.notAfter (same ▸ inTodo)))
              have split : (done ++ [p]) ++ todo = done ++ p :: todo := by simp
              have showsRest : s'.mprTqe.Shows mp ((done ++ [p]) ++ todo) := by
                rw [split, sameQueues]
                exact shows
              have onward :=
                inductionHypothesis visited.chains showsRest (by rw [split]; exact enough)
                (Nat.lt_of_succ_lt_succ turnsLeft)
              rw [sameRest, split] at onward
              have next : s'.mprTqe.tailqNext p = todo.headD 0 := by
                rw [sameQueues]
                exact around.next
              simp only
              cases looped : Mprofile.chainLoop st' (todo.map s.mpr) with
              | error stop =>
                  rw [looped] at onward
                  refine ran.then_stops ((runs_get s').then_stops ?_)
                  rw [next]
                  exact onward
              | ok final =>
                  rw [looped] at onward
                  rcases onward with ⟨s'', loops, links, frame⟩
                  refine ⟨s'', ran.bind ((runs_get s').bind ?_), links, ?_⟩
                  · rw [next]
                    exact loops
                  · have whole := frame
                    rw [visited.frame] at whole
                    exact whole

/-- `build_chains` links the records where they stand as it links the list of them. -/
theorem LinkedRecords.buildChains {mp : Nat} {queue : List Nat} (shows : s.mprTqe.Shows mp queue)
    (plants : s.mprRbe.Plants (fun _ => [])) (enough : 2 * Nat.log 2 (queue.length + 1) < fuel)
    (turns : queue.length < fuel) :
    match Mprofile.buildChains (queue.map s.mpr) with
    | .ok linked =>
      Exists fun s' => Runs (Linked.buildChains fuel mp) s () s' ∧ queue.map s'.mpr = linked ∧
        s' = s.withMpr s'.mpr s'.mprRbe
    | .error stop => Stops (Linked.buildChains fuel mp) s (.save (.chains stop)) := by
  rcases plants.rbInit Linked.memtree with ⟨links, ran, plants'⟩
  let s1 : LinkedRecords := { s with mprRbe := links }
  have first : Runs (Linked.records (rbInit Linked.memtree)) s () s1 := runs_focus ran
  have chains : ChainLinks s1.mpr s1.mprRbe [] ⟨[], []⟩ := by
    refine ⟨rfl, ?_, fun _ impossible => (by cases impossible),
      fun _ impossible => (by cases impossible),
      List.Pairwise.nil⟩
    have empty : Function.update (fun _ => []) Linked.memtree [] = fun head =>
      if head = Linked.memtree then ([] : List MemNode).map (addressOf []) else [] := by
      rw [Function.update_eq_self]
      funext head
      exact (ite_self _).symm
    rw [← empty]
    exact plants'
  have loop := chains.chainLoop shows enough turns
  have start : s1.mprTqe.tailqFirst mp = queue.headD 0 := shows.first
  change match Mprofile.chainLoop ⟨[], []⟩ (queue.map s.mpr) with
    | .ok st' => Exists fun s' => Runs (Linked.chainLoop fuel fuel (queue.headD 0)) s1 () s' ∧
        ChainLinks s'.mpr s'.mprRbe ([] ++ queue) st' ∧ s' = s1.withMpr s'.mpr s'.mprRbe
    | .error stop =>
      Stops (Linked.chainLoop fuel fuel (queue.headD 0)) s1 (.save (.chains stop)) at loop
  rw [Mprofile.buildChains]
  cases looped : Mprofile.chainLoop ⟨[], []⟩ (queue.map s.mpr) with
  | error stop =>
      rw [looped] at loop
      refine first.then_stops ((runs_get s1).then_stops ?_)
      rw [start]
      exact loop
  | ok st' =>
      rw [looped] at loop
      rcases loop with ⟨s', loops, links', frame⟩
      refine ⟨s', first.bind ((runs_get s1).bind ?_), links'.linked, frame⟩
      rw [start]
      exact loops

end Steps

end Mprofile
end OsslScripts
