import OsslScripts.Mprofile.LinkedMerge
import OsslScripts.Mprofile.ProfileText

namespace OsslScripts
namespace Mprofile

open Foundation
open Utils

/-!
# Runs of the stack set operations

Sets are created, added to, merged, walked and destroyed on the links, in any order.
What the functions return is what they return on ordered lists, each stack is linked
in a set or was freed once, and nothing that is linked was freed.
-/

/-! ## Creating, walking and destroying -/

/-- A set without stacks. -/
def clearStset (heap : StackHeap) (s next : Nat) : StackHeap := heap.setStset s ⟨next, [], []⟩

section Sets

variable {linked : LinkedHeap} {heap : StackHeap} {fuel turns s p : Nat} {freed : Freed}

theorem members_clear (heap : StackHeap) (s next t : Nat) :
    (clearStset heap s next).members t = if t = s then [] else heap.members t := by
  rw [StackHeap.members, clearStset, StackHeap.setStset_stset]
  by_cases here : t = s
  · subst here
    rw [Function.update_self, if_pos rfl]
  · rw [Function.update_of_ne here, if_neg here]
    rfl

theorem Tidy.clear (tidy : Tidy heap) (s next : Nat) : Tidy (clearStset heap s next) := by
  have hangs : forall t p, (clearStset heap s next).Hangs t p -> t ≠ s ∧ heap.Hangs t p := by
    intro t p hung
    rw [StackHeap.Hangs, StackHeap.members, clearStset, StackHeap.setStset_stset] at hung
    by_cases here : t = s
    · subst here
      rw [Function.update_self] at hung
      rcases hung with impossible | impossible <;> cases impossible
    · rw [Function.update_of_ne here] at hung
      exact ⟨here, hung⟩
  have inOrder := tidy.inOrder
  refine ⟨⟨inOrder.top, fun t => ?_, fun t => ?_,
    fun t p hung => inOrder.allocated t p (hangs t p hung).2,
    fun t u p inT inU => inOrder.apart t u p (hangs t p inT).2 (hangs u p inU).2⟩,
      fun t p member => ?_⟩
  · rw [clearStset, StackHeap.setStset_stset]
    by_cases here : t = s
    · subst here
      rw [Function.update_self]
      exact List.Pairwise.nil
    · rw [Function.update_of_ne here]
      exact inOrder.content t
  · rw [clearStset, StackHeap.setStset_stset]
    by_cases here : t = s
    · subst here
      rw [Function.update_self]
      exact List.Pairwise.nil
    · rw [Function.update_of_ne here]
      exact inOrder.ids t
  · have parts := hangs t p (Or.inr member)
    rw [members_clear, if_neg parts.1]
    exact tidy.hangs parts.2

theorem Sound.clear {gone : List Nat} (sound : Sound heap gone) (s next : Nat) :
    Sound (clearStset heap s next) gone := by
  refine sound.shrink (sound.tidy.clear s next) (Nat.le_refl _) (fun t p member => ⟨⟨t, ?_⟩, rfl⟩)
  rw [members_clear] at member
  split_ifs at member
  · cases member
  · exact member

/-- `mprofile_create_stset` -/
theorem Embodies.mprofileCreateStset (embodies : Embodies linked heap freed) (ok : Bool) :
    Exists fun linked' =>
      Runs (Linked.mprofileCreateStset ok) linked (Mprofile.mprofileCreateStset heap ok).2 linked' ∧
      Embodies linked' (Mprofile.mprofileCreateStset heap ok).1 freed := by
  cases ok with
  | false => exact ⟨linked, runs_pure 0 linked, embodies⟩
  | true =>
      rcases embodies.content.rbInit heap.stsetTop with ⟨links, ran, plants⟩
      rcases embodies.ids.rbInit heap.stsetTop with ⟨idLinks, idRan, idPlants⟩
      have sameTop := embodies.stsetTop
      let linked1 : LinkedHeap := { linked with mpsRbe := links }
      let linked2 : LinkedHeap := { linked1 with mpsIdRbe := idLinks }
      let linked3 : LinkedHeap := { linked2 with
        stsetId := Function.update linked.stsetId heap.stsetTop 1
        stsetTop := heap.stsetTop + 1 }
      have first : Runs (Linked.content (Utils.rbInit heap.stsetTop)) linked () linked1 :=
        runs_focus ran
      have second : Runs (Linked.ids (Utils.rbInit heap.stsetTop)) linked1 () linked2 :=
        runs_focus idRan
      refine ⟨linked3, ?_, embodies.mps, embodies.mpsTop, ?_, rfl, ?_, ?_, embodies.freed⟩
      · have third : Runs (modify (fun heap : LinkedHeap => { heap with
            stsetId := Function.update heap.stsetId heap.stsetTop 1
            stsetTop := heap.stsetTop + 1 }) : LinkM PUnit) linked2 () linked3 := by
          simp only [linked3, ← sameTop]
          exact runs_modify _ linked2
        refine (runs_get linked).bind ?_
        rw [sameTop]
        exact first.bind (second.bind (third.bind (runs_pure heap.stsetTop linked3)))
      · have field := @field_setStset heap heap.stsetTop _ MprofileStset.stsetId ⟨1, [], []⟩
        rw [show linked3.stsetId = Function.update linked.stsetId heap.stsetTop 1 from rfl,
          embodies.stsetId]
        exact field.symm
      · have field := @field_setStset heap heap.stsetTop _ MprofileStset.stsetRbh ⟨1, [], []⟩
        have same : (fun t => (((Mprofile.mprofileCreateStset heap true).1).stset t).stsetRbh) =
          Function.update (fun t => (heap.stset t).stsetRbh) heap.stsetTop [] := field
        rw [same]
        exact plants
      · have field := @field_setStset heap heap.stsetTop _ MprofileStset.stsetIdRbh ⟨1, [], []⟩
        have same : (fun t => (((Mprofile.mprofileCreateStset heap true).1).stset t).stsetIdRbh) =
          Function.update (fun t => (heap.stset t).stsetIdRbh) heap.stsetTop [] := field
        rw [same]
        exact idPlants

/-- `mprofile_get_next_stack` on the list of a set. -/
def nextStack (heap : StackHeap) (s p : Nat) : Nat :=
  mprofileGetNextStack (if s = 0 then [] else heap.members s) p

theorem Embodies.first (embodies : Embodies linked heap freed) (inOrder : TreesInOrder heap)
    (enough : 2 * Nat.log 2 heap.mpsTop < fuel) (s : Nat) :
    Runs (Linked.content (rbMin fuel s)) linked ((heap.members s).headD 0) linked := by
  have ran := embodies.content.rbMinmax (-1) (embodies.fuelled_content inOrder enough s)
  rw [if_pos (by decide : (-1 : Int) < 0), endOf, ← List.headD_eq_head?_getD] at ran
  exact runs_focus ran

theorem Embodies.second (embodies : Embodies linked heap freed) (inOrder : TreesInOrder heap)
    (enough : 2 * Nat.log 2 heap.mpsTop < fuel) {before rest : List Nat}
    (order : heap.members s = before ++ p :: rest) :
    Runs (Linked.content (rbNext fuel p)) linked (rest.headD 0) linked := by
  have ran := embodies.content.rbStep .right order (embodies.fuelled_content inOrder enough s)
  rw [neighbour, ← List.headD_eq_head?_getD] at ran
  exact runs_focus ran

/-- `mprofile_get_next_stack` -/
theorem Embodies.mprofileGetNextStack (embodies : Embodies linked heap freed)
    (inOrder : TreesInOrder heap)
    (enough : 2 * Nat.log 2 heap.mpsTop < fuel) (known : s ≠ 0 -> p ≠ 0 -> p ∈ heap.members s) :
    Runs (Linked.mprofileGetNextStack fuel s p) linked (nextStack heap s p) linked := by
  rw [Linked.mprofileGetNextStack, nextStack]
  by_cases valid : s = 0
  · rw [if_pos valid, if_pos valid, Mprofile.mprofileGetNextStack]
    have none : (if p = 0 then ([] : List Nat).headD 0
        else (([] : List Nat).dropWhile (fun q => q ≠ p)).tail.headD 0) = 0 := by split_ifs <;> rfl
    rw [none]
    exact runs_pure 0 linked
  · rw [if_neg valid, if_neg valid]
    by_cases null : p = 0
    · rw [if_pos null, Mprofile.mprofileGetNextStack, if_pos null]
      exact embodies.first inOrder enough s
    · rw [if_neg null]
      rcases List.append_of_mem (known valid null) with ⟨before, rest, order⟩
      have distinct := (inOrder.content s).nodup
      change (heap.members s).Nodup at distinct
      rw [order] at distinct ⊢
      rw [mprofileGetNextStack_append distinct null]
      exact embodies.second inOrder enough order

/-- The loop of `mprofile_destroy_stset`. -/
theorem Embodies.destroyFrom {content : List Nat} (embodies : Embodies linked heap freed)
    (sound : Sound heap freed.mps) (enough : 2 * Nat.log 2 heap.mpsTop < fuel)
    (isContent : heap.members s = content)
    (whole : forall p, p ∈ content -> p ∈ (heap.stset s).stsetIdRbh)
    (turnsLeft : content.length < turns) : Exists fun linked' =>
      Runs (Linked.destroyFrom fuel s turns (content.headD 0)) linked () linked' ∧
        Embodies linked' (clearStset heap s (heap.stset s).stsetId)
        { freed with mps := freed.mps ++ content } ∧
        Sound (clearStset heap s (heap.stset s).stsetId) (freed.mps ++ content) := by
  induction content generalizing linked heap freed turns with
  | nil =>
      cases turns with
      | zero => cases turnsLeft
      | succ turns =>
          have noIds : (heap.stset s).stsetIdRbh = [] := by
            refine List.eq_nil_iff_forall_not_mem.mpr (fun p member => ?_)
            have inContent := sound.tidy.indexed s p member
            rw [isContent] at inContent
            cases inContent
          have same : clearStset heap s (heap.stset s).stsetId = heap := by
            have own : (⟨(heap.stset s).stsetId, [], []⟩ : MprofileStset) = heap.stset s := by
              have noContent : (heap.stset s).stsetRbh = [] := isContent
              calc (⟨(heap.stset s).stsetId, [], []⟩ : MprofileStset)
                _ = ⟨(heap.stset s).stsetId, (heap.stset s).stsetRbh,
                    (heap.stset s).stsetIdRbh⟩ := by
                  rw [noContent, noIds]
                _ = heap.stset s := rfl
            rw [clearStset, own, StackHeap.setStset, Function.update_eq_self]
          rw [same, List.append_nil]
          refine ⟨linked, ?_, embodies, sound⟩
          rw [List.headD_nil, Linked.destroyFrom, if_pos rfl]
          exact runs_pure () linked
  | cons p rest inductionHypothesis =>
      cases turns with
      | zero => cases turnsLeft
      | succ turns =>
          have member : p ∈ heap.members s := by rw [isContent]; exact List.mem_cons_self
          have nonzero : p ≠ 0 := fun zero => embodies.proper_content s (zero ▸ member)
          have inIds := whole p List.mem_cons_self
          have next :=
            embodies.second sound.tidy.inOrder enough
              (show heap.members s = [] ++ p :: rest from isContent)
          rcases embodies.unlinkStack sound.tidy enough member inIds with
            ⟨linked1, unlinks, embodies1⟩
          rcases embodies1.free p with ⟨linked2, frees, embodies2⟩
          have managed : (linked1.mps p).mpsFlags = mpsFlagManaged := by
            rw [embodies1.mps]
            exact sound.managed s p member
          have destroys : Runs (Linked.mprofileDestroyStack p) linked1 () linked2 := by
            refine (runs_get linked1).bind ?_
            rw [if_pos managed]
            exact frees
          have outside := sound.tidy.inOrder.unlink_outside (Or.inl member)
          have soundLeft : Sound (Mprofile.unlinkStack heap s p) (freed.mps ++ [p]) :=
            (sound.unlink s p).free (sound.tidy.inOrder.allocated s p (Or.inl member))
              (sound.not_freed member)
              (fun t inSet => outside t (Or.inl inSet))
          have left : (Mprofile.unlinkStack heap s p).members s = rest := by
            rw [StackHeap.members, Mprofile.unlinkStack, StackHeap.setStset_stset,
              Function.update_self]
            change (heap.members s).erase p = rest
            rw [isContent, List.erase_cons_head]
          have distinct := (sound.tidy.inOrder.content s).nodup
          change (heap.members s).Nodup at distinct
          rw [isContent] at distinct
          have wholeLeft : forall q, q ∈ rest ->
              q ∈ ((Mprofile.unlinkStack heap s p).stset s).stsetIdRbh := by
            intro q inRest
            have different : q ≠ p := fun same => (List.nodup_cons.mp distinct).1 (same ▸ inRest)
            rw [Mprofile.unlinkStack, StackHeap.setStset_stset, Function.update_self]
            exact (List.mem_erase_of_ne different).mpr (whole q (List.mem_cons_of_mem p inRest))
          rcases inductionHypothesis embodies2 soundLeft enough left wholeLeft
              (Nat.lt_of_succ_lt_succ turnsLeft) with
            ⟨linked3, onward, embodies3, sound3⟩
          have same : clearStset (Mprofile.unlinkStack heap s p) s
              ((Mprofile.unlinkStack heap s p).stset s).stsetId =
              clearStset heap s (heap.stset s).stsetId := by
            simp only [clearStset, Mprofile.unlinkStack, StackHeap.setStset, Function.update_idem,
              Function.update_self]
          rw [same, List.append_assoc] at embodies3 sound3
          refine ⟨linked3, ?_, embodies3, sound3⟩
          rw [List.headD_cons, Linked.destroyFrom, if_neg nonzero]
          exact next.bind (unlinks.bind (destroys.bind onward))

/-- `mprofile_destroy_stset` frees the stacks of the set in order, and the set. -/
theorem Embodies.mprofileDestroyStset (embodies : Embodies linked heap freed)
    (sound : Sound heap freed.mps)
    (enough : 2 * Nat.log 2 heap.mpsTop < fuel) (valid : s ≠ 0)
    (whole : forall p, p ∈ heap.members s -> p ∈ (heap.stset s).stsetIdRbh)
    (turnsLeft : (heap.members s).length < turns) : Exists fun linked' =>
      Runs (Linked.mprofileDestroyStset fuel turns s) linked () linked' ∧
        Embodies linked' (clearStset heap s (heap.stset s).stsetId)
          ⟨freed.mps ++ heap.members s, freed.stset ++ [s]⟩ ∧
        Sound (clearStset heap s (heap.stset s).stsetId) (freed.mps ++ heap.members s) := by
  rcases embodies.destroyFrom sound enough rfl whole turnsLeft with
    ⟨linked1, loops, embodies1, sound1⟩
  let linked2 : LinkedHeap :=
    { linked1 with freed := { linked1.freed with stset := linked1.freed.stset ++ [s] } }
  have last : Runs (Linked.freeStset s) linked1 () linked2 := runs_modify _ linked1
  refine ⟨linked2, ?_, ⟨embodies1.mps, embodies1.mpsTop, embodies1.stsetId, embodies1.stsetTop,
    embodies1.content, embodies1.ids,
    ?_⟩, sound1⟩
  · rw [Linked.mprofileDestroyStset, if_neg valid]
    exact (embodies.first sound.tidy.inOrder enough s).bind (loops.bind last)
  · change Freed.mk linked1.freed.mps (linked1.freed.stset ++ [s]) = _
    rw [embodies1.freed]

theorem accounted_create {gone : List Nat} (accounted : Accounted heap gone) (ok : Bool) :
    Accounted (mprofileCreateStset heap ok).1 gone := by
  cases ok with
  | false => exact accounted
  | true =>
      have members : (Mprofile.mprofileCreateStset heap true).1.members = heap.members := by
        funext t
        refine (members_clear heap heap.stsetTop 1 t).trans ?_
        by_cases here : t = heap.stsetTop
        · rw [if_pos here, accounted.blank t (Nat.le_of_eq here.symm)]
        · rw [if_neg here]
      refine ⟨?_, fun t beyond => ?_⟩
      · rw [members]
        exact accounted.placed
      · rw [members]
        exact accounted.blank t (Nat.le_of_succ_le beyond)

theorem sound_create {gone : List Nat} (sound : Sound heap gone) (ok : Bool) :
    Sound (mprofileCreateStset heap ok).1 gone := by
  cases ok with
  | false => exact sound
  | true =>
      have cleared := sound.clear heap.stsetTop 1
      have inOrder := cleared.tidy.inOrder
      exact ⟨⟨⟨inOrder.top, inOrder.content, inOrder.ids, inOrder.allocated, inOrder.apart⟩,
          cleared.tidy.indexed⟩,
        cleared.managed, cleared.once, cleared.allocated, cleared.unlinked⟩

theorem Accounted.clear {gone : List Nat} (accounted : Accounted heap gone) (s next : Nat) :
    Accounted (clearStset heap s next) (gone ++ heap.members s) := by
  refine ⟨fun p positive below => ?_, fun t beyond => ?_⟩
  · rcases accounted.placed p positive below with inGone | ⟨t, member⟩
    · exact Or.inl (List.mem_append_left _ inGone)
    · by_cases here : t = s
      · exact Or.inl (List.mem_append_right _ (here ▸ member))
      · refine Or.inr ⟨t, ?_⟩
        rw [members_clear, if_neg here]
        exact member
  · rw [members_clear, accounted.blank t beyond, ite_self]

end Sets

/-! ## Runs -/

/-- `malloc` returns no block that a stack of a set is in. -/
def StackHeap.Unused (heap : StackHeap) (block : Option (Int -> UInt64)) : Prop :=
  forall s, s < heap.stsetTop -> forall p, p ∈ heap.members s ->
    block.map (fun words => words (-1)) ≠ some ((heap.mps p).mpsStack (-1))

instance (heap : StackHeap) (block : Option (Int -> UInt64)) : Decidable (heap.Unused block) :=
  inferInstanceAs (Decidable (forall s, s < heap.stsetTop -> forall p, p ∈ heap.members s ->
    _ ≠ some _))

/-- A use of the stack sets.  `block` is what `malloc` returns for a copy. -/
inductive StsetOp where
  | createStset (ok : Bool)
  | addStack (stset : Nat) (newMps : MprofileStack) (block : Option (Int -> UInt64))
  | mergeStack (dst src stackId : Nat) (block : Option (Int -> UInt64))
  | getNextStack (stset mps : Nat)
  | destroyStset (stset : Nat)

/-- The sets on ordered lists, what has been freed, and what the functions have returned. -/
structure StsetRun where
  heap : StackHeap
  freed : Freed
  answers : List Nat

/-- Null, or a set that has been created and not been destroyed. -/
def StsetRun.Named (run : StsetRun) (stset : Nat) : Prop :=
  stset < run.heap.stsetTop ∧ stset ∉ run.freed.stset

instance (run : StsetRun) (stset : Nat) : Decidable (run.Named stset) :=
  inferInstanceAs (Decidable (_ ∧ _))

namespace StsetOp

def perform (fuel turns : Nat) : StsetOp -> LinkM Nat
  | createStset ok => Linked.mprofileCreateStset ok
  | addStack stset newMps block => Linked.mprofileAddStack fuel stset newMps block
  | mergeStack dst src stackId block => Linked.mprofileMergeStack fuel dst src stackId block
  | getNextStack stset mps => Linked.mprofileGetNextStack fuel stset mps
  | destroyStset stset => (fun _ => 0) <$> Linked.mprofileDestroyStset fuel turns stset

/-- What an operation asks for: `malloc` returns memory that is not in use, the sets exist,
what is merged is merged into a set and from a set, the walk goes on from a stack of its set,
and a set that is destroyed has all of its stacks in both trees. -/
def Asks (turns : Nat) (run : StsetRun) : StsetOp -> Prop
  | createStset _ => True
  | addStack stset _ block => run.heap.Unused block ∧ run.Named stset
  | mergeStack dst src _ block =>
      run.heap.Unused block ∧ (dst ≠ 0 ∧ run.Named dst) ∧ src ≠ 0 ∧ run.Named src
  | getNextStack stset mps =>
      run.Named stset ∧ (stset ≠ 0 -> mps ≠ 0 -> mps ∈ run.heap.members stset)
  | destroyStset stset => run.Named stset ∧ (stset ≠ 0 ->
      (forall p, p ∈ run.heap.members stset -> p ∈ (run.heap.stset stset).stsetIdRbh) ∧
        (run.heap.members stset).length < turns)

/-- There is fuel for the trees besides. -/
def Fits (fuel turns : Nat) (run : StsetRun) (op : StsetOp) : Prop :=
  2 * Nat.log 2 (run.heap.mpsTop + 1) < fuel ∧ op.Asks turns run

instance (turns : Nat) (run : StsetRun) : (op : StsetOp) -> Decidable (op.Asks turns run)
  | createStset _ => inferInstanceAs (Decidable True)
  | addStack _ _ _ => inferInstanceAs (Decidable (_ ∧ _))
  | mergeStack _ _ _ _ => inferInstanceAs (Decidable (_ ∧ (_ ∧ _) ∧ _ ∧ _))
  | getNextStack stset mps =>
      inferInstanceAs (Decidable (_ ∧ (stset ≠ 0 -> mps ≠ 0 -> mps ∈ run.heap.members stset)))
  | destroyStset stset => inferInstanceAs (Decidable (_ ∧ (stset ≠ 0 -> _ ∧ _ < turns)))

instance (fuel turns : Nat) (run : StsetRun) (op : StsetOp) : Decidable (op.Fits fuel turns run) :=
  inferInstanceAs (Decidable (_ < _ ∧ _))

end StsetOp

/-- One operation on the links. -/
def linkedNext (fuel turns : Nat) (s : LinkedHeap × List Nat) (op : StsetOp) :
    Except LinkStop (LinkedHeap × List Nat) :=
  (op.perform fuel turns s.1).map (fun both => (both.2, s.2 ++ [both.1]))

/-- One operation on ordered lists. -/
def stsetNext (run : StsetRun) : StsetOp -> Except MergeFault StsetRun
  | .createStset ok =>
      let created := mprofileCreateStset run.heap ok
      .ok ⟨created.1, run.freed, run.answers ++ [created.2]⟩
  | .addStack stset newMps block =>
      let added := mprofileAddStack run.heap stset newMps block
      .ok ⟨added.1, run.freed, run.answers ++ [added.2]⟩
  | .mergeStack dst src stackId block =>
      (mprofileMergeStack run.heap dst src stackId block).map (fun merged =>
        ⟨merged.1, { run.freed with
            mps := run.freed.mps ++ mergeFrees run.heap src stackId merged.2 },
          run.answers ++ [merged.2]⟩)
  | .getNextStack stset mps =>
    .ok { run with answers := run.answers ++ [nextStack run.heap stset mps] }
  | .destroyStset stset =>
      if stset = 0 then .ok { run with answers := run.answers ++ [0] }
      else .ok ⟨clearStset run.heap stset (run.heap.stset stset).stsetId,
        ⟨run.freed.mps ++ run.heap.members stset, run.freed.stset ++ [stset]⟩, run.answers ++ [0]⟩

/-- The links are those of the ordered lists, and each stack is linked or was freed. -/
structure Follows (linked : LinkedHeap) (run : StsetRun) : Prop where
  embodies : Embodies linked run.heap run.freed
  sound : Sound run.heap run.freed.mps
  accounted : Accounted run.heap run.freed.mps

def LinkedHeap.empty : LinkedHeap where
  mps := StackHeap.empty.mps
  mpsTop := 1
  stsetId := fun _ => 1
  stsetTop := 1
  mpsRbe := ⟨fun _ => ⟨0, 0, 0, .black⟩, fun _ => 0⟩
  mpsIdRbe := ⟨fun _ => ⟨0, 0, 0, .black⟩, fun _ => 0⟩
  freed := ⟨[], []⟩

section Runs

variable {linked : LinkedHeap} {run : StsetRun} {fuel turns : Nat}

theorem follows_empty : Follows .empty ⟨.empty, ⟨[], []⟩, []⟩ := by
  have noMember : forall s p, p ∉ StackHeap.empty.members s := fun _ _ => List.not_mem_nil
  have nowhere : forall s p, ¬ StackHeap.empty.Hangs s p := fun _ _ hung =>
    hung.elim List.not_mem_nil List.not_mem_nil
  have inOrder : TreesInOrder StackHeap.empty := ⟨Nat.one_pos, fun _ => List.Pairwise.nil,
    fun _ => List.Pairwise.nil, fun s p hung => absurd hung (nowhere s p),
      fun s _ p hung => absurd hung (nowhere s p)⟩
  have tidy : Tidy StackHeap.empty :=
    ⟨inOrder, fun _ _ impossible => absurd impossible List.not_mem_nil⟩
  refine ⟨⟨rfl, rfl, rfl, rfl, plants_empty _, plants_empty _, rfl⟩,
    ⟨tidy, fun s p member => absurd member (noMember s p), List.nodup_nil,
      fun _ impossible => absurd impossible List.not_mem_nil,
      fun _ impossible => absurd impossible List.not_mem_nil⟩,
    ⟨fun p positive below => absurd below (Nat.not_lt.mpr positive), fun _ _ => rfl⟩⟩

theorem Accounted.notInUse {heap : StackHeap} {gone : List Nat} {block : Option (Int -> UInt64)}
    (accounted : Accounted heap gone) (unused : heap.Unused block) : heap.NotInUse block := by
  intro words granted s p member same
  by_cases created : s < heap.stsetTop
  · refine unused s created p member ?_
    rw [granted, same]
    rfl
  · rw [accounted.blank s (Nat.not_lt.mp created)] at member
    cases member

/-- One operation. -/
theorem Follows.perform (follows : Follows linked run) (op : StsetOp)
    (fits : op.Fits fuel turns run) :
    match stsetNext run op with
    | .ok run' => Exists fun linked' =>
        linkedNext fuel turns (linked, run.answers) op = .ok (linked', run'.answers) ∧
          Follows linked' run'
    | .error fault => linkedNext fuel turns (linked, run.answers) op = .error (.merge fault) := by
  rcases follows with ⟨embodies, sound, accounted⟩
  have less : 2 * Nat.log 2 run.heap.mpsTop < fuel :=
    lt_of_le_of_lt (Nat.mul_le_mul_left 2 (Nat.log_mono_right (Nat.le_succ _))) fits.1
  have answered : forall {value : Nat} {linked' : LinkedHeap},
      Runs (op.perform fuel turns) linked value linked' ->
      linkedNext fuel turns (linked, run.answers) op = .ok (linked', run.answers ++ [value]) := by
    intro value linked' ran
    rw [linkedNext, ran]
    rfl
  cases op with
  | createStset ok =>
      rcases embodies.mprofileCreateStset ok with ⟨linked', ran, embodies'⟩
      exact ⟨linked', answered ran, embodies', sound_create sound ok, accounted_create accounted ok⟩
  | addStack stset newMps block =>
      have notInUse := accounted.notInUse fits.2.1
      rcases embodies.mprofileAddStack (s := stset) sound.tidy fits.1 notInUse with
        ⟨linked', ran, embodies', -⟩
      exact ⟨linked', answered ran, embodies', sound.mprofileAddStack notInUse,
        accounted.mprofileAddStack sound notInUse fits.2.2.1⟩
  | mergeStack dst src stackId block =>
      have notInUse := accounted.notInUse fits.2.1
      have agrees :=
        @Embodies.mprofileMergeStack _ _ _ dst src stackId _ _ embodies sound.tidy fits.1 notInUse
      rw [stsetNext]
      cases merged : Mprofile.mprofileMergeStack run.heap dst src stackId block with
      | error fault =>
          rw [merged] at agrees
          change (Linked.mprofileMergeStack fuel dst src stackId block linked).map _ = _
          rw [agrees]
          rfl
      | ok result =>
          rw [merged] at agrees
          rcases agrees with ⟨linked', ran, embodies'⟩
          exact ⟨linked', answered ran, embodies', sound.mprofileMergeStack notInUse merged,
            accounted.mprofileMergeStack sound notInUse fits.2.2.1.2.1 merged⟩
  | getNextStack stset mps =>
      exact ⟨linked, answered (embodies.mprofileGetNextStack sound.tidy.inOrder less fits.2.2),
        embodies, sound,
        accounted⟩
  | destroyStset stset =>
      rw [stsetNext]
      by_cases null : stset = 0
      · rw [if_pos null]
        have ran : Runs (Linked.mprofileDestroyStset fuel turns stset) linked () linked := by
          rw [Linked.mprofileDestroyStset, if_pos null]
          exact runs_pure () linked
        exact ⟨linked, answered (runs_map _ ran), embodies, sound, accounted⟩
      · rw [if_neg null]
        have asked := fits.2.2 null
        rcases embodies.mprofileDestroyStset sound less null asked.1 asked.2 with
          ⟨linked', ran, embodies', sound'⟩
        exact ⟨linked', answered (runs_map _ ran), embodies', sound', accounted.clear stset _⟩

/-- Any run on the links returns what it returns on ordered lists, or stops with the same fault.
Each stack is then linked in a set or was freed once, and none that is linked was freed. -/
theorem linkedNext_follows (follows : Follows linked run) {ops : List StsetOp}
    (fits : Meets stsetNext (StsetOp.Fits fuel turns) run ops) :
    match exec stsetNext run ops with
    | .ok run' => Exists fun linked' =>
        exec (linkedNext fuel turns) (linked, run.answers) ops = .ok (linked', run'.answers) ∧
          Follows linked' run'
    | .error fault =>
      exec (linkedNext fuel turns) (linked, run.answers) ops = .error (.merge fault) := by
  induction ops generalizing linked run with
  | nil => exact ⟨linked, rfl, follows⟩
  | cons op ops inductionHypothesis =>
      have step := follows.perform op fits.1
      rw [exec, exec]
      cases stepped : stsetNext run op with
      | error fault =>
          rw [stepped] at step
          simp only at step ⊢
          rw [step]
      | ok run' =>
          rw [stepped] at step
          rcases step with ⟨linked', ran, follows'⟩
          simp only
          rw [ran]
          exact inductionHypothesis follows' (fits.2 run' stepped)

end Runs

/-- A call stack with one frame. -/
def singleFrame (frame : UInt64) : MprofileStack := ⟨1, 0, 1, 0, 0, 0, fun _ => frame⟩

/-- Two sets that share a stack are merged, and the second one is destroyed with the rest of it. -/
def mergedRun : List StsetOp :=
  [ .createStset true, .createStset true,
    .addStack 1 (singleFrame 7) (some (fun _ => 100)),
    .addStack 2 (singleFrame 7) (some (fun _ => 200)),
    .addStack 2 (singleFrame 8) (some (fun _ => 300)),
    .mergeStack 1 2 1 none, .getNextStack 2 0, .destroyStset 2 ]

theorem linkedNext_follows_merged : Exists fun linked => Exists fun run =>
    exec stsetNext ⟨.empty, ⟨[], []⟩, []⟩ mergedRun = .ok run ∧
      (run.answers = [1, 2, 1, 2, 3, 1, 3, 0] ∧ run.freed.mps = [2, 3]) ∧
        exec (linkedNext 6 9) (.empty, []) mergedRun = .ok (linked, run.answers) ∧
          Follows linked run := by
  have ends : Exists fun run => exec stsetNext ⟨.empty, ⟨[], []⟩, []⟩ mergedRun = .ok run ∧
      (run.answers = [1, 2, 1, 2, 3, 1, 3, 0] ∧ run.freed.mps = [2, 3]) :=
    reaches_of_check (by decide +kernel)
  have fits : Meets stsetNext (StsetOp.Fits 6 9) ⟨.empty, ⟨[], []⟩, []⟩ mergedRun :=
    meets_of_check (by decide +kernel)
  have result := linkedNext_follows follows_empty fits
  rcases ends with ⟨run, executed, answers⟩
  rw [executed] at result
  rcases result with ⟨linked, ran, follows⟩
  exact ⟨linked, run, executed, answers, ran, follows⟩

end Mprofile
end OsslScripts
