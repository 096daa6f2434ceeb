import OsslScripts.Utils.TailqShape

namespace OsslScripts
namespace Utils

open Foundation
open TailqHeap

/-!
# Many tail queues

A store of links with many heads stands for one list for each head that `TAILQ_INIT` has
made ready.  Any run of the macros on the links, from memory that holds anything, does what
it does on the lists, as long as only heads that are ready are used and an element is linked
where it is in no queue already.
-/

/-- The elements behind each head. -/
abbrev TailQueues := Nat -> List Nat

/-- The links behind the heads that are ready are those of these queues. -/
structure TailqHeap.HoldsOn (heap : TailqHeap) (ready : Nat -> Prop)
    (queues : TailQueues) : Prop where
  shows : forall head, ready head -> heap.Shows head (queues head)
  apart : forall head other x, x ∈ queues head -> x ∈ queues other -> head = other
  blank : forall head, ¬ ready head -> queues head = []

/-- The links are those of these queues, whatever the head. -/
structure TailqHeap.Holds (heap : TailqHeap) (queues : TailQueues) : Prop where
  shows : forall head, heap.Shows head (queues head)
  apart : forall head other x, x ∈ queues head -> x ∈ queues other -> head = other

section Queues

variable {heap heap' : TailqHeap} {ready ready' : Nat -> Prop} {queues queues' : TailQueues}
  {head elm x : Nat}
  {elems inside : List Nat}

theorem holds_iff : heap.Holds queues ↔ heap.HoldsOn (fun _ => True) queues :=
  ⟨fun holds =>
    ⟨fun head _ => holds.shows head, holds.apart, fun _ impossible => absurd trivial impossible⟩,
    fun holds => ⟨fun head => holds.shows head trivial, holds.apart⟩⟩

theorem TailqHeap.HoldsOn.congr (holds : heap.HoldsOn ready queues)
    (same : forall head, ready head ↔ ready' head) :
    heap.HoldsOn ready' queues :=
  ⟨fun head isReady => holds.shows head ((same head).mpr isReady), holds.apart,
    fun head notReady => holds.blank head (fun isReady => notReady ((same head).mp isReady))⟩

/-- A queue with an element has a head that is ready. -/
theorem TailqHeap.HoldsOn.ready_of_mem (holds : heap.HoldsOn ready queues)
    (member : x ∈ queues head) : ready head := by
  by_contra notReady
  rw [holds.blank head notReady] at member
  cases member

/-- Some queues have changed, within elements that no other queue has. -/
theorem TailqHeap.HoldsOn.change {heads : List Nat} (holds : heap.HoldsOn ready queues)
    (within : heap.Within heap' heads inside)
    (here : forall head, head ∈ heads -> heap'.Shows head (queues' head))
    (elsewhere : forall head, head ∉ heads -> queues' head = queues head)
    (own : forall x, x ∈ inside -> forall other, x ∈ queues other -> other ∈ heads)
    (apart : forall head other x, x ∈ queues' head -> x ∈ queues' other -> head = other) :
    heap'.HoldsOn (fun head => ready head ∨ head ∈ heads) queues' := by
  refine ⟨fun head isReady => ?_, apart, fun head notReady => ?_⟩
  · by_cases changed : head ∈ heads
    · exact here head changed
    · rw [elsewhere head changed]
      exact (holds.shows head (isReady.resolve_right changed)).same within changed
        (fun x member isInside => changed (own x isInside head member))
  · rw [elsewhere head (fun changed => notReady (Or.inr changed))]
    exact holds.blank head (fun isReady => notReady (Or.inl isReady))

/-- One queue has changed. -/
theorem TailqHeap.HoldsOn.update (holds : heap.HoldsOn ready queues)
    (within : heap.Within heap' [head] inside)
    (shows : heap'.Shows head elems)
    (own : forall x, x ∈ inside -> forall other, x ∈ queues other -> other = head)
    (subset : elems ⊆ inside) :
    heap'.HoldsOn (fun other => ready other ∨ other = head)
      (Function.update queues head elems) := by
  refine (holds.change within (fun other isHead => ?_) (fun other notHead => ?_)
    (fun x isInside other member => List.mem_singleton.mpr (own x isInside other member))
    (fun first second x inFirst inSecond => ?_)).congr (fun _ => or_congr_right List.mem_singleton)
  · rw [List.mem_singleton.mp isHead, Function.update_self]
    exact shows
  · exact Function.update_of_ne (fun same => notHead (List.mem_singleton.mpr same)) _ _
  · by_cases isFirst : first = head
    · by_cases isSecond : second = head
      · rw [isFirst, isSecond]
      · rw [isFirst, Function.update_self] at inFirst
        rw [Function.update_of_ne isSecond] at inSecond
        exact absurd (own x (subset inFirst) second inSecond) isSecond
    · rw [Function.update_of_ne isFirst] at inFirst
      by_cases isSecond : second = head
      · rw [isSecond, Function.update_self] at inSecond
        exact absurd (own x (subset inSecond) first inFirst) isFirst
      · rw [Function.update_of_ne isSecond] at inSecond
        exact holds.apart first second x inFirst inSecond

/-- One queue has changed, whose head was ready. -/
theorem TailqHeap.HoldsOn.renew (holds : heap.HoldsOn ready queues) (isReady : ready head)
    (within : heap.Within heap' [head] inside) (shows : heap'.Shows head elems)
    (own : forall x, x ∈ inside -> forall other, x ∈ queues other -> other = head)
    (subset : elems ⊆ inside) :
    heap'.HoldsOn ready (Function.update queues head elems) :=
  (holds.update within shows own subset).congr
  (fun _ => or_iff_left_of_imp (fun same => same ▸ isReady))

/-- Nothing is known of the memory before the first `TAILQ_INIT`. -/
theorem holdsOn_nothing (heap : TailqHeap) : heap.HoldsOn (fun _ => False) (fun _ => []) :=
  ⟨fun _ impossible => impossible.elim, fun _ _ _ impossible => absurd impossible List.not_mem_nil,
    fun _ _ => rfl⟩

theorem holds_empty (entry : Nat -> Nat) (prev : Nat -> Slot) :
    TailqHeap.Holds ⟨fun _ => 0, Slot.first, entry, prev⟩ (fun _ => []) :=
  ⟨fun _ => ⟨trivial, rfl, rfl, List.nodup_nil, List.not_mem_nil⟩,
    fun _ _ _ impossible => by cases impossible⟩

theorem TailqHeap.HoldsOn.init (holds : heap.HoldsOn ready queues) (head : Nat) :
    (heap.tailqInit head).HoldsOn (fun other => ready other ∨ other = head)
      (Function.update queues head []) :=
  holds.update (within_tailqInit heap head) (shows_tailqInit heap head)
    (fun _ impossible => absurd impossible List.not_mem_nil) (List.Subset.refl _)

/-- The elements of one queue are in no other. -/
theorem TailqHeap.HoldsOn.own (holds : heap.HoldsOn ready queues) :
    forall x, x ∈ queues head -> forall other, x ∈ queues other -> other = head :=
  fun x member other inOther => holds.apart other head x inOther member

theorem TailqHeap.HoldsOn.own_cons (holds : heap.HoldsOn ready queues)
    (fresh : forall other, elm ∉ queues other) :
    forall x, x ∈ elm :: queues head -> forall other, x ∈ queues other -> other = head := by
  intro x member other inOther
  rcases List.mem_cons.mp member with rfl | inQueue
  · exact absurd inOther (fresh other)
  · exact holds.own x inQueue other inOther

theorem TailqHeap.HoldsOn.insertTail (holds : heap.HoldsOn ready queues) (isReady : ready head)
    (nonzero : elm ≠ 0)
    (fresh : forall other, elm ∉ queues other) :
    (heap.tailqInsertTail head elm).HoldsOn ready
      (Function.update queues head (queues head ++ [elm])) := by
  have shows := holds.shows head isReady
  refine holds.renew isReady (within_tailqInsertTail shows elm)
    (shows_tailqInsertTail shows nonzero (fresh head))
    (holds.own_cons fresh) (fun x member => ?_)
  rcases List.mem_append.mp member with inQueue | isElm
  · exact List.mem_cons_of_mem elm inQueue
  · exact List.mem_singleton.mp isElm ▸ List.mem_cons_self

theorem TailqHeap.HoldsOn.remove (holds : heap.HoldsOn ready queues) {pre post : List Nat}
    (order : queues head = pre ++ elm :: post) :
    (heap.tailqRemove head elm).HoldsOn ready (Function.update queues head (pre ++ post)) := by
  have member : elm ∈ queues head := by
    rw [order]
    exact List.mem_append_right pre List.mem_cons_self
  have isReady := holds.ready_of_mem member
  have shows := holds.shows head isReady
  rw [order] at shows
  have own : forall x, x ∈ queues head -> forall other, x ∈ queues other -> other = head :=
    holds.own
  rw [order] at own
  refine holds.renew isReady (within_tailqRemove shows) (shows_tailqRemove shows) own
    (fun x member => ?_)
  rcases List.mem_append.mp member with inPre | inPost
  · exact List.mem_append_left _ inPre
  · exact List.mem_append_right pre (List.mem_cons_of_mem elm inPost)

theorem TailqHeap.Holds.init (holds : heap.Holds queues) (head : Nat) :
    (heap.tailqInit head).Holds (Function.update queues head []) :=
  holds_iff.mpr (((holds_iff.mp holds).init head).congr (fun _ => iff_true_intro (Or.inl trivial)))

theorem TailqHeap.Holds.insertTail (holds : heap.Holds queues) (head : Nat) (nonzero : elm ≠ 0)
    (fresh : forall other, elm ∉ queues other) :
    (heap.tailqInsertTail head elm).Holds (Function.update queues head (queues head ++ [elm])) :=
  holds_iff.mpr ((holds_iff.mp holds).insertTail trivial nonzero fresh)

theorem TailqHeap.Holds.remove (holds : heap.Holds queues) {pre post : List Nat}
    (order : queues head = pre ++ elm :: post) :
    (heap.tailqRemove head elm).Holds (Function.update queues head (pre ++ post)) :=
  holds_iff.mpr ((holds_iff.mp holds).remove order)

end Queues

/-! ## Runs -/

/-- A use of the macros. -/
inductive TailqOp where
  | tailqInit (head : Nat)
  | tailqFirst (head : Nat)
  | tailqNext (head elm : Nat)
  | tailqLast (head : Nat)
  | tailqPrev (head elm : Nat)
  | tailqEmpty (head : Nat)
  | tailqInsertHead (head elm : Nat)
  | tailqInsertTail (head elm : Nat)
  | tailqInsertAfter (head listelm elm : Nat)
  | tailqInsertBefore (head listelm elm : Nat)
  | tailqRemove (head elm : Nat)
  | tailqReplace (head elm elm2 : Nat)
  | tailqConcat (head1 head2 : Nat)

/-- The elements before this one. -/
def ahead (x : Nat) (queue : List Nat) : List Nat := queue.takeWhile (fun y => y ≠ x)

/-- The elements after this one. -/
def rest (x : Nat) (queue : List Nat) : List Nat := (queue.dropWhile (fun y => y ≠ x)).tail

namespace TailqOp

/-- What the macro leaves on the links. -/
def perform (heap : TailqHeap) : TailqOp -> TailqHeap
  | tailqInit head => heap.tailqInit head
  | tailqInsertHead head elm => heap.tailqInsertHead head elm
  | tailqInsertTail head elm => heap.tailqInsertTail head elm
  | tailqInsertAfter head listelm elm => heap.tailqInsertAfter head listelm elm
  | tailqInsertBefore _ listelm elm => heap.tailqInsertBefore listelm elm
  | tailqRemove head elm => heap.tailqRemove head elm
  | tailqReplace head elm elm2 => heap.tailqReplace head elm elm2
  | tailqConcat head1 head2 => heap.tailqConcat head1 head2
  | _ => heap

/-- What the macro gives on the links. -/
def read (heap : TailqHeap) : TailqOp -> Nat
  | tailqFirst head => heap.tailqFirst head
  | tailqNext _ elm => heap.tailqNext elm
  | tailqLast head => heap.tailqLast head
  | tailqPrev _ elm => heap.tailqPrev elm
  | tailqEmpty head => (heap.tailqEmpty head).toNat
  | _ => 0

/-- What the macro leaves of the lists. -/
def after (queues : TailQueues) : TailqOp -> TailQueues
  | tailqInit head => Function.update queues head []
  | tailqInsertHead head elm => Function.update queues head (elm :: queues head)
  | tailqInsertTail head elm => Function.update queues head (queues head ++ [elm])
  | tailqInsertAfter head listelm elm => Function.update queues head
      (ahead listelm (queues head) ++ listelm :: elm :: rest listelm (queues head))
  | tailqInsertBefore head listelm elm => Function.update queues head
      (ahead listelm (queues head) ++ elm :: listelm :: rest listelm (queues head))
  | tailqRemove head elm =>
    Function.update queues head (ahead elm (queues head) ++ rest elm (queues head))
  | tailqReplace head elm elm2 => Function.update queues head
      (ahead elm (queues head) ++ elm2 :: rest elm (queues head))
  | tailqConcat head1 head2 =>
    Function.update (Function.update queues head1 (queues head1 ++ queues head2)) head2 []
  | _ => queues

/-- What the macro gives on the lists. -/
def answer (queues : TailQueues) : TailqOp -> Nat
  | tailqFirst head => (queues head).headD 0
  | tailqNext head elm => (rest elm (queues head)).headD 0
  | tailqLast head => (queues head).getLastD 0
  | tailqPrev head elm => (ahead elm (queues head)).getLastD 0
  | tailqEmpty head => (queues head).isEmpty.toNat
  | _ => 0

/-- Which heads are ready afterwards. -/
def readies (ready : Nat -> Prop) : TailqOp -> Nat -> Prop
  | tailqInit head => fun other => ready other ∨ other = head
  | _ => ready

/-- A head that is used is ready, a new element is not null and in no queue, and the other ones
are in the queue. -/
def Fits (ready : Nat -> Prop) (queues : TailQueues) : TailqOp -> Prop
  | tailqInit _ => True
  | tailqFirst head => ready head
  | tailqNext head elm => elm ∈ queues head
  | tailqLast head => ready head
  | tailqPrev head elm => elm ∈ queues head
  | tailqEmpty head => ready head
  | tailqInsertHead head elm => ready head ∧ elm ≠ 0 ∧ forall other, elm ∉ queues other
  | tailqInsertTail head elm => ready head ∧ elm ≠ 0 ∧ forall other, elm ∉ queues other
  | tailqInsertAfter head listelm elm =>
    (elm ≠ 0 ∧ forall other, elm ∉ queues other) ∧ listelm ∈ queues head
  | tailqInsertBefore head listelm elm =>
    (elm ≠ 0 ∧ forall other, elm ∉ queues other) ∧ listelm ∈ queues head
  | tailqRemove head elm => elm ∈ queues head
  | tailqReplace head elm elm2 => (elm2 ≠ 0 ∧ forall other, elm2 ∉ queues other) ∧ elm ∈ queues head
  | tailqConcat head1 head2 => (ready head1 ∧ ready head2) ∧ head1 ≠ head2

end TailqOp

/-- The links, and what the macros have given. -/
def tailqStep (s : TailqHeap × List Nat) (op : TailqOp) : Except Empty (TailqHeap × List Nat) :=
  .ok (op.perform s.1, s.2 ++ [op.read s.1])

/-- The heads that are ready, the lists behind them, and what the macros have given. -/
structure TailqLists where
  ready : Nat -> Prop
  queues : TailQueues
  answers : List Nat

/-- One macro on the lists. -/
def queueStep (s : TailqLists) (op : TailqOp) : Except Empty TailqLists :=
  .ok ⟨op.readies s.ready, op.after s.queues, s.answers ++ [op.answer s.queues]⟩

section Runs

variable {heap : TailqHeap} {ready : Nat -> Prop} {queues : TailQueues}

/-- A queue around one of its elements. -/
theorem around_member {x : Nat} {queue : List Nat} (distinct : queue.Nodup) (member : x ∈ queue) :
    queue = ahead x queue ++ x :: rest x queue := by
  rcases List.append_of_mem member with ⟨pre, post, rfl⟩
  have before : forall y, y ∈ pre -> decide (y ≠ x) = true := fun y inPre =>
    decide_eq_true ((List.nodup_append.mp distinct).2.2 y inPre x List.mem_cons_self)
  rw [ahead, rest, List.takeWhile_append_of_pos before, List.takeWhile_cons_of_neg (by simp),
    List.append_nil,
    List.dropWhile_append_of_pos before, List.dropWhile_cons_of_neg (by simp), List.tail_cons]

theorem TailqHeap.HoldsOn.around (holds : heap.HoldsOn ready queues) {head x : Nat}
    (member : x ∈ queues head) :
    queues head = ahead x (queues head) ++ x :: rest x (queues head) :=
  around_member (holds.shows head (holds.ready_of_mem member)).distinct member

/-- One macro. -/
theorem TailqHeap.HoldsOn.perform (holds : heap.HoldsOn ready queues) (op : TailqOp)
    (fits : op.Fits ready queues) :
    (op.perform heap).HoldsOn (op.readies ready) (op.after queues) ∧
      op.read heap = op.answer queues := by
  -- a queue that changes around an element, where another one may come in
  have changed : forall {head x : Nat} {heap' : TailqHeap} {elems inside : List Nat}, x ∈
      queues head ->
      heap.Within heap' [head] inside -> heap'.Shows head elems ->
      (inside = queues head ∨ Exists fun elm => (forall other, elm ∉ queues other) ∧
        inside = elm :: queues head) ->
      elems ⊆ inside -> heap'.HoldsOn ready (Function.update queues head elems) := by
    intro head x heap' elems inside member within shows which subset
    refine holds.renew (holds.ready_of_mem member) within shows ?_ subset
    rcases which with rfl | ⟨elm, fresh, rfl⟩
    · exact holds.own
    · exact holds.own_cons fresh
  cases op with
  | tailqInit head => exact ⟨holds.init head, rfl⟩
  | tailqFirst head => exact ⟨holds, (holds.shows head fits).first⟩
  | tailqNext head elm =>
      have shows := holds.shows head (holds.ready_of_mem fits)
      rw [holds.around fits] at shows
      exact ⟨holds, shows.around.next⟩
  | tailqLast head => exact ⟨holds, (holds.shows head fits).tailqLast⟩
  | tailqPrev head elm =>
      have shows := holds.shows head (holds.ready_of_mem fits)
      rw [holds.around fits] at shows
      exact ⟨holds, shows.tailqPrev⟩
  | tailqEmpty head => exact ⟨holds, congrArg Bool.toNat (holds.shows head fits).empty⟩
  | tailqInsertHead head elm =>
      rcases fits with ⟨isReady, nonzero, fresh⟩
      have shows := holds.shows head isReady
      exact ⟨holds.renew isReady (within_tailqInsertHead shows elm)
        (shows_tailqInsertHead shows nonzero (fresh head))
        (holds.own_cons fresh) (List.Subset.refl _), rfl⟩
  | tailqInsertTail head elm => exact ⟨holds.insertTail fits.1 fits.2.1 fits.2.2, rfl⟩
  | tailqInsertAfter head listelm elm =>
      have order := holds.around fits.2
      have shows := holds.shows head (holds.ready_of_mem fits.2)
      have fresh := fits.1.2 head
      rw [order] at shows fresh
      refine ⟨changed fits.2 (within_tailqInsertAfter shows elm)
        (shows_tailqInsertAfter shows fits.1.1 fresh)
        (Or.inr ⟨elm, fits.1.2, congrArg (List.cons elm) order.symm⟩) (fun y member => ?_), rfl⟩
      simp only [List.mem_append, List.mem_cons] at member ⊢
      tauto
  | tailqInsertBefore head listelm elm =>
      have order := holds.around fits.2
      have shows := holds.shows head (holds.ready_of_mem fits.2)
      have fresh := fits.1.2 head
      have different : listelm ≠ elm := fun same => fits.1.2 head (same ▸ fits.2)
      rw [order] at shows fresh
      refine ⟨changed fits.2 (within_tailqInsertBefore shows different)
        (shows_tailqInsertBefore shows fits.1.1 fresh)
        (Or.inr ⟨elm, fits.1.2, congrArg (List.cons elm) order.symm⟩) (fun y member => ?_), rfl⟩
      simp only [List.mem_append, List.mem_cons] at member ⊢
      tauto
  | tailqRemove head elm => exact ⟨holds.remove (holds.around fits), rfl⟩
  | tailqReplace head elm elm2 =>
      have order := holds.around fits.2
      have shows := holds.shows head (holds.ready_of_mem fits.2)
      have fresh := fits.1.2 head
      rw [order] at shows fresh
      refine ⟨changed fits.2 (within_tailqReplace shows elm2)
        (shows_tailqReplace shows fits.1.1 fresh)
        (Or.inr ⟨elm2, fits.1.2, congrArg (List.cons elm2) order.symm⟩) (fun y member => ?_), rfl⟩
      simp only [List.mem_append, List.mem_cons] at member ⊢
      tauto
  | tailqConcat head1 head2 =>
      rcases fits with ⟨⟨ready1, ready2⟩, different⟩
      have moved :=
        shows_tailqConcat (holds.shows head1 ready1) (holds.shows head2 ready2) different
        (fun x inFirst inSecond => different (holds.apart head1 head2 x inFirst inSecond))
      have origin : forall head x, x ∈ (TailqOp.tailqConcat head1 head2).after queues head ->
          (head = head1 ∧ x ∈ queues head2) ∨ (head ≠ head2 ∧ x ∈ queues head) := by
        intro head x member
        rw [TailqOp.after] at member
        by_cases second : head = head2
        · rw [second, Function.update_self] at member
          cases member
        · rw [Function.update_of_ne second] at member
          by_cases first : head = head1
          · rw [first, Function.update_self] at member
            rcases List.mem_append.mp member with own | other
            · exact Or.inr ⟨second, first ▸ own⟩
            · exact Or.inl ⟨first, other⟩
          · rw [Function.update_of_ne first] at member
            exact Or.inr ⟨second, member⟩
      have both : forall head, (ready head ∨ head ∈ [head1, head2]) ↔ ready head := by
        refine fun head => or_iff_left_of_imp (fun isHead => ?_)
        rcases List.mem_pair.mp isHead with rfl | rfl <;> assumption
      refine ⟨(holds.change moved.2.2 (fun head isHead => ?_) (fun head notHead => ?_)
        (fun x inside other member => ?_)
        (fun head other x inFirst inSecond => ?_)).congr both, rfl⟩
      · rw [TailqOp.after]
        by_cases second : head = head2
        · rw [second, Function.update_self]
          exact moved.2.1
        · have first : head = head1 := by simpa [second] using isHead
          rw [Function.update_of_ne second, first, Function.update_self]
          exact moved.1
      · rw [TailqOp.after, Function.update_of_ne (fun same => notHead (by simp [same])),
          Function.update_of_ne (fun same => notHead (by simp [same]))]
      · rcases List.mem_append.mp inside with own | own
        · rw [holds.apart other head1 x member own]
          simp
        · rw [holds.apart other head2 x member own]
          simp
      · rcases origin head x inFirst with ⟨rfl, own⟩ | ⟨notSecond, own⟩
        · rcases origin other x inSecond with ⟨rfl, -⟩ | ⟨notSecond', own'⟩
          · rfl
          · exact absurd (holds.apart other head2 x own' own) notSecond'
        · rcases origin other x inSecond with ⟨rfl, own'⟩ | ⟨-, own'⟩
          · exact absurd (holds.apart head head2 x own own') notSecond
          · exact holds.apart head other x own own'

/-- Any run of the macros on the links gives what it gives on lists, and leaves the links of
these lists.  No head need be ready when it starts (`holdsOn_nothing`). -/
theorem tailqStep_refines (holds : heap.HoldsOn ready queues) {ops : List TailqOp}
    {lists : TailqLists}
    (fits : Meets queueStep (fun s op => op.Fits s.ready s.queues) ⟨ready, queues, []⟩ ops)
    (listed : exec queueStep ⟨ready, queues, []⟩ ops = .ok lists) :
    Exists fun heap' => exec tailqStep (heap, []) ops = .ok (heap', lists.answers) ∧
      heap'.HoldsOn lists.ready lists.queues := by
  have simulated := @exec_simulates _ _ _ _ _ _ _ tailqStep id
    (fun s t ls => t.1.HoldsOn s.ready s.queues ∧ t.2 = s.answers ∧
      Meets queueStep (fun s op => op.Fits s.ready s.queues) s ls) ?_
    _ _ (heap, []) _ ⟨holds, rfl, fits⟩ listed
  · rcases simulated with ⟨⟨heap', answers'⟩, executed, holds', same, -⟩
    rw [List.map_id] at executed
    cases same
    exact ⟨heap', executed, holds'⟩
  · rintro ⟨ready, queues, answers⟩ ⟨heap, answers'⟩ op ops s' ⟨holds, same, fits⟩ stepped
    cases same
    have step := holds.perform op fits.1
    cases stepped
    exact ⟨_, rfl, step.1, congrArg (fun given => answers ++ [given]) step.2, fits.2 _ rfl⟩

end Runs

/-- Memory that has not been used as queues. -/
def unqueued : TailqHeap := ⟨fun _ => 77, fun _ => .next 77, fun _ => 77, fun _ => .next 77⟩

/-- Two elements of one queue, which goes over to another one. -/
def queuedOps : List TailqOp :=
  [.tailqInit 1, .tailqInit 2, .tailqInsertTail 1 10, .tailqInsertBefore 1 10 20, .tailqConcat 2 1,
    .tailqRemove 2 20, .tailqLast 2]

theorem tailqStep_refines_queued : Exists fun heap' => Exists fun lists : TailqLists =>
    exec tailqStep (unqueued, []) queuedOps = .ok (heap', [0, 0, 0, 0, 0, 0, 10]) ∧
      lists.queues 1 = [] ∧ lists.queues 2 = [10] ∧ lists.ready 2 ∧
        heap'.HoldsOn lists.ready lists.queues := by
  have fits : Meets queueStep (fun s op => op.Fits s.ready s.queues)
      ⟨fun _ => False, fun _ => [], []⟩ queuedOps := by
    refine ⟨trivial, fun _ stepped => ?_⟩
    cases stepped
    refine ⟨trivial, fun _ stepped => ?_⟩
    cases stepped
    refine ⟨⟨Or.inl (Or.inr rfl), by decide, fun other member => ?_⟩, fun _ stepped => ?_⟩
    · simp [TailqOp.after, Function.update_apply] at member
    cases stepped
    refine ⟨⟨⟨by decide, fun other member => ?_⟩, List.mem_cons_self⟩, fun _ stepped => ?_⟩
    · by_cases here : other = 1 <;> simp [TailqOp.after, here] at member
    cases stepped
    refine ⟨⟨⟨Or.inr rfl, Or.inl (Or.inr rfl)⟩, by decide⟩, fun _ stepped => ?_⟩
    cases stepped
    refine ⟨(by decide : 20 ∈ [20, 10]), fun _ stepped => ?_⟩
    cases stepped
    exact ⟨Or.inr rfl, fun _ _ => trivial⟩
  rcases tailqStep_refines (holdsOn_nothing unqueued) fits rfl with ⟨heap', executed, holds⟩
  exact ⟨heap', _, executed, rfl, rfl, Or.inr rfl, holds⟩

end Utils
end OsslScripts
