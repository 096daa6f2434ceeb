import OsslScripts.Foundation.Transition
import OsslScripts.Utils.Tailq

namespace OsslScripts
namespace Utils

open Foundation

/-!
# Tail queues as lists

`Shows` says that the links of a head are those of a list.  The macros do on the links
what they do on lists, and leave the other queues alone.
-/

/-- The place behind these elements. -/
def endSlot : Slot -> List Nat -> Slot
  | slot, [] => slot
  | _, x :: xs => endSlot (.next x) xs

/-- The places that point to these elements. -/
def slots : Slot -> List Nat -> List Slot
  | _, [] => []
  | slot, x :: xs => slot :: slots (.next x) xs

namespace TailqHeap

/-- From this place on the links are those of these elements. -/
def Seg (heap : TailqHeap) : Slot -> List Nat -> Prop
  | _, [] => True
  | slot, x :: xs => heap.load slot = x ∧ heap.tqePrev x = slot ∧ Seg heap (.next x) xs

/-- The queue of a head. -/
structure Shows (heap : TailqHeap) (head : Nat) (elems : List Nat) : Prop where
  seg : heap.Seg (.first head) elems
  last : heap.tqhLast head = endSlot (.first head) elems
  ends : heap.load (endSlot (.first head) elems) = 0
  distinct : elems.Nodup
  proper : 0 ∉ elems

/-- Nothing but the links of these heads and elements changes. -/
structure Within (heap heap' : TailqHeap) (heads elems : List Nat) : Prop where
  first : forall head, head ∉ heads -> heap'.tqhFirst head = heap.tqhFirst head
  last : forall head, head ∉ heads -> heap'.tqhLast head = heap.tqhLast head
  next : forall x, x ∉ elems -> heap'.tqeNext x = heap.tqeNext x
  prev : forall x, x ∉ elems -> heap'.tqePrev x = heap.tqePrev x

end TailqHeap

open TailqHeap

section Segments

variable {heap heap' : TailqHeap} {slot : Slot} {head elm x : Nat} {xs ys pre post elems : List Nat}

theorem endSlot_append (slot : Slot) (xs ys : List Nat) :
    endSlot slot (xs ++ ys) = endSlot (endSlot slot xs) ys := by
  induction xs generalizing slot with
  | nil => rfl
  | cons x xs inductionHypothesis => exact inductionHypothesis (.next x)

theorem endSlot_cases (slot : Slot) (xs : List Nat) :
    (xs = [] ∧ endSlot slot xs = slot) ∨ Exists fun x => x ∈ xs ∧ endSlot slot xs = .next x := by
  induction xs generalizing slot with
  | nil => exact Or.inl ⟨rfl, rfl⟩
  | cons x xs inductionHypothesis =>
      rcases inductionHypothesis (.next x) with ⟨rfl, same⟩ | ⟨y, member, same⟩
      · exact Or.inr ⟨x, List.mem_cons_self, same⟩
      · exact Or.inr ⟨y, List.mem_cons_of_mem x member, same⟩

theorem mem_slots {other : Slot} (member : other ∈ slots slot xs) :
    other = slot ∨ Exists fun x => x ∈ xs ∧ other = .next x := by
  induction xs generalizing slot with
  | nil => cases member
  | cons x xs inductionHypothesis =>
      rcases List.mem_cons.mp member with same | inRest
      · exact Or.inl same
      · rcases inductionHypothesis inRest with same | ⟨y, inXs, same⟩
        · exact Or.inr ⟨x, List.mem_cons_self, same⟩
        · exact Or.inr ⟨y, List.mem_cons_of_mem x inXs, same⟩

/-- The place behind the elements is not one that points to them. -/
theorem endSlot_not_mem (outside : forall x, x ∈ xs -> slot ≠ .next x) (distinct : xs.Nodup) :
    endSlot slot xs ∉ slots slot xs := by
  induction xs generalizing slot with
  | nil => exact List.not_mem_nil
  | cons x xs inductionHypothesis =>
      have parts := List.nodup_cons.mp distinct
      have rest := inductionHypothesis
        (fun y member (same : Slot.next x = .next y) => parts.1 (Slot.next.inj same ▸ member))
          parts.2
      intro member
      rcases List.mem_cons.mp member with same | inRest
      · rcases endSlot_cases (.next x) xs with ⟨-, isX⟩ | ⟨y, inXs, isY⟩
        · exact outside x List.mem_cons_self (same.symm.trans isX)
        · exact outside y (List.mem_cons_of_mem x inXs) (same.symm.trans isY)
      · exact rest inRest

theorem seg_append :
    heap.Seg slot (xs ++ ys) ↔ heap.Seg slot xs ∧ heap.Seg (endSlot slot xs) ys := by
  induction xs generalizing slot with
  | nil => exact (and_iff_right trivial).symm
  | cons x xs inductionHypothesis =>
      change _ ∧ _ ∧ heap.Seg (.next x) (xs ++ ys) ↔
        (_ ∧ _ ∧ heap.Seg (.next x) xs) ∧ heap.Seg (endSlot (.next x) xs) ys
      rw [inductionHypothesis, and_assoc, and_assoc]

/-- A segment is seen in its places and its elements only. -/
theorem TailqHeap.Seg.same (seg : heap.Seg slot xs)
    (loads : forall other, other ∈ slots slot xs -> heap'.load other = heap.load other)
    (prevs : forall x, x ∈ xs -> heap'.tqePrev x = heap.tqePrev x) : heap'.Seg slot xs := by
  induction xs generalizing slot with
  | nil => trivial
  | cons x xs inductionHypothesis =>
      exact ⟨(loads slot List.mem_cons_self).trans seg.1,
        (prevs x List.mem_cons_self).trans seg.2.1,
        inductionHypothesis seg.2.2
          (fun other member => loads other (List.mem_cons_of_mem slot member))
          (fun y member => prevs y (List.mem_cons_of_mem x member))⟩

theorem first_ne_next (head : Nat) (xs : List Nat) :
    forall x, x ∈ xs -> Slot.first head ≠ .next x :=
  fun _ _ => by simp

/-- Queues elsewhere stay as they are. -/
theorem TailqHeap.Shows.same {heads inside : List Nat} (shows : heap.Shows head elems)
    (within : heap.Within heap' heads inside) (elsewhere : head ∉ heads)
    (apart : forall x, x ∈ elems -> x ∉ inside) :
    heap'.Shows head elems := by
  have loads : forall other, other = .first head ∨ (Exists fun x => x ∈ elems ∧ other = .next x) ->
      heap'.load other = heap.load other := by
    rintro other (rfl | ⟨x, member, rfl⟩)
    · exact within.first head elsewhere
    · exact within.next x (apart x member)
  refine ⟨shows.seg.same (fun other member => loads other (mem_slots member)) (fun x member =>
    within.prev x (apart x member)), (within.last head elsewhere).trans shows.last, ?_,
      shows.distinct, shows.proper⟩
  rw [loads _ ?_]
  · exact shows.ends
  · rcases endSlot_cases (.first head) elems with ⟨-, same⟩ | ⟨x, member, same⟩
    · exact Or.inl same
    · exact Or.inr ⟨x, member, same⟩

theorem next_ne_endSlot (outside : x ∉ pre) (head : Nat) :
    Slot.next x ≠ endSlot (.first head) pre := by
  rcases endSlot_cases (.first head) pre with ⟨-, same⟩ | ⟨y, member, same⟩
  · rw [same]
    simp
  · rw [same]
    exact fun equal => outside (Slot.next.inj equal ▸ member)

/-- The pointer behind these elements. -/
theorem TailqHeap.Shows.load_endSlot (shows : heap.Shows head (xs ++ ys)) :
    heap.load (endSlot (.first head) xs) = ys.headD 0 := by
  cases ys with
  | nil =>
      have ends := shows.ends
      rwa [List.append_nil] at ends
  | cons y ys => exact (seg_append.mp shows.seg).2.1

/-- An element of a queue. -/
structure TailqHeap.Around (heap : TailqHeap) (head : Nat) (pre : List Nat) (x : Nat)
    (post : List Nat) : Prop where
  before : heap.Seg (.first head) pre
  prev : heap.tqePrev x = endSlot (.first head) pre
  next : heap.tqeNext x = post.headD 0
  after : heap.Seg (.next x) post
  nonzero : x ≠ 0
  notBefore : x ∉ pre
  notAfter : x ∉ post
  apart : forall y, y ∈ pre -> y ∉ post
  distinctBefore : pre.Nodup
  distinctAfter : post.Nodup

theorem TailqHeap.Shows.around (shows : heap.Shows head (pre ++ x :: post)) :
    heap.Around head pre x post := by
  have parts := seg_append.mp shows.seg
  have distinct := List.nodup_append.mp shows.distinct
  have rest := List.nodup_cons.mp distinct.2.1
  have shift : heap.Shows head ((pre ++ [x]) ++ post) := by rwa [List.append_assoc]
  have next := shift.load_endSlot
  rw [endSlot_append] at next
  exact ⟨parts.1, parts.2.2.1, next, parts.2.2.2,
    fun zero => shows.proper (zero ▸ List.mem_append_right pre List.mem_cons_self),
    fun member => distinct.2.2 x member x List.mem_cons_self rfl, rest.1,
    fun y inPre inPost => distinct.2.2 y inPre y (List.mem_cons_of_mem x inPost) rfl,
      distinct.1, rest.2⟩

/-- The elements before a place that is written. -/
theorem TailqHeap.Seg.before (seg : heap.Seg (.first head) pre) (distinct : pre.Nodup)
    (loads : forall other, other ≠ endSlot (.first head) pre ->
      (forall y, y ∉ pre -> other ≠ .next y) ->
      heap'.load other = heap.load other)
    (prevs : forall y, y ∈ pre -> heap'.tqePrev y = heap.tqePrev y) :
    heap'.Seg (.first head) pre := by
  refine seg.same (fun other member => loads other (fun same => ?_) (fun y outside same => ?_))
    prevs
  · exact endSlot_not_mem (first_ne_next head pre) distinct (same ▸ member)
  · rcases mem_slots member with isFirst | ⟨z, inPre, isZ⟩
    · rw [isFirst] at same
      cases same
    · rw [isZ] at same
      exact outside (Slot.next.inj same ▸ inPre)

/-- The elements behind a place that is written. -/
theorem TailqHeap.Seg.behind (seg : heap.Seg (.next x) post)
    (loads : forall y, y = x ∨ y ∈ post -> heap'.tqeNext y = heap.tqeNext y)
    (prevs : forall y, y ∈ post -> heap'.tqePrev y = heap.tqePrev y) :
    heap'.Seg (.next x) post := by
  refine seg.same (fun other member => ?_) prevs
  rcases mem_slots member with rfl | ⟨y, inPost, rfl⟩
  · exact loads x (Or.inl rfl)
  · exact loads y (Or.inr inPost)

/-! ## What may change -/

/-- A place of these heads and elements. -/
def Slot.Inside (heads elems : List Nat) : Slot -> Prop
  | .first head => head ∈ heads
  | .next x => x ∈ elems

theorem endSlot_inside {heads : List Nat} (isHead : head ∈ heads) (subset : pre ⊆ elems) :
    (endSlot (.first head) pre).Inside heads elems := by
  rcases endSlot_cases (.first head) pre with ⟨-, same⟩ | ⟨x, member, same⟩
  · rw [same]
    exact isHead
  · rw [same]
    exact subset member

section Changes

variable {heads : List Nat} {heap'' : TailqHeap}

theorem TailqHeap.Within.refl (heap : TailqHeap) (heads elems : List Nat) :
    heap.Within heap heads elems :=
  ⟨fun _ _ => rfl, fun _ _ => rfl, fun _ _ => rfl, fun _ _ => rfl⟩

theorem TailqHeap.Within.store (within : heap.Within heap' heads elems) (slot : Slot)
    (inside : slot.Inside heads elems) (elm : Nat) :
    heap.Within (heap'.store slot elm) heads elems := by
  cases slot with
  | first head =>
      refine ⟨fun other outside => ?_, within.last, within.next, within.prev⟩
      have different : other ≠ head := fun same => outside (same ▸ inside)
      exact (Function.update_of_ne different _ _).trans (within.first other outside)
  | next x =>
      refine ⟨within.first, within.last, fun y outside => ?_, within.prev⟩
      have different : y ≠ x := fun same => outside (same ▸ inside)
      exact (Function.update_of_ne different _ _).trans (within.next y outside)

theorem TailqHeap.Within.setPrev (within : heap.Within heap' heads elems) (inside : elm ∈ elems)
    (slot : Slot) :
    heap.Within (heap'.setPrev elm slot) heads elems := by
  refine ⟨within.first, within.last, within.next, fun x outside => ?_⟩
  have different : x ≠ elm := fun same => outside (same ▸ inside)
  exact (tqePrev_setPrev_of_ne heap' different slot).trans (within.prev x outside)

theorem TailqHeap.Within.setLast (within : heap.Within heap' heads elems) (inside : head ∈ heads)
    (slot : Slot) :
    heap.Within (heap'.setLast head slot) heads elems := by
  refine ⟨within.first, fun other outside => ?_, within.next, within.prev⟩
  have different : other ≠ head := fun same => outside (same ▸ inside)
  exact (tqhLast_setLast_of_ne heap' different slot).trans (within.last other outside)

end Changes

/-! ## One element comes in or goes out -/

/-- The element is linked between these. -/
structure TailqHeap.Splices (heap heap' : TailqHeap) (head : Nat) (pre : List Nat) (elm : Nat)
    (post : List Nat) :
    Prop where
  here : heap'.load (endSlot (.first head) pre) = elm
  next : heap'.load (.next elm) = post.headD 0
  loads : forall other, other ≠ endSlot (.first head) pre -> other ≠ .next elm ->
    heap'.load other = heap.load other
  prev : heap'.tqePrev elm = endSlot (.first head) pre
  prevNext : forall y, y ∈ post.head? -> heap'.tqePrev y = .next elm
  prevs : forall y, y ≠ elm -> y ∉ post.head? -> heap'.tqePrev y = heap.tqePrev y
  last : heap'.tqhLast head = if post = [] then .next elm else heap.tqhLast head

/-- The element between these is not linked any more. -/
structure TailqHeap.Unsplices (heap heap' : TailqHeap) (head : Nat) (pre : List Nat) (elm : Nat)
    (post : List Nat) :
    Prop where
  here : heap'.load (endSlot (.first head) pre) = post.headD 0
  loads : forall other, other ≠ endSlot (.first head) pre -> heap'.load other = heap.load other
  prevNext : forall y, y ∈ post.head? -> heap'.tqePrev y = endSlot (.first head) pre
  prevs : forall y, y ∉ post.head? -> heap'.tqePrev y = heap.tqePrev y
  last : heap'.tqhLast head = if post = [] then endSlot (.first head) pre else heap.tqhLast head

theorem not_mem_head? {y : Nat} {l : List Nat} (outside : y ∉ l) : y ∉ l.head? :=
  fun isHead => outside (List.mem_of_mem_head? isHead)

theorem TailqHeap.Shows.splice (shows : heap.Shows head (pre ++ post)) (nonzero : elm ≠ 0)
    (fresh : elm ∉ pre ++ post)
    (splices : heap.Splices heap' head pre elm post) : heap'.Shows head (pre ++ elm :: post) := by
  have notBefore : elm ∉ pre := fun member => fresh (List.mem_append_left post member)
  have notAfter : elm ∉ post := fun member => fresh (List.mem_append_right pre member)
  have parts := seg_append.mp shows.seg
  have distinct := List.nodup_append.mp shows.distinct
  have apart : forall y, y ∈ pre -> y ∉ post :=
    fun y inPre inPost => distinct.2.2 y inPre y inPost rfl
  have before : heap'.Seg (.first head) pre := parts.1.before distinct.1
    (fun other elsewhere outside => splices.loads other elsewhere (outside elm notBefore))
    (fun y inPre =>
      splices.prevs y (fun same => notBefore (same ▸ inPre)) (not_mem_head? (apart y inPre)))
  have distinct' : (pre ++ elm :: post).Nodup := by
    refine List.nodup_append.mpr ⟨distinct.1, List.nodup_cons.mpr ⟨notAfter, distinct.2.1⟩, ?_⟩
    rintro y inPre z inRest rfl
    rcases List.mem_cons.mp inRest with same | inPost
    · exact notBefore (same ▸ inPre)
    · exact apart y inPre inPost
  have proper : 0 ∉ pre ++ elm :: post := by
    rw [List.mem_append, List.mem_cons]
    rintro (inPre | zero | inPost)
    · exact shows.proper (List.mem_append_left post inPre)
    · exact nonzero zero.symm
    · exact shows.proper (List.mem_append_right pre inPost)
  cases post with
  | nil =>
      have behind : endSlot (.first head) (pre ++ [elm]) = .next elm := endSlot_append _ _ _
      exact ⟨seg_append.mpr ⟨before, splices.here, splices.prev,
          trivial⟩, by rw [splices.last, if_pos rfl, behind],
        by rw [behind, splices.next]; rfl, distinct', proper⟩
  | cons y ys =>
      have notY := (List.nodup_cons.mp distinct.2.1).1
      have untouched : forall z, z = y ∨ z ∈ ys -> heap'.tqeNext z = heap.tqeNext z := by
        intro z member
        have inPost : z ∈ y :: ys := List.mem_cons.mpr member
        refine splices.loads (.next z) (next_ne_endSlot (fun inPre => apart z inPre inPost) head)
          (fun same => ?_)
        exact notAfter (Slot.next.inj same ▸ inPost)
      have after : heap'.Seg (.next y) ys := parts.2.2.2.behind untouched (fun z inYs =>
        splices.prevs z (fun same => notAfter (same ▸ List.mem_cons_of_mem y inYs))
          (fun isHead => notY (Option.some.inj isHead ▸ inYs)))
      have behind : endSlot (.first head) (pre ++ elm :: y :: ys) =
          endSlot (.first head) (pre ++ y :: ys) := by
        rw [endSlot_append, endSlot_append]
        rfl
      have isInside : Exists fun z =>
          z ∈ y :: ys ∧ endSlot (.first head) (pre ++ y :: ys) = .next z := by
        rw [endSlot_append]
        rcases endSlot_cases (.next y) ys with ⟨-, same⟩ | ⟨z, member, same⟩
        · exact ⟨y, List.mem_cons_self, same⟩
        · exact ⟨z, List.mem_cons_of_mem y member, same⟩
      rcases isInside with ⟨z, inPost, isZ⟩
      refine ⟨seg_append.mpr ⟨before, splices.here, splices.prev, splices.next,
          splices.prevNext y rfl, after⟩, ?_, ?_,
        distinct', proper⟩
      · rw [splices.last, if_neg (List.cons_ne_nil y ys), behind]
        exact shows.last
      · rw [behind, isZ]
        have ends := shows.ends
        rw [isZ] at ends
        exact (untouched z (List.mem_cons.mp inPost)).trans ends

theorem TailqHeap.Shows.unsplice (shows : heap.Shows head (pre ++ elm :: post))
    (unsplices : heap.Unsplices heap' head pre elm post) : heap'.Shows head (pre ++ post) := by
  have around := shows.around
  have before : heap'.Seg (.first head) pre := around.before.before around.distinctBefore
    (fun other elsewhere _ => unsplices.loads other elsewhere)
    (fun y inPre => unsplices.prevs y (not_mem_head? (around.apart y inPre)))
  have distinct' : (pre ++ post).Nodup :=
    List.nodup_append.mpr ⟨around.distinctBefore, around.distinctAfter,
    fun y inPre z inPost same => around.apart y inPre (same ▸ inPost)⟩
  have proper : 0 ∉ pre ++ post := by
    rw [List.mem_append]
    rintro (inPre | inPost)
    · exact shows.proper (List.mem_append_left _ inPre)
    · exact shows.proper (List.mem_append_right pre (List.mem_cons_of_mem elm inPost))
  cases post with
  | nil =>
      rw [List.append_nil] at distinct' proper ⊢
      exact ⟨before, by rw [unsplices.last, if_pos rfl], unsplices.here, distinct', proper⟩
  | cons y ys =>
      have notY := (List.nodup_cons.mp around.distinctAfter).1
      have untouched : forall z, z = y ∨ z ∈ ys -> heap'.tqeNext z = heap.tqeNext z :=
        fun z member =>
        unsplices.loads (.next z)
          (next_ne_endSlot (fun inPre => around.apart z inPre (List.mem_cons.mpr member)) head)
      have after : heap'.Seg (.next y) ys := around.after.2.2.behind untouched (fun z inYs =>
        unsplices.prevs z (fun isHead => notY (Option.some.inj isHead ▸ inYs)))
      have behind : endSlot (.first head) (pre ++ elm :: y :: ys) =
          endSlot (.first head) (pre ++ y :: ys) := by
        rw [endSlot_append, endSlot_append]
        rfl
      have isInside : Exists fun z =>
          (z = y ∨ z ∈ ys) ∧ endSlot (.first head) (pre ++ y :: ys) = .next z := by
        rw [endSlot_append]
        rcases endSlot_cases (.next y) ys with ⟨-, same⟩ | ⟨z, member, same⟩
        · exact ⟨y, Or.inl rfl, same⟩
        · exact ⟨z, Or.inr member, same⟩
      rcases isInside with ⟨z, member, isZ⟩
      refine ⟨seg_append.mpr ⟨before, unsplices.here, unsplices.prevNext y rfl, after⟩, ?_, ?_,
        distinct', proper⟩
      · rw [unsplices.last, if_neg (List.cons_ne_nil y ys), ← behind]
        exact shows.last
      · have ends := shows.ends
        rw [behind, isZ] at ends
        rw [isZ]
        exact (untouched z member).trans ends

/-! ## The macros -/

theorem shows_tailqInit (heap : TailqHeap) (head : Nat) : (heap.tailqInit head).Shows head [] :=
  ⟨trivial, tqhLast_setLast_self _ head _,
    (load_setLast _ head _ _).trans (load_store_self heap _ 0), List.nodup_nil,
    List.not_mem_nil⟩

theorem within_tailqInit (heap : TailqHeap) (head : Nat) :
    heap.Within (heap.tailqInit head) [head] [] :=
  ((Within.refl heap _ _).store (.first head) List.mem_cons_self 0).setLast List.mem_cons_self _

theorem noHead {property : Nat -> Prop} (y : Nat)
    (isHead : y ∈ ([] : List Nat).head?) : property y :=
  absurd (List.mem_of_mem_head? isHead) List.not_mem_nil

theorem ne_of_mem_head? {y : Nat} {l : List Nat} (fresh : elm ∉ l)
    (isHead : y ∈ l.head?) : y ≠ elm :=
  fun same => fresh (same ▸ List.mem_of_mem_head? isHead)

/-- Link an element in at a place, as `TAILQ_INSERT_HEAD` and `TAILQ_INSERT_AFTER` do. -/
theorem TailqHeap.Shows.splices (shows : heap.Shows head (pre ++ post))
    (fresh : elm ∉ pre ++ post) :
    heap.Splices
      ((((if post = [] then (heap.store (.next elm) (post.headD 0)).setLast head (.next elm)
      else (heap.store (.next elm) (post.headD 0)).setPrev (post.headD 0) (.next elm))).store
        (endSlot (.first head) pre) elm).setPrev elm (endSlot (.first head) pre)) head pre elm
          post := by
  have notBefore : elm ∉ pre := fun member => fresh (List.mem_append_left post member)
  have notAfter : elm ∉ post := fun member => fresh (List.mem_append_right pre member)
  have apart := next_ne_endSlot notBefore head
  cases post with
  | nil =>
      simp only [if_true]
      refine ⟨by simp, ?_, fun other notHere notElm => ?_, by simp, noHead,
        fun y different _ => ?_, by simp⟩
      · rw [load_setPrev, load_store_of_ne _ apart, load_setLast, load_store_self]
      · rw [load_setPrev, load_store_of_ne _ notHere, load_setLast, load_store_of_ne _ notElm]
      · rw [tqePrev_setPrev_of_ne _ different, tqePrev_store, tqePrev_setLast, tqePrev_store]
  | cons y ys =>
      simp only [if_neg (List.cons_ne_nil y ys), List.headD_cons]
      refine ⟨by
        simp, ?_, fun other notHere notElm => ?_, by
          simp, fun z isHead => ?_, fun z different notHead => ?_,
        by simp⟩
      · rw [load_setPrev, load_store_of_ne _ apart, load_setPrev, load_store_self]
        rfl
      · rw [load_setPrev, load_store_of_ne _ notHere, load_setPrev, load_store_of_ne _ notElm]
      · have different := ne_of_mem_head? notAfter isHead
        cases isHead
        rw [tqePrev_setPrev_of_ne _ different, tqePrev_store, tqePrev_setPrev_self]
      · have notY : z ≠ y := fun same => notHead (same ▸ rfl)
        rw [tqePrev_setPrev_of_ne _ different, tqePrev_store, tqePrev_setPrev_of_ne _ notY,
          tqePrev_store]

theorem shows_tailqInsertHead (shows : heap.Shows head elems) (nonzero : elm ≠ 0)
    (fresh : elm ∉ elems) :
    (heap.tailqInsertHead head elm).Shows head (elm :: elems) := by
  have first : heap.tqhFirst head = elems.headD 0 :=
    TailqHeap.Shows.load_endSlot (show heap.Shows head ([] ++ elems) from shows)
  have written : heap.tailqInsertHead head elm =
      (((if elems = [] then (heap.store (.next elm) (elems.headD 0)).setLast head (.next elm)
        else (heap.store (.next elm) (elems.headD 0)).setPrev (elems.headD 0) (.next elm))).store
          (.first head) elm).setPrev elm (.first head) := by
    cases elems with
    | nil =>
        have null : heap.tqhFirst head = 0 := first
        rw [tailqInsertHead, null, if_neg (fun impossible => impossible rfl), if_pos rfl]
        rfl
    | cons y ys =>
        have isY : heap.tqhFirst head = y := first
        have nonzeroY : y ≠ 0 := fun zero => shows.proper (zero ▸ List.mem_cons_self)
        rw [tailqInsertHead, isY, if_pos nonzeroY, if_neg (List.cons_ne_nil y ys)]
        rfl
  rw [written]
  exact shows.splice nonzero fresh
    (TailqHeap.Shows.splices (show heap.Shows head ([] ++ elems) from shows) fresh)

theorem shows_tailqInsertTail (shows : heap.Shows head elems) (nonzero : elm ≠ 0)
    (fresh : elm ∉ elems) :
    (heap.tailqInsertTail head elm).Shows head (elems ++ [elm]) := by
  have whole : heap.Shows head (elems ++ []) := by rwa [List.append_nil]
  have written : heap.tailqInsertTail head elm =
      (((heap.store (.next elm) 0).setPrev elm (endSlot (.first head) elems)).store
        (endSlot (.first head) elems)
        elm).setLast head (.next elm) := by
    simp only [tailqInsertTail, tqhLast_setPrev, tqhLast_store, shows.last]
  have apart := next_ne_endSlot fresh head
  rw [written]
  refine whole.splice nonzero (by rwa [List.append_nil])
    ⟨by simp, ?_, fun other notHere notElm => ?_, by simp,
    noHead, fun y different _ => ?_, by simp⟩
  · rw [load_setLast, load_store_of_ne _ apart, load_setPrev, load_store_self]
    rfl
  · rw [load_setLast, load_store_of_ne _ notHere, load_setPrev, load_store_of_ne _ notElm]
  · rw [tqePrev_setLast, tqePrev_store, tqePrev_setPrev_of_ne _ different, tqePrev_store]

theorem shows_tailqInsertAfter (shows : heap.Shows head (pre ++ x :: post)) (nonzero : elm ≠ 0)
    (fresh : elm ∉ pre ++ x :: post) :
    (heap.tailqInsertAfter head x elm).Shows head (pre ++ x :: elm :: post) := by
  have around := shows.around
  have here : endSlot (.first head) (pre ++ [x]) = .next x := endSlot_append _ _ _
  have split : heap.Shows head ((pre ++ [x]) ++ post) := by rwa [List.append_assoc]
  have outside : elm ∉ (pre ++ [x]) ++ post := by rwa [List.append_assoc]
  have written : heap.tailqInsertAfter head x elm =
      (((if post = [] then (heap.store (.next elm) (post.headD 0)).setLast head (.next elm)
        else (heap.store (.next elm) (post.headD 0)).setPrev (post.headD 0) (.next elm))).store
          (.next x) elm).setPrev elm (.next x) := by
    cases post with
    | nil =>
        have null : heap.tqeNext x = 0 := around.next
        rw [tailqInsertAfter, null, if_neg (fun impossible => impossible rfl), if_pos rfl]
        rfl
    | cons y ys =>
        have isY : heap.tqeNext x = y := around.next
        have nonzeroY : y ≠ 0 :=
          fun zero => split.proper (zero ▸ List.mem_append_right _ List.mem_cons_self)
        rw [tailqInsertAfter, isY, if_pos nonzeroY, if_neg (List.cons_ne_nil y ys)]
        rfl
  have spliced := split.splices outside
  rw [here, ← written] at spliced
  have result := split.splice nonzero outside spliced
  rwa [List.append_assoc] at result

theorem shows_tailqInsertBefore (shows : heap.Shows head (pre ++ x :: post)) (nonzero : elm ≠ 0)
    (fresh : elm ∉ pre ++ x :: post) :
    (heap.tailqInsertBefore x elm).Shows head (pre ++ elm :: x :: post) := by
  have around := shows.around
  have notBefore : elm ∉ pre := fun member => fresh (List.mem_append_left _ member)
  have notElm : x ≠ elm := fun same => fresh (same ▸ List.mem_append_right pre List.mem_cons_self)
  have apart := next_ne_endSlot notBefore head
  have written : heap.tailqInsertBefore x elm =
      (((heap.setPrev elm (endSlot (.first head) pre)).store (.next elm) x).store
        (endSlot (.first head) pre)
        elm).setPrev x (.next elm) := by
    simp only [tailqInsertBefore, tqePrev_store, tqePrev_setPrev_of_ne _ notElm, around.prev]
  rw [written]
  refine shows.splice nonzero fresh
    ⟨by simp, ?_, fun other notHere notNext => ?_, ?_, fun y isHead => ?_,
    fun y different notHead => ?_, ?_⟩
  · rw [load_setPrev, load_store_of_ne _ apart, load_store_self]
    rfl
  · rw [load_setPrev, load_store_of_ne _ notHere, load_store_of_ne _ notNext, load_setPrev]
  · rw [tqePrev_setPrev_of_ne _ notElm.symm, tqePrev_store, tqePrev_store, tqePrev_setPrev_self]
  · cases isHead
    exact tqePrev_setPrev_self _ x _
  · have notX : y ≠ x := fun same => notHead (same ▸ rfl)
    rw [tqePrev_setPrev_of_ne _ notX, tqePrev_store, tqePrev_store,
      tqePrev_setPrev_of_ne _ different]
  · rw [if_neg (List.cons_ne_nil x post), tqhLast_setPrev, tqhLast_store, tqhLast_store,
      tqhLast_setPrev]

theorem unsplices_tailqRemove (shows : heap.Shows head (pre ++ elm :: post)) :
    heap.Unsplices (heap.tailqRemove head elm) head pre elm post := by
  have around := shows.around
  cases post with
  | nil =>
      have next : heap.tqeNext elm = 0 := around.next
      have written : heap.tailqRemove head elm =
          (heap.setLast head (endSlot (.first head) pre)).store (endSlot (.first head) pre) 0 := by
        rw [tailqRemove, next, if_neg (fun impossible => impossible rfl)]
        change (heap.setLast head (heap.tqePrev elm)).store (heap.tqePrev elm)
          (heap.tqeNext elm) = _
        rw [around.prev, next]
      rw [written]
      refine ⟨by simp, fun other notHere => ?_, noHead, fun y _ => by simp, by simp⟩
      rw [load_store_of_ne _ notHere, load_setLast]
  | cons y ys =>
      have next : heap.tqeNext elm = y := around.next
      have nonzeroY : y ≠ 0 := fun zero =>
        shows.proper (zero ▸ List.mem_append_right pre
          (List.mem_cons_of_mem elm List.mem_cons_self))
      have notY : elm ≠ y := fun same => around.notAfter (same ▸ List.mem_cons_self)
      have written : heap.tailqRemove head elm =
          (heap.setPrev y (endSlot (.first head) pre)).store (endSlot (.first head) pre) y := by
        rw [tailqRemove, next, if_pos nonzeroY]
        change (heap.setPrev y (heap.tqePrev elm)).store
          ((heap.setPrev y (heap.tqePrev elm)).tqePrev elm)
          (heap.tqeNext elm) = _
        rw [tqePrev_setPrev_of_ne _ notY, around.prev, next]
      rw [written]
      refine ⟨by simp, fun other notHere => ?_, fun z isHead => ?_, fun z notHead => ?_, by simp⟩
      · rw [load_store_of_ne _ notHere, load_setPrev]
      · cases isHead
        rw [tqePrev_store, tqePrev_setPrev_self]
      · have different : z ≠ y := fun same => notHead (same ▸ rfl)
        rw [tqePrev_store, tqePrev_setPrev_of_ne _ different]

theorem shows_tailqRemove (shows : heap.Shows head (pre ++ elm :: post)) :
    (heap.tailqRemove head elm).Shows head (pre ++ post) :=
  shows.unsplice (unsplices_tailqRemove shows)

/-- A replacement is a removal, and an insertion in the same place. -/
theorem shows_tailqReplace {elm2 : Nat} (shows : heap.Shows head (pre ++ elm :: post))
    (nonzero : elm2 ≠ 0)
    (fresh : elm2 ∉ pre ++ elm :: post) :
    (heap.tailqReplace head elm elm2).Shows head (pre ++ elm2 :: post) := by
  have around := shows.around
  have removed := unsplices_tailqRemove shows
  have outside : elm2 ∉ pre ++ post := fun member => fresh (by
    rcases List.mem_append.mp member with inPre | inPost
    · exact List.mem_append_left _ inPre
    · exact List.mem_append_right pre (List.mem_cons_of_mem elm inPost))
  have notElm : elm ≠ elm2 :=
    fun same => fresh (same ▸ List.mem_append_right pre List.mem_cons_self)
  have apart := next_ne_endSlot (fun member => outside (List.mem_append_left post member)) head
  refine (shows.unsplice removed).splice nonzero outside ?_
  cases post with
  | nil =>
      have next : heap.tqeNext elm = 0 := around.next
      have written : heap.tailqReplace head elm elm2 =
          (((heap.store (.next elm2) 0).setLast head (.next elm2)).setPrev elm2
            (endSlot (.first head) pre)).store
            (endSlot (.first head) pre) elm2 := by
        rw [tailqReplace, next]
        simp only [ne_eq, not_true_eq_false, if_false, tqePrev_setPrev_self, tqePrev_setLast,
          tqePrev_store, around.prev]
      rw [written]
      refine ⟨by simp, ?_, fun other notHere notNext => ?_, by simp, noHead,
        fun y different notHead => ?_, by simp⟩
      · rw [load_store_of_ne _ apart, load_setPrev, load_setLast, load_store_self]
        rfl
      · rw [removed.loads other notHere, load_store_of_ne _ notHere, load_setPrev, load_setLast,
          load_store_of_ne _ notNext]
      · rw [removed.prevs y notHead, tqePrev_store, tqePrev_setPrev_of_ne _ different,
          tqePrev_setLast, tqePrev_store]
  | cons y ys =>
      have next : heap.tqeNext elm = y := around.next
      have nonzeroY : y ≠ 0 := fun zero =>
        shows.proper (zero ▸ List.mem_append_right pre
          (List.mem_cons_of_mem elm List.mem_cons_self))
      have notY : elm ≠ y := fun same => around.notAfter (same ▸ List.mem_cons_self)
      have newY : y ≠ elm2 :=
        fun same => outside (same ▸ List.mem_append_right pre List.mem_cons_self)
      have written : heap.tailqReplace head elm elm2 =
          (((heap.store (.next elm2) y).setPrev y (.next elm2)).setPrev elm2
            (endSlot (.first head) pre)).store
            (endSlot (.first head) pre) elm2 := by
        rw [tailqReplace, next]
        simp only [if_pos nonzeroY, tqePrev_setPrev_self, tqePrev_setPrev_of_ne _ notY,
          tqePrev_store, around.prev]
      rw [written]
      refine ⟨by simp, ?_, fun other notHere notNext => ?_, by simp, fun z isHead => ?_,
        fun z different notHead => ?_, ?_⟩
      · rw [load_store_of_ne _ apart, load_setPrev, load_setPrev, load_store_self]
        rfl
      · rw [removed.loads other notHere, load_store_of_ne _ notHere, load_setPrev, load_setPrev,
          load_store_of_ne _ notNext]
      · cases isHead
        rw [tqePrev_store, tqePrev_setPrev_of_ne _ newY, tqePrev_setPrev_self]
      · have notHeadY : z ≠ y := fun same => notHead (same ▸ rfl)
        rw [removed.prevs z notHead, tqePrev_store, tqePrev_setPrev_of_ne _ different,
          tqePrev_setPrev_of_ne _ notHeadY, tqePrev_store]
      · have last := removed.last
        rw [if_neg (List.cons_ne_nil y ys)] at last ⊢
        rw [last, tqhLast_store, tqhLast_setPrev, tqhLast_setPrev, tqhLast_store]

theorem TailqHeap.Shows.first (shows : heap.Shows head elems) :
    heap.tailqFirst head = elems.headD 0 :=
  TailqHeap.Shows.load_endSlot (show heap.Shows head ([] ++ elems) from shows)

theorem TailqHeap.Shows.empty (shows : heap.Shows head elems) :
    heap.tailqEmpty head = elems.isEmpty := by
  rw [tailqEmpty, shows.first]
  cases elems with
  | nil => rfl
  | cons y ys =>
      have nonzero : y ≠ 0 := fun zero => shows.proper (zero ▸ List.mem_cons_self)
      exact decide_eq_false nonzero

/-- What the casts of `TAILQ_LAST` and `TAILQ_PREV` find before a place. -/
theorem TailqHeap.Shows.load_behind (shows : heap.Shows head (pre ++ post)) :
    heap.load (heap.behind (endSlot (.first head) pre)) = pre.getLastD 0 := by
  rcases pre.eq_nil_or_concat with rfl | ⟨before, p, rfl⟩
  · change heap.load (heap.tqhLast head) = 0
    rw [shows.last]
    exact shows.ends
  · rw [List.concat_eq_append, List.append_assoc] at shows
    have split := shows.around
    have here := shows.load_endSlot
    rw [List.concat_eq_append, endSlot_append]
    change heap.load (heap.tqePrev p) = _
    rw [split.prev, here]
    simp

theorem TailqHeap.Shows.tailqLast (shows : heap.Shows head elems) :
    heap.tailqLast head = elems.getLastD 0 := by
  have whole : heap.Shows head (elems ++ []) := by rwa [List.append_nil]
  rw [TailqHeap.tailqLast, shows.last]
  exact whole.load_behind

theorem TailqHeap.Shows.tailqPrev (shows : heap.Shows head (pre ++ x :: post)) :
    heap.tailqPrev x = pre.getLastD 0 := by
  rw [TailqHeap.tailqPrev, shows.around.prev]
  exact shows.load_behind

/-- A queue is appended to another one. -/
theorem shows_tailqConcat {head2 : Nat} (shows : heap.Shows head xs) (shows2 : heap.Shows head2 ys)
    (different : head ≠ head2) (apart : forall x, x ∈ xs -> x ∉ ys) :
    (heap.tailqConcat head head2).Shows head (xs ++ ys) ∧
      (heap.tailqConcat head head2).Shows head2 [] ∧
      heap.Within (heap.tailqConcat head head2) [head, head2] (xs ++ ys) := by
  cases ys with
  | nil =>
      have unchanged : heap.tailqConcat head head2 = heap := by
        rw [tailqConcat, shows2.empty]
        rfl
      rw [unchanged, List.append_nil]
      exact ⟨shows, shows2, Within.refl heap _ _⟩
  | cons y ys =>
      have isLast := shows.last
      have first : heap.tqhFirst head2 = y := shows2.seg.1
      have last2 : heap.tqhLast head2 = endSlot (.next y) ys := shows2.last
      have notFirst : Slot.first head2 ≠ endSlot (.first head) xs := by
        rcases endSlot_cases (.first head) xs with ⟨-, same⟩ | ⟨x, -, same⟩
        · rw [same]
          exact fun equal => different (Slot.first.inj equal).symm
        · rw [same]
          simp
      have isY : (heap.store (endSlot (.first head) xs) y).tqhFirst head2 = y :=
        (load_store_of_ne heap notFirst y).trans first
      let linked :=
        ((heap.store (endSlot (.first head) xs) y).setPrev y (endSlot (.first head) xs)).setLast
          head
        (endSlot (.next y) ys)
      have written : heap.tailqConcat head head2 = linked.tailqInit head2 := by
        have notEmpty : heap.tailqEmpty head2 = false := shows2.empty
        rw [tailqConcat, notEmpty]
        simp only [Bool.false_eq_true, if_false, isLast, first, isY, tqhLast_store, tqhLast_setPrev,
          last2, linked]
      have loads : forall other, other ≠ endSlot (.first head) xs -> other ≠ .first head2 ->
          (linked.tailqInit head2).load other = heap.load other := by
        intro other notHere notHead
        rw [tailqInit, load_setLast, load_store_of_ne _ notHead, load_setLast, load_setPrev,
          load_store_of_ne _ notHere]
      have prevs : forall z, z ≠ y -> (linked.tailqInit head2).tqePrev z = heap.tqePrev z := by
        intro z notY
        rw [tailqInit, tqePrev_setLast, tqePrev_store, tqePrev_setLast,
          tqePrev_setPrev_of_ne _ notY, tqePrev_store]
      have untouched : forall z, z = y ∨ z ∈ ys ->
          (linked.tailqInit head2).tqeNext z = heap.tqeNext z := fun z member =>
        loads (.next z) (next_ne_endSlot (fun inXs => apart z inXs (List.mem_cons.mpr member)) head)
          (by simp)
      have notYs := List.nodup_cons.mp shows2.distinct
      have before : (linked.tailqInit head2).Seg (.first head) xs := by
        refine shows.seg.same (fun other member => loads other (fun same => ?_) (fun same => ?_))
          (fun z inXs => prevs z (fun same => apart z inXs (same ▸ List.mem_cons_self)))
        · exact endSlot_not_mem (first_ne_next head xs) shows.distinct (same ▸ member)
        · rcases mem_slots member with isFirst | ⟨z, -, isNext⟩
          · exact different (Slot.first.inj (isFirst.symm.trans same))
          · rw [isNext] at same
            cases same
      have after : (linked.tailqInit head2).Seg (.next y) ys := shows2.seg.2.2.behind untouched
        (fun z inYs => prevs z (fun same => notYs.1 (same ▸ inYs)))
      have here : (linked.tailqInit head2).load (endSlot (.first head) xs) = y := by
        rw [tailqInit, load_setLast, load_store_of_ne _ notFirst.symm, load_setLast, load_setPrev,
          load_store_self]
      have back : (linked.tailqInit head2).tqePrev y = endSlot (.first head) xs := by
        rw [tailqInit, tqePrev_setLast, tqePrev_store, tqePrev_setLast, tqePrev_setPrev_self]
      have behind : endSlot (.first head) (xs ++ y :: ys) = endSlot (.next y) ys :=
        endSlot_append _ _ _
      have isInside : Exists fun z => (z = y ∨ z ∈ ys) ∧ endSlot (.next y) ys = .next z := by
        rcases endSlot_cases (.next y) ys with ⟨-, same⟩ | ⟨z, member, same⟩
        · exact ⟨y, Or.inl rfl, same⟩
        · exact ⟨z, Or.inr member, same⟩
      rw [written]
      refine ⟨⟨seg_append.mpr ⟨before, here, back, after⟩, ?_, ?_, ?_, ?_⟩,
        shows_tailqInit linked head2, ?_⟩
      · rw [behind, tailqInit, tqhLast_setLast_of_ne _ different, tqhLast_store]
        exact tqhLast_setLast_self _ head _
      · rcases isInside with ⟨z, member, isZ⟩
        have ends := shows2.ends
        change heap.load (endSlot (.next y) ys) = 0 at ends
        rw [behind, isZ]
        rw [isZ] at ends
        exact (untouched z member).trans ends
      · exact List.nodup_append.mpr ⟨shows.distinct, shows2.distinct, fun z inXs w inYs same =>
          apart z inXs (same ▸ inYs)⟩
      · exact fun zero => (List.mem_append.mp zero).elim shows.proper shows2.proper
      · have inside : y ∈ xs ++ y :: ys := List.mem_append_right xs List.mem_cons_self
        exact (((((Within.refl heap _ _).store
          _ (endSlot_inside List.mem_cons_self (List.subset_append_left _ _)) y).setPrev
          inside _).setLast List.mem_cons_self _).store (.first head2)
            (List.mem_cons_of_mem head List.mem_cons_self) 0).setLast
            (List.mem_cons_of_mem head List.mem_cons_self) _

/-- An element before or after the place that changes is linked already. -/
theorem TailqHeap.Shows.prev_inside (shows : heap.Shows head (pre ++ x :: post))
    (subset : pre ⊆ elems) :
    (heap.tqePrev x).Inside [head] elems := by
  rw [shows.around.prev]
  exact endSlot_inside List.mem_cons_self subset

theorem headD_inside {l : List Nat} (subset : l ⊆ elems) (nonzero : l.headD 0 ≠ 0) :
    l.headD 0 ∈ elems := by
  cases l with
  | nil => exact absurd rfl nonzero
  | cons y ys => exact subset List.mem_cons_self

/-- One of two changes. -/
theorem TailqHeap.Within.ite {condition : Prop} [Decidable condition] {heads : List Nat}
    {heap'' : TailqHeap}
    (first : condition -> heap.Within heap' heads elems)
    (second : ¬ condition -> heap.Within heap'' heads elems) :
    heap.Within (if condition then heap' else heap'') heads elems := by
  by_cases holds : condition
  · rw [if_pos holds]
    exact first holds
  · rw [if_neg holds]
    exact second holds

theorem within_tailqInsertHead (shows : heap.Shows head elems) (elm : Nat) :
    heap.Within (heap.tailqInsertHead head elm) [head] (elm :: elems) := by
  have start :=
    (Within.refl heap [head] (elm :: elems)).store (.next elm) List.mem_cons_self
    (heap.tqhFirst head)
  have first := shows.first
  rw [TailqHeap.tailqFirst] at first
  refine ((Within.ite (fun nonzero => ?_) (fun _ => ?_)).store (.first head) List.mem_cons_self
    elm).setPrev
    List.mem_cons_self _
  · refine start.setPrev ?_ _
    rw [first] at nonzero ⊢
    exact headD_inside (List.subset_cons_self elm elems) nonzero
  · exact start.setLast List.mem_cons_self _

theorem within_tailqInsertTail (shows : heap.Shows head elems) (elm : Nat) :
    heap.Within (heap.tailqInsertTail head elm) [head] (elm :: elems) := by
  refine ((((Within.refl heap [head] (elm :: elems)).store (.next elm) List.mem_cons_self 0).setPrev
    List.mem_cons_self _).store _ ?_ elm).setLast List.mem_cons_self _
  rw [tqhLast_setPrev, tqhLast_store, shows.last]
  exact endSlot_inside List.mem_cons_self (List.subset_cons_self elm elems)

theorem within_tailqInsertAfter (shows : heap.Shows head (pre ++ x :: post)) (elm : Nat) :
    heap.Within (heap.tailqInsertAfter head x elm) [head] (elm :: (pre ++ x :: post)) := by
  have start :=
    (Within.refl heap [head] (elm :: (pre ++ x :: post))).store (.next elm) List.mem_cons_self
    (heap.tqeNext x)
  have next := shows.around.next
  have isX : x ∈ elm :: (pre ++ x :: post) :=
    List.mem_cons_of_mem elm (List.mem_append_right pre List.mem_cons_self)
  refine ((Within.ite (fun nonzero => ?_) (fun _ => ?_)).store (.next x) isX elm).setPrev
    List.mem_cons_self _
  · refine start.setPrev ?_ _
    rw [next] at nonzero ⊢
    refine headD_inside (fun y member => ?_) nonzero
    exact List.mem_cons_of_mem elm (List.mem_append_right pre (List.mem_cons_of_mem x member))
  · exact start.setLast List.mem_cons_self _

theorem within_tailqInsertBefore (shows : heap.Shows head (pre ++ x :: post)) (notElm : x ≠ elm) :
    heap.Within (heap.tailqInsertBefore x elm) [head] (elm :: (pre ++ x :: post)) := by
  have isX : x ∈ elm :: (pre ++ x :: post) :=
    List.mem_cons_of_mem elm (List.mem_append_right pre List.mem_cons_self)
  refine ((((Within.refl heap [head] (elm :: (pre ++ x :: post))).setPrev List.mem_cons_self
    _).store (.next elm)
    List.mem_cons_self x).store _ ?_ elm).setPrev isX _
  rw [tqePrev_store, tqePrev_setPrev_of_ne _ notElm]
  exact shows.prev_inside (fun y member => List.mem_cons_of_mem elm (List.mem_append_left _ member))

theorem within_tailqRemove (shows : heap.Shows head (pre ++ elm :: post)) :
    heap.Within (heap.tailqRemove head elm) [head] (pre ++ elm :: post) := by
  have around := shows.around
  have inside := shows.prev_inside (List.subset_append_left pre (elm :: post))
  rw [tailqRemove]
  have kept : (if heap.tqeNext elm ≠ 0 then heap.setPrev (heap.tqeNext elm) (heap.tqePrev elm)
      else heap.setLast head (heap.tqePrev elm)).tqePrev elm = heap.tqePrev elm := by
    by_cases nonzero : heap.tqeNext elm ≠ 0
    · rw [if_pos nonzero]
      refine tqePrev_setPrev_of_ne heap (fun same => around.notAfter ?_) _
      rw [around.next] at same nonzero
      exact same ▸ headD_inside (List.Subset.refl post) nonzero
    · rw [if_neg nonzero, tqePrev_setLast]
  rw [kept]
  refine (Within.ite (fun nonzero => ?_) (fun _ => ?_)).store _ inside _
  · refine (Within.refl heap _ _).setPrev ?_ _
    rw [around.next] at nonzero ⊢
    exact headD_inside (fun y member => List.mem_append_right pre (List.mem_cons_of_mem elm member))
      nonzero
  · exact (Within.refl heap _ _).setLast List.mem_cons_self _

theorem within_tailqReplace (shows : heap.Shows head (pre ++ elm :: post)) (elm2 : Nat) :
    heap.Within (heap.tailqReplace head elm elm2) [head] (elm2 :: (pre ++ elm :: post)) := by
  have around := shows.around
  have start :=
    (Within.refl heap [head] (elm2 :: (pre ++ elm :: post))).store (.next elm2) List.mem_cons_self
    (heap.tqeNext elm)
  have subset : pre ⊆ elm2 :: (pre ++ elm :: post) := fun y member =>
    List.mem_cons_of_mem elm2 (List.mem_append_left _ member)
  have inside := shows.prev_inside subset
  rw [tailqReplace]
  simp only [tqePrev_setPrev_self]
  have kept : (if heap.tqeNext elm ≠ 0 then (heap.store (.next elm2) (heap.tqeNext elm)).setPrev
      (heap.tqeNext elm)
      (.next elm2) else (heap.store (.next elm2) (heap.tqeNext elm)).setLast head
          (.next elm2)).tqePrev elm = heap.tqePrev elm := by
    by_cases nonzero : heap.tqeNext elm ≠ 0
    · rw [if_pos nonzero]
      refine (tqePrev_setPrev_of_ne _ (fun same => around.notAfter ?_) _).trans
        (congrFun (tqePrev_store heap _ _) elm)
      rw [around.next] at same nonzero
      exact same ▸ headD_inside (List.Subset.refl post) nonzero
    · rw [if_neg nonzero, tqePrev_setLast, tqePrev_store]
  rw [kept]
  refine ((Within.ite (fun nonzero => ?_) (fun _ => ?_)).setPrev List.mem_cons_self _).store
    _ inside elm2
  · refine start.setPrev ?_ _
    rw [around.next] at nonzero ⊢
    refine headD_inside (fun y member => ?_) nonzero
    exact List.mem_cons_of_mem elm2 (List.mem_append_right pre (List.mem_cons_of_mem elm member))
  · exact start.setLast List.mem_cons_self _

end Segments

end Utils
end OsslScripts
