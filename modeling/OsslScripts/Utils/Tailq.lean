import Mathlib.Logic.Function.Basic
import Mathlib.Data.List.Basic
import Mathlib.Data.List.GetD

namespace OsslScripts
namespace Utils

/-!
# Tail queues

The `TAILQ` macros of `utils/queue.h`.  An element points to the next one, and to the
place that points to it, which is in the element before or in the head.  The head has
the place behind the last element.  Elements and heads are addresses, and 0 is null.
-/

/-- A place for a pointer to an element: `tqh_first` of a head, `tqe_next` of an element. -/
inductive Slot where
  | first (head : Nat)
  | next (elm : Nat)
deriving DecidableEq

/-- `TAILQ_HEAD` and `TAILQ_ENTRY` by address. -/
structure TailqHeap where
  tqhFirst : Nat -> Nat
  tqhLast : Nat -> Slot
  tqeNext : Nat -> Nat
  tqePrev : Nat -> Slot

namespace TailqHeap

/-- `*slot` -/
def load (heap : TailqHeap) : Slot -> Nat
  | .first head => heap.tqhFirst head
  | .next elm => heap.tqeNext elm

/-- `*slot = elm` -/
def store (heap : TailqHeap) (slot : Slot) (elm : Nat) : TailqHeap :=
  match slot with
  | .first head => { heap with tqhFirst := Function.update heap.tqhFirst head elm }
  | .next x => { heap with tqeNext := Function.update heap.tqeNext x elm }

/-- The member behind the pointer.  `TAILQ_LAST` and `TAILQ_PREV` read it from a head and
from an element alike, by a cast. -/
def behind (heap : TailqHeap) : Slot -> Slot
  | .first head => heap.tqhLast head
  | .next elm => heap.tqePrev elm

def setLast (heap : TailqHeap) (head : Nat) (slot : Slot) : TailqHeap :=
  { heap with tqhLast := Function.update heap.tqhLast head slot }

def setPrev (heap : TailqHeap) (elm : Nat) (slot : Slot) : TailqHeap :=
  { heap with tqePrev := Function.update heap.tqePrev elm slot }

/-! ## Access -/

def tailqFirst (heap : TailqHeap) (head : Nat) : Nat := heap.tqhFirst head

def tailqNext (heap : TailqHeap) (elm : Nat) : Nat := heap.tqeNext elm

def tailqLast (heap : TailqHeap) (head : Nat) : Nat := heap.load (heap.behind (heap.tqhLast head))

def tailqPrev (heap : TailqHeap) (elm : Nat) : Nat := heap.load (heap.behind (heap.tqePrev elm))

def tailqEmpty (heap : TailqHeap) (head : Nat) : Bool := heap.tailqFirst head = 0

/-! ## Functions -/

def tailqInit (heap : TailqHeap) (head : Nat) : TailqHeap :=
  (heap.store (.first head) 0).setLast head (.first head)

def tailqInsertHead (heap : TailqHeap) (head elm : Nat) : TailqHeap :=
  let first := heap.tqhFirst head
  let heap := heap.store (.next elm) first
  let heap := if first ≠ 0 then heap.setPrev first (.next elm) else heap.setLast head (.next elm)
  (heap.store (.first head) elm).setPrev elm (.first head)

def tailqInsertTail (heap : TailqHeap) (head elm : Nat) : TailqHeap :=
  let heap := (heap.store (.next elm) 0).setPrev elm (heap.tqhLast head)
  (heap.store (heap.tqhLast head) elm).setLast head (.next elm)

def tailqInsertAfter (heap : TailqHeap) (head listelm elm : Nat) : TailqHeap :=
  let next := heap.tqeNext listelm
  let heap := heap.store (.next elm) next
  let heap := if next ≠ 0 then heap.setPrev next (.next elm) else heap.setLast head (.next elm)
  (heap.store (.next listelm) elm).setPrev elm (.next listelm)

def tailqInsertBefore (heap : TailqHeap) (listelm elm : Nat) : TailqHeap :=
  let heap := (heap.setPrev elm (heap.tqePrev listelm)).store (.next elm) listelm
  (heap.store (heap.tqePrev listelm) elm).setPrev listelm (.next elm)

/-- `_Q_INVALIDATE` does nothing. -/
def tailqRemove (heap : TailqHeap) (head elm : Nat) : TailqHeap :=
  let next := heap.tqeNext elm
  let heap :=
    if next ≠ 0 then heap.setPrev next (heap.tqePrev elm) else heap.setLast head (heap.tqePrev elm)
  heap.store (heap.tqePrev elm) (heap.tqeNext elm)

def tailqReplace (heap : TailqHeap) (head elm elm2 : Nat) : TailqHeap :=
  let next := heap.tqeNext elm
  let heap := heap.store (.next elm2) next
  let heap := if next ≠ 0 then heap.setPrev next (.next elm2) else heap.setLast head (.next elm2)
  let heap := heap.setPrev elm2 (heap.tqePrev elm)
  heap.store (heap.tqePrev elm2) elm2

def tailqConcat (heap : TailqHeap) (head1 head2 : Nat) : TailqHeap :=
  if heap.tailqEmpty head2 then heap
  else
    let heap := heap.store (heap.tqhLast head1) (heap.tqhFirst head2)
    let heap := heap.setPrev (heap.tqhFirst head2) (heap.tqhLast head1)
    (heap.setLast head1 (heap.tqhLast head2)).tailqInit head2

/-! ## What the members hold -/

section Members

variable (heap : TailqHeap) {slot other : Slot} {head elm x : Nat}

@[simp] theorem load_store_self (slot : Slot) (elm : Nat) :
    (heap.store slot elm).load slot = elm := by
  cases slot with
  | first head => exact Function.update_self _ _ _
  | next x => exact Function.update_self _ _ _

theorem load_store_of_ne (different : other ≠ slot) (elm : Nat) :
    (heap.store slot elm).load other = heap.load other := by
  cases slot with
  | first head =>
      cases other with
      | first head' =>
        exact Function.update_of_ne (fun same => different (congrArg Slot.first same)) _ _
      | next y => rfl
  | next x =>
      cases other with
      | first head' => rfl
      | next y => exact Function.update_of_ne (fun same => different (congrArg Slot.next same)) _ _

@[simp] theorem load_setLast (head : Nat) (slot other : Slot) :
    (heap.setLast head slot).load other = heap.load other := by
  cases other <;> rfl

@[simp] theorem load_setPrev (elm : Nat) (slot other : Slot) :
    (heap.setPrev elm slot).load other = heap.load
  other := by
  cases other <;> rfl

@[simp] theorem tqePrev_store (slot : Slot) (elm : Nat) :
    (heap.store slot elm).tqePrev = heap.tqePrev := by
  cases slot <;> rfl

@[simp] theorem tqhLast_store (slot : Slot) (elm : Nat) :
    (heap.store slot elm).tqhLast = heap.tqhLast := by
  cases slot <;> rfl

@[simp] theorem tqePrev_setLast (head : Nat) (slot : Slot) :
    (heap.setLast head slot).tqePrev = heap.tqePrev
  := rfl

@[simp] theorem tqhLast_setPrev (elm : Nat) (slot : Slot) :
    (heap.setPrev elm slot).tqhLast = heap.tqhLast :=
  rfl

@[simp] theorem tqePrev_setPrev_self (elm : Nat) (slot : Slot) :
    (heap.setPrev elm slot).tqePrev elm = slot :=
  Function.update_self _ _ _

theorem tqePrev_setPrev_of_ne (different : x ≠ elm) (slot : Slot) :
    (heap.setPrev elm slot).tqePrev x = heap.tqePrev x :=
  Function.update_of_ne different _ _

@[simp] theorem tqhLast_setLast_self (head : Nat) (slot : Slot) :
    (heap.setLast head slot).tqhLast head = slot :=
  Function.update_self _ _ _

theorem tqhLast_setLast_of_ne {other : Nat} (different : other ≠ head) (slot : Slot) :
    (heap.setLast head slot).tqhLast other = heap.tqhLast other :=
  Function.update_of_ne different _ _

@[simp] theorem load_first (head : Nat) : heap.load (.first head) = heap.tqhFirst head := rfl

@[simp] theorem load_next (elm : Nat) : heap.load (.next elm) = heap.tqeNext elm := rfl

end Members

end TailqHeap

end Utils
end OsslScripts
