import OsslScripts.Foundation.ColorTree

namespace OsslScripts
namespace Utils

open Foundation

/-!
# The red-black trees of tree.h

`RB_GENERATE` makes these functions for a type of elements and a field of it.  An
element is known by its address, and 0 is `NULL`.  All trees that use the same
field share one store of links, and each `RB_HEAD` has its root.

A load or a store through `NULL` is an error, and a loop runs as long as there is
fuel.  `RB_AUGMENT` is empty.  The two halves of the rebalancing functions are
mirror images, and are written once for either side.
-/

/-- `RB_ENTRY`. -/
structure RbEntry where
  rbeLeft : Nat
  rbeRight : Nat
  rbeParent : Nat
  rbeColor : Color

/-- The entries of all elements, and the root of each head. -/
structure RbHeap where
  entry : Nat -> RbEntry
  rbhRoot : Nat -> Nat

inductive RbStop where
  | nullDereference
  | outOfFuel

abbrev RbM := StateT RbHeap (Except RbStop)

def load (elm : Nat) : RbM RbEntry := fun heap =>
  if elm = 0 then .error .nullDereference else .ok (heap.entry elm, heap)

def store (elm : Nat) (change : RbEntry -> RbEntry) : RbM Unit := fun heap =>
  if elm = 0 then .error .nullDereference
  else .ok ((), { heap with entry := Function.update heap.entry elm (change (heap.entry elm)) })

def RbEntry.child (e : RbEntry) : Side -> Nat
  | .left => e.rbeLeft
  | .right => e.rbeRight

def RbEntry.withChild (e : RbEntry) (s : Side) (p : Nat) : RbEntry :=
  match s with
  | .left => { e with rbeLeft := p }
  | .right => { e with rbeRight := p }

def rbLeft (elm : Nat) : RbM Nat := RbEntry.rbeLeft <$> load elm
def rbRight (elm : Nat) : RbM Nat := RbEntry.rbeRight <$> load elm
def rbParent (elm : Nat) : RbM Nat := RbEntry.rbeParent <$> load elm
def rbColor (elm : Nat) : RbM Color := RbEntry.rbeColor <$> load elm

/-- `RB_LEFT` or `RB_RIGHT`. -/
def rbChild (s : Side) (elm : Nat) : RbM Nat := (fun e => e.child s) <$> load elm

def setRbChild (s : Side) (elm p : Nat) : RbM Unit := store elm (fun e => e.withChild s p)
def setRbParent (elm p : Nat) : RbM Unit := store elm (fun e => { e with rbeParent := p })
def setRbColor (elm : Nat) (c : Color) : RbM Unit := store elm (fun e => { e with rbeColor := c })

def rbRoot (head : Nat) : RbM Nat := fun heap => .ok (heap.rbhRoot head, heap)

def setRbRoot (head p : Nat) : RbM Unit := fun heap =>
  .ok ((), { heap with rbhRoot := Function.update heap.rbhRoot head p })

def rbInit (head : Nat) : RbM Unit := setRbRoot head 0

def rbEmpty (head : Nat) : RbM Bool := (fun root => decide (root = 0)) <$> rbRoot head

def rbSet (elm parent : Nat) : RbM Unit := store elm (fun _ => ⟨0, 0, parent, .red⟩)

def rbSetBlackred (black red : Nat) : RbM Unit := do
  setRbColor black .black
  setRbColor red .red

/-! ## Rotations -/

/-- `if (elm) RB_PARENT(elm) = parent`. -/
def adopt (elm parent : Nat) : RbM Unit :=
  if elm = 0 then pure () else setRbParent elm parent

/-- Hang `new` where `old` hangs below `parent`, or at the root. -/
def replaceChild (head parent old new : Nat) : RbM Unit :=
  if parent = 0 then setRbRoot head new
  else do
    let left ← rbLeft parent
    if left = old then setRbChild .left parent new else setRbChild .right parent new

/-- `RB_ROTATE_LEFT` brings the right child up, and `RB_ROTATE_RIGHT` the left one. -/
def rbRotate (s : Side) (head elm : Nat) : RbM Unit := do
  let tmp ← rbChild s.other elm
  let inner ← rbChild s tmp
  setRbChild s.other elm inner
  adopt inner elm
  let parent ← rbParent elm
  setRbParent tmp parent
  replaceChild head parent elm tmp
  setRbChild s tmp elm
  setRbParent elm tmp

def rbRotateLeft (head elm : Nat) : RbM Unit := rbRotate .left head elm
def rbRotateRight (head elm : Nat) : RbM Unit := rbRotate .right head elm

/-! ## Insertion -/

/-- `elm && RB_COLOR(elm) == RB_RED`. -/
def isRed (elm : Nat) : RbM Bool :=
  if elm = 0 then pure false else (fun c => decide (c = .red)) <$> rbColor elm

/-- `elm == NULL || RB_COLOR(elm) == RB_BLACK`. -/
def isBlack (elm : Nat) : RbM Bool :=
  if elm = 0 then pure true else (fun c => decide (c = .black)) <$> rbColor elm

/-- `if (elm) RB_COLOR(elm) = RB_BLACK`. -/
def blacken (elm : Nat) : RbM Unit :=
  if elm = 0 then pure () else setRbColor elm .black

/-- If `elm` is the inner child of `parent`, the two change places; the outer one is returned. -/
def turnOut (s : Side) (head parent elm : Nat) : RbM (Nat × Nat) := do
  let inner ← rbChild s.other parent
  if inner = elm then do
    rbRotate s head parent
    pure (elm, parent)
  else pure (parent, elm)

/-- One turn of the loop, with the parent on this side of the grandparent.  The next `elm`. -/
def insertColorTurn (s : Side) (head elm parent gparent : Nat) : RbM Nat := do
  let tmp ← rbChild s.other gparent
  let uncleRed ← isRed tmp
  if uncleRed then do
    setRbColor tmp .black
    rbSetBlackred parent gparent
    pure gparent
  else do
    let outward ← turnOut s head parent elm
    rbSetBlackred outward.1 gparent
    rbRotate s.other head gparent
    pure outward.2

def rbInsertColor : Nat -> Nat -> Nat -> RbM Unit
  | 0, _, _ => throw .outOfFuel
  | fuel + 1, head, elm => do
      let parent ← rbParent elm
      let red ← isRed parent
      if red then do
        let gparent ← rbParent parent
        let left ← rbLeft gparent
        let next ← insertColorTurn (if parent = left then .left else .right) head elm parent gparent
        rbInsertColor fuel head next
      else do
        let root ← rbRoot head
        setRbColor root .black

/-- What the search of an insertion ends with. -/
inductive Spot where
  | found (elm : Nat)
  | below (parent : Nat) (comp : Int)

def insertSpot (probe : Nat -> Int) : Nat -> Nat -> Nat -> Int -> RbM Spot
  | 0, _, _, _ => throw .outOfFuel
  | fuel + 1, tmp, parent, comp =>
      if tmp = 0 then pure (.below parent comp)
      else if probe tmp < 0 then do
        let next ← rbLeft tmp
        insertSpot probe fuel next tmp (probe tmp)
      else if 0 < probe tmp then do
        let next ← rbRight tmp
        insertSpot probe fuel next tmp (probe tmp)
      else pure (.found tmp)

def attach (head parent : Nat) (comp : Int) (elm : Nat) : RbM Unit := do
  rbSet elm parent
  if parent = 0 then setRbRoot head elm
  else if comp < 0 then setRbChild .left parent elm
  else setRbChild .right parent elm

/-- The element that is in the way, or 0. -/
def rbInsert (fuel : Nat) (cmp : Nat -> Nat -> Int) (head elm : Nat) : RbM Nat := do
  let root ← rbRoot head
  let spot ← insertSpot (cmp elm) fuel root 0 0
  match spot with
  | .found tmp => pure tmp
  | .below parent comp => do
      attach head parent comp elm
      rbInsertColor fuel head elm
      pure 0

/-! ## Removal -/

/-- As far as the children on this side go. -/
def outermost (s : Side) : Nat -> Nat -> RbM Nat
  | 0, _ => throw .outOfFuel
  | fuel + 1, elm => do
      let next ← rbChild s elm
      if next = 0 then pure elm else outermost s fuel next

/-- The sibling of the short side, after a red one has been turned away. -/
def blackSibling (s : Side) (head parent : Nat) : RbM Nat := do
  let tmp ← rbChild s.other parent
  let color ← rbColor tmp
  if color = .red then do
    rbSetBlackred tmp parent
    rbRotate s head parent
    rbChild s.other parent
  else pure tmp

def bothBlack (elm : Nat) : RbM Bool := do
  let left ← rbLeft elm
  let leftBlack ← isBlack left
  if leftBlack then do
    let right ← rbRight elm
    isBlack right
  else pure false

/-- The sibling, with a red child on the outer side. -/
def redOutside (s : Side) (head parent tmp : Nat) : RbM Nat := do
  let outer ← rbChild s.other tmp
  let outerBlack ← isBlack outer
  if outerBlack then do
    let inner ← rbChild s tmp
    blacken inner
    setRbColor tmp .red
    rbRotate s.other head tmp
    rbChild s.other parent
  else pure tmp

/-- One turn of the loop, with the short side below `parent`.  The next `elm`, unless it is done. -/
def removeColorTurn (s : Side) (head parent : Nat) : RbM (Option Nat) := do
  let tmp ← blackSibling s head parent
  let spare ← bothBlack tmp
  if spare then do
    setRbColor tmp .red
    pure (some parent)
  else do
    let tmp ← redOutside s head parent tmp
    let color ← rbColor parent
    setRbColor tmp color
    setRbColor parent .black
    let outer ← rbChild s.other tmp
    blacken outer
    rbRotate s head parent
    pure none

def rbRemoveColor : Nat -> Nat -> Nat -> Nat -> RbM Unit
  | 0, _, _, _ => throw .outOfFuel
  | fuel + 1, head, parent, elm => do
      let black ← isBlack elm
      let root ← rbRoot head
      if black ∧ elm ≠ root then do
        let left ← rbLeft parent
        let next ← removeColorTurn (if left = elm then .left else .right) head parent
        match next with
        | some elm => do
            let parent ← rbParent elm
            rbRemoveColor fuel head parent elm
        | none => do
            let root ← rbRoot head
            blacken root
      else blacken elm

/-- Up to the root; there is nothing to augment on the way. -/
def climb : Nat -> Nat -> RbM Unit
  | 0, _ => throw .outOfFuel
  | fuel + 1, elm => if elm = 0 then pure () else do
      let parent ← rbParent elm
      climb fuel parent

def finishRemove (fuel head : Nat) (color : Color) (parent child : Nat) : RbM Unit :=
  if color = .black then rbRemoveColor fuel head parent child else pure ()

/-- The child comes in the place of the element, whose own links stay. -/
def unlink (head parent elm child : Nat) : RbM Unit := do
  adopt child parent
  replaceChild head parent elm child

/-- `elm` comes in the place of `old`, with its links and its color. -/
def takePlace (head old elm : Nat) : RbM Unit := do
  let field ← load old
  store elm (fun _ => field)
  let parent ← rbParent old
  replaceChild head parent old elm
  let left ← rbLeft old
  setRbParent left elm
  let right ← rbRight old
  adopt right elm

/-- An element with one child at most. -/
def removeSingle (fuel head elm child : Nat) : RbM Unit := do
  let parent ← rbParent elm
  let color ← rbColor elm
  unlink head parent elm child
  finishRemove fuel head color parent child

/-- An element with two children; its successor takes its place. -/
def removeDouble (fuel head old : Nat) : RbM Unit := do
  let right ← rbRight old
  let elm ← outermost .left fuel right
  let child ← rbRight elm
  let parent ← rbParent elm
  let color ← rbColor elm
  unlink head parent elm child
  let below ← rbParent elm
  takePlace head old elm
  climb fuel (if below = old then elm else parent)
  finishRemove fuel head color (if below = old then elm else parent) child

def rbRemove (fuel head elm : Nat) : RbM Nat := do
  let left ← rbLeft elm
  let right ← rbRight elm
  if left = 0 then removeSingle fuel head elm right
  else if right = 0 then removeSingle fuel head elm left
  else removeDouble fuel head elm
  pure elm

/-! ## Search -/

def findFrom (probe : Nat -> Int) : Nat -> Nat -> RbM Nat
  | 0, _ => throw .outOfFuel
  | fuel + 1, tmp =>
      if tmp = 0 then pure 0
      else if probe tmp < 0 then do
        let next ← rbLeft tmp
        findFrom probe fuel next
      else if 0 < probe tmp then do
        let next ← rbRight tmp
        findFrom probe fuel next
      else pure tmp

/-- `RB_FIND`, where `probe` compares the key with an element. -/
def rbFind (fuel : Nat) (probe : Nat -> Int) (head : Nat) : RbM Nat := do
  let root ← rbRoot head
  findFrom probe fuel root

def nfindFrom (probe : Nat -> Int) : Nat -> Nat -> Nat -> RbM Nat
  | 0, _, _ => throw .outOfFuel
  | fuel + 1, tmp, res =>
      if tmp = 0 then pure res
      else if probe tmp < 0 then do
        let next ← rbLeft tmp
        nfindFrom probe fuel next tmp
      else if 0 < probe tmp then do
        let next ← rbRight tmp
        nfindFrom probe fuel next res
      else pure tmp

/-- The first element that is not smaller. -/
def rbNfind (fuel : Nat) (probe : Nat -> Int) (head : Nat) : RbM Nat := do
  let root ← rbRoot head
  nfindFrom probe fuel root 0

def minmaxFrom (s : Side) : Nat -> Nat -> Nat -> RbM Nat
  | 0, _, _ => throw .outOfFuel
  | fuel + 1, tmp, parent => if tmp = 0 then pure parent else do
      let next ← rbChild s tmp
      minmaxFrom s fuel next tmp

def rbMinmax (fuel head : Nat) (val : Int) : RbM Nat := do
  let root ← rbRoot head
  minmaxFrom (if val < 0 then .left else .right) fuel root 0

def rbMin (fuel head : Nat) : RbM Nat := rbMinmax fuel head (-1)
def rbMax (fuel head : Nat) : RbM Nat := rbMinmax fuel head 1

/-- Up while the element is the child on this side, and once more. -/
def ascend (s : Side) : Nat -> Nat -> RbM Nat
  | 0, _ => throw .outOfFuel
  | fuel + 1, elm => do
      let parent ← rbParent elm
      if parent = 0 then pure 0
      else do
        let child ← rbChild s parent
        if elm = child then ascend s fuel parent else pure parent

/-- The neighbour on this side. -/
def rbStep (s : Side) (fuel elm : Nat) : RbM Nat := do
  let child ← rbChild s elm
  if child = 0 then do
    let parent ← rbParent elm
    if parent = 0 then pure 0
    else do
      let near ← rbChild s.other parent
      if elm = near then pure parent else ascend s fuel elm
  else outermost s.other fuel child

def rbNext (fuel elm : Nat) : RbM Nat := rbStep .right fuel elm
def rbPrev (fuel elm : Nat) : RbM Nat := rbStep .left fuel elm

end Utils
end OsslScripts
