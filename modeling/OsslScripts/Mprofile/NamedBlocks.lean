import OsslScripts.Foundation.RunningTotals
import OsslScripts.Mprofile.HeldBlocks

namespace OsslScripts
namespace Mprofile

open Foundation

/-!
# Blocks by name

An application that names its blocks by the operations that made them does not
depend on where its blocks are.  What it holds and how its operations change the
amount of memory is kept in a `Ledger`, which knows nothing of hooks.  A process of
one thread follows the ledger under the hooks of any family (`Tracked`).
-/

/-- An operation.  A name of `none` is the null pointer. -/
inductive BlockOp where
  | malloc (sz : UInt64)
  | free (name : Option Nat)
  | realloc (name : Option Nat) (sz : UInt64)
deriving DecidableEq, Repr

/-- The size that an operation asks for. -/
def BlockOp.size : BlockOp -> Nat
  | .malloc sz => sz.toNat
  | .free _ => 0
  | .realloc _ sz => sz.toNat

/-- No block is made, or a block is not resized. -/
def BlockOp.fails (op : BlockOp) (answer : Answer) : Bool :=
  match op with
  | .malloc _ => decide (answer.ptr = 0)
  | .realloc (some _) sz => decide (sz ≠ 0 ∧ answer.ptr = 0)
  | _ => false

/-! ## The ledger -/

/-- The blocks with their names and sizes, the changes of all operations but the
failed resizes, and what has been asked for in `count` operations. -/
structure Ledger where
  blocks : List (Nat × Nat)
  changes : List Int
  asked : Nat
  count : Nat
deriving DecidableEq, Repr

namespace Ledger

def init : Ledger := ⟨[], [], 0, 0⟩

def sizeOf (ledger : Ledger) (name : Nat) : Option Nat :=
  (ledger.blocks.find? (fun block => block.1 = name)).map Prod.snd

def after (ledger : Ledger) (blocks : List (Nat × Nat)) (changes : List Int)
    (size : Nat) : Ledger :=
  ⟨blocks, ledger.changes ++ changes, ledger.asked + size, ledger.count + 1⟩

/-- A new block. -/
def extend (ledger : Ledger) (size : Nat) : Ledger :=
  ledger.after (ledger.blocks ++ [(ledger.count, size)]) [(size : Int)] size

/-- The end of a block. -/
def release (ledger : Ledger) (name : Option Nat) : Except Unit Ledger :=
  match name with
  | none => .ok (ledger.after ledger.blocks [0] 0)
  | some name =>
      match ledger.sizeOf name with
      | none => .error ()
      | some size =>
          .ok (ledger.after (ledger.blocks.filter (fun block => block.1 ≠ name)) [-(size : Int)] 0)

/-- Another size for a block. -/
def resize (ledger : Ledger) (name : Nat) (size : Nat) (failed : Bool) : Except Unit Ledger :=
  match ledger.sizeOf name with
  | none => .error ()
  | some old =>
      if failed then .ok (ledger.after ledger.blocks [] size)
      else .ok (ledger.after
        (ledger.blocks.map (fun block => if block.1 = name then (block.1, size) else block))
        [(size : Int) - old] size)

/-- An operation, and whether it fails. -/
def next (ledger : Ledger) (l : BlockOp × Bool) : Except Unit Ledger :=
  match l.1 with
  | .malloc sz =>
      if l.2 then .ok (ledger.after ledger.blocks [0] sz.toNat) else .ok (ledger.extend sz.toNat)
  | .free name => ledger.release name
  | .realloc name sz =>
      if sz = 0 then ledger.release name
      else match name with
        | none => .ok (ledger.extend sz.toNat)
        | some name => ledger.resize name sz.toNat l.2

end Ledger

/-- What holds of a ledger whatever the operations were. -/
structure Ledger.Sound (ledger : Ledger) : Prop where
  names : (ledger.blocks.map Prod.fst).Nodup
  older : forall block, block ∈ ledger.blocks -> block.1 < ledger.count
  total : ledger.changes.sum = (ledger.blocks.map (fun block => (block.2 : Int))).sum
  grown : (ledger.changes.map increase).sum ≤ ledger.asked
  positive : forall total, total ∈ runningTotals 0 ledger.changes -> 0 ≤ total

section Ledgers

variable {ledger ledger' : Ledger}

theorem sum_sizes_nonneg (blocks : List (Nat × Nat)) :
    0 ≤ (blocks.map (fun block => (block.2 : Int))).sum := by
  induction blocks with
  | nil => exact Int.le_refl 0
  | cons block rest inductionHypothesis =>
      rw [List.map_cons, List.sum_cons]
      omega

/-- No block is larger than what was asked for. -/
theorem Ledger.Sound.size_le (sound : ledger.Sound) {block : Nat × Nat}
    (member : block ∈ ledger.blocks) :
    block.2 ≤ ledger.asked := by
  have part := (sum_of_key (fun b : Nat × Nat => (b.2 : Int)) sound.names member).1
  have rest := sum_sizes_nonneg (ledger.blocks.filter (fun b => b.1 ≠ block.1))
  have total := sound.total
  have upTo := sum_le_increases ledger.changes
  have grown := sound.grown
  omega

theorem ledger_sound_init : Ledger.init.Sound :=
  ⟨List.nodup_nil, fun _ member => absurd member List.not_mem_nil, rfl, Int.le_refl 0,
    fun _ member => absurd member List.not_mem_nil⟩

/-- A change that the blocks account for. -/
theorem Ledger.Sound.after (sound : ledger.Sound) {blocks : List (Nat × Nat)} {change : Int}
    {size : Nat}
    (names : (blocks.map Prod.fst).Nodup)
    (older : forall block, block ∈ blocks -> block.1 < ledger.count + 1)
    (accounted : (blocks.map (fun block => (block.2 : Int))).sum =
      (ledger.blocks.map (fun block => (block.2 : Int))).sum + change)
    (small : increase change ≤ size) : (ledger.after blocks [change] size).Sound := by
  refine ⟨names, older, ?_, ?_, fun total member => ?_⟩
  · simp only [Ledger.after, List.sum_append, List.sum_singleton]
    rw [sound.total, accounted]
  · have grown := sound.grown
    simp only [Ledger.after, List.map_append, List.sum_append, List.map_singleton,
      List.sum_singleton]
    push_cast
    omega
  · simp only [Ledger.after, runningTotals_append, runningTotals, Int.zero_add] at member
    rcases List.mem_append.mp member with old | new
    · exact sound.positive total old
    · rw [List.mem_singleton.mp new, sound.total, ← accounted]
      exact sum_sizes_nonneg blocks

theorem Ledger.Sound.extend (sound : ledger.Sound) (size : Nat) : (ledger.extend size).Sound := by
  apply sound.after
  · rw [List.map_append, List.map_singleton]
    refine List.nodup_append.mpr ⟨sound.names, List.nodup_singleton _, fun a old b new => ?_⟩
    rcases List.mem_map.mp old with ⟨block, member, rfl⟩
    rw [List.mem_singleton.mp new]
    exact Nat.ne_of_lt (sound.older block member)
  · intro block member
    rcases List.mem_append.mp member with old | new
    · exact Nat.lt_succ_of_lt (sound.older block old)
    · rw [List.mem_singleton.mp new]
      exact Nat.lt_succ_self _
  · rw [List.map_append, List.sum_append, List.map_singleton, List.sum_singleton]
  · rw [increase, if_neg (by omega)]

/-- An operation that changes nothing. -/
theorem Ledger.Sound.unchanged (sound : ledger.Sound) (size : Nat) :
    (ledger.after ledger.blocks [0] size).Sound := by
  apply sound.after sound.names
  · exact fun block member => Nat.lt_succ_of_lt (sound.older block member)
  · exact (Int.add_zero _).symm
  · exact Int.natCast_nonneg size

/-- The block of a name. -/
theorem sizeOf_some {name size : Nat} (found : ledger.sizeOf name = some size) :
    (name, size) ∈ ledger.blocks := by
  rcases Option.map_eq_some_iff.mp found with ⟨block, isFound, rfl⟩
  rcases find_key Prod.fst isFound with ⟨member, rfl⟩
  exact member

theorem Ledger.Sound.release (sound : ledger.Sound) {name : Option Nat}
    (released : ledger.release name = .ok ledger') : ledger'.Sound := by
  cases name with
  | none =>
      cases released
      exact sound.unchanged 0
  | some name =>
      rw [Ledger.release] at released
      cases found : ledger.sizeOf name with
      | none => rw [found] at released; cases released
      | some size =>
          rw [found] at released
          cases released
          have member := sizeOf_some found
          have part : (ledger.blocks.map (fun block => (block.2 : Int))).sum =
              size + ((ledger.blocks.filter (fun block => block.1 ≠ name)).map
                  (fun block => (block.2 : Int))).sum :=
            (sum_of_key (fun block : Nat × Nat => (block.2 : Int)) sound.names member).1
          refine sound.after (sound.names.sublist (List.filter_sublist.map _)) (fun block present =>
            Nat.lt_succ_of_lt (sound.older block (List.mem_filter.mp present).1)) ?_ ?_
          · rw [part]
            omega
          · unfold increase
            split_ifs <;> omega

theorem Ledger.Sound.resize (sound : ledger.Sound) {name size : Nat} {failed : Bool}
    (resized : ledger.resize name size failed = .ok ledger') : ledger'.Sound := by
  rw [Ledger.resize] at resized
  cases found : ledger.sizeOf name with
  | none => rw [found] at resized; cases resized
  | some old =>
      rw [found] at resized
      have member := sizeOf_some found
      cases failed with
      | true =>
          cases resized
          have grown := sound.grown
          refine ⟨sound.names, fun block present => Nat.lt_succ_of_lt (sound.older block present),
            ?_, ?_, ?_⟩
          · simpa [Ledger.after] using sound.total
          · simp only [Ledger.after, List.append_nil]
            push_cast
            omega
          · simpa [Ledger.after] using sound.positive
      | false =>
          cases resized
          have sums := sum_of_key (fun b : Nat × Nat => (b.2 : Int)) sound.names member
          have sameNames :
            (ledger.blocks.map (fun block => if block.1 = name then (block.1, size) else block)).map
              Prod.fst = ledger.blocks.map Prod.fst := by
            rw [List.map_map]
            refine List.map_congr_left (fun block _ => ?_)
            rw [Function.comp_apply]
            split_ifs <;> rfl
          refine sound.after ?_ (fun block present => ?_) ?_ ?_
          · rw [sameNames]
            exact sound.names
          · rcases List.mem_map.mp present with ⟨before, isBefore, rfl⟩
            have isOlder := Nat.lt_succ_of_lt (sound.older before isBefore)
            split_ifs
            · exact isOlder
            · exact isOlder
          · rw [sums.1, sums.2 (fun block => (block.1, size))]
            omega
          · unfold increase
            split_ifs <;> omega

/-- Every operation keeps the ledger sound. -/
theorem Ledger.Sound.next (sound : ledger.Sound) {l : BlockOp × Bool}
    (stepped : ledger.next l = .ok ledger') :
    ledger'.Sound := by
  rcases l with ⟨op, failed⟩
  cases op with
  | malloc sz =>
      cases failed with
      | true =>
          cases stepped
          exact sound.unchanged sz.toNat
      | false =>
          cases stepped
          exact sound.extend sz.toNat
  | free name => exact sound.release stepped
  | realloc name sz =>
      rw [Ledger.next] at stepped
      simp only at stepped
      by_cases noSize : sz = 0
      · rw [if_pos noSize] at stepped
        exact sound.release stepped
      · rw [if_neg noSize] at stepped
        cases name with
        | none =>
            cases stepped
            exact sound.extend sz.toNat
        | some name => exact sound.resize stepped

/-- An operation asks for its size, and makes one change at most. -/
theorem Ledger.next_after {l : BlockOp × Bool} (stepped : ledger.next l = .ok ledger') :
    Exists fun blocks => Exists fun changes =>
      ledger' = ledger.after blocks changes l.1.size ∧ changes.length ≤ 1 := by
  have released : forall name, ledger.release name = .ok ledger' ->
      Exists fun blocks => Exists fun changes =>
      ledger' = ledger.after blocks changes 0 ∧ changes.length ≤ 1 := by
    intro name isReleased
    unfold Ledger.release at isReleased
    split at isReleased
    · cases isReleased
      exact ⟨_, _, rfl, Nat.le_refl 1⟩
    · split at isReleased
      · cases isReleased
      · cases isReleased
        exact ⟨_, _, rfl, Nat.le_refl 1⟩
  rcases l with ⟨op, failed⟩
  cases op with
  | malloc sz => cases failed <;> (cases stepped; exact ⟨_, _, rfl, Nat.le_refl 1⟩)
  | free name => exact released name stepped
  | realloc name sz =>
      rw [Ledger.next] at stepped
      simp only at stepped
      by_cases noSize : sz = 0
      · rw [if_pos noSize] at stepped
        rw [BlockOp.size, noSize]
        exact released name stepped
      · rw [if_neg noSize] at stepped
        cases name with
        | none => cases stepped; exact ⟨_, _, rfl, Nat.le_refl 1⟩
        | some name =>
            simp only [Ledger.resize] at stepped
            cases found : ledger.sizeOf name with
            | none => rw [found] at stepped; cases stepped
            | some old =>
                rw [found] at stepped
                cases failed with
                | true => cases stepped; exact ⟨_, _, rfl, Nat.zero_le 1⟩
                | false => cases stepped; exact ⟨_, _, rfl, Nat.le_refl 1⟩

theorem Ledger.next_asked {l : BlockOp × Bool} (stepped : ledger.next l = .ok ledger') :
    ledger'.asked = ledger.asked + l.1.size := by
  rcases Ledger.next_after stepped with ⟨blocks, changes, rfl, -⟩
  rfl

end Ledgers

/-! ## A process that follows the ledger -/

/-- A process, its blocks under their names, and the number of operations so far. -/
structure OpState where
  world : World
  held : List (HeldBlock Nat)
  count : Nat

def OpState.init : OpState := ⟨World.init, [], 0⟩

/-- Where the block of a name is. -/
def pointerOf (held : List (HeldBlock Nat)) : Option Nat -> Option UInt64
  | none => some 0
  | some name => (held.find? (fun h => h.tag = name)).map HeldBlock.ptr

def BlockOp.call (held : List (HeldBlock Nat)) : BlockOp -> Option Call
  | .malloc sz => some (.malloc sz)
  | .free name => (pointerOf held name).map .free
  | .realloc name sz => (pointerOf held name).map (fun b => .realloc b sz)

/-- One operation under the hooks of a family. -/
def opNext (family : Family) (tid : Nat) (s : OpState) (l : BlockOp × Answer) :
    Except (Stop HookFault) OpState :=
  match l.1.call s.held with
  | none => .error .disabled
  | some call =>
      match makeCall family tid s.world (call, l.2) with
      | .error fault => .error (.fault fault)
      | .ok (w, rv) => .ok ⟨w, call.settle s.count rv s.held, s.count + 1⟩

/-- Every `malloc`, and every `realloc` of the null pointer, succeeds if it asks for a size. -/
def BlockOp.Provided (op : BlockOp) (answer : Answer) : Prop :=
  match op with
  | .malloc sz => sz ≠ 0 -> answer.ptr ≠ 0
  | .realloc none sz => sz ≠ 0 -> answer.ptr ≠ 0
  | _ => True

instance decidableBlockOpProvided (answer : Answer) :
    (op : BlockOp) -> Decidable (op.Provided answer)
  | .malloc sz => inferInstanceAs (Decidable (sz ≠ 0 -> answer.ptr ≠ 0))
  | .free _ => instDecidableTrue
  | .realloc none sz => inferInstanceAs (Decidable (sz ≠ 0 -> answer.ptr ≠ 0))
  | .realloc (some _) _ => instDecidableTrue

/-- The blocks are those of the ledger. -/
structure Tracked (heap : UInt64 -> Option Block) (held : List (HeldBlock Nat)) (count : Nat)
    (ledger : Ledger) : Prop where
  holding : Holding heap held
  sound : ledger.Sound
  blocks : held.map (fun h => (h.tag, h.sz.toNat)) = ledger.blocks
  counted : count = ledger.count

section Processes

variable {heap heap' : UInt64 -> Option Block} {held : List (HeldBlock Nat)} {count : Nat}
  {ledger : Ledger}
  {h : HeldBlock Nat} {name : Nat} {answer : Answer} {call : Call} {out : TracedCall} {sz : UInt64}

theorem Tracked.names (tracked : Tracked heap held count ledger) :
    (held.map HeldBlock.tag).Nodup := by
  have names := tracked.sound.names
  rw [← tracked.blocks, List.map_map] at names
  exact names

/-- The size of a name is that of its block. -/
theorem Tracked.sizeOf_eq (tracked : Tracked heap held count ledger) (name : Nat) :
    ledger.sizeOf name = (held.find? (fun h => h.tag = name)).map (fun h => h.sz.toNat) := by
  rw [Ledger.sizeOf, ← tracked.blocks, List.find?_map, Option.map_map]
  rfl

/-- The block of a name. -/
theorem Tracked.find (tracked : Tracked heap held count ledger) {b : UInt64}
    (isName : pointerOf held (some name) = some b) :
    Exists fun h => h ∈ held ∧ h.tag = name ∧ h.ptr = b ∧ ledger.sizeOf name = some h.sz.toNat := by
  rcases Option.map_eq_some_iff.mp isName with ⟨h, found, isPtr⟩
  rcases find_key HeldBlock.tag found with ⟨member, isTag⟩
  refine ⟨h, member, isTag, isPtr, ?_⟩
  rw [tracked.sizeOf_eq, found]
  rfl

/-- A block is known by its place as it is by its name. -/
theorem Tracked.same_key (tracked : Tracked heap held count ledger) (member : h ∈ held)
    {k : HeldBlock Nat} (present : k ∈ held) : k.ptr = h.ptr ↔ k.tag = h.tag := by
  constructor
  · intro same
    rw [List.inj_on_of_nodup_map tracked.holding.apart present member same]
  · intro same
    rw [List.inj_on_of_nodup_map tracked.names present member same]

/-- The names that the ledger allows are those of blocks. -/
theorem Tracked.has_call (tracked : Tracked heap held count ledger) {op : BlockOp} {failed : Bool}
    {ledger' : Ledger} (allowed : ledger.next (op, failed) = .ok ledger') :
    Exists fun call => op.call held = some call := by
  have pointer : forall name, ledger.sizeOf name ≠ none ->
      Exists fun b => pointerOf held (some name) = some b := by
    intro name isSize
    rw [tracked.sizeOf_eq] at isSize
    cases found : held.find? (fun h => h.tag = name) with
    | none => exact absurd (by rw [found]; rfl) isSize
    | some h => exact ⟨h.ptr, by rw [pointerOf, found]; rfl⟩
  have released : forall name, ledger.release name = .ok ledger' ->
      Exists fun b => pointerOf held name = some b := by
    intro name isReleased
    cases name with
    | none => exact ⟨0, rfl⟩
    | some name =>
        apply pointer
        intro unknown
        rw [Ledger.release, unknown] at isReleased
        cases isReleased
  cases op with
  | malloc sz => exact ⟨_, rfl⟩
  | free name =>
      rcases released name allowed with ⟨b, isName⟩
      exact ⟨.free b, by rw [BlockOp.call, isName]; rfl⟩
  | realloc name sz =>
      have isPointer : Exists fun b => pointerOf held name = some b := by
        cases name with
        | none => exact ⟨0, rfl⟩
        | some name =>
            rw [Ledger.next] at allowed
            simp only at allowed
            by_cases noSize : sz = 0
            · rw [if_pos noSize] at allowed
              exact released (some name) allowed
            · rw [if_neg noSize] at allowed
              apply pointer
              intro unknown
              rw [Ledger.resize, unknown] at allowed
              cases allowed
      rcases isPointer with ⟨b, isName⟩
      exact ⟨.realloc b sz, by rw [BlockOp.call, isName]; rfl⟩

/-- The application passes only what it holds. -/
theorem Tracked.legal (tracked : Tracked heap held count ledger) {op : BlockOp}
    (isCall : op.call held = some call) :
    call.Legal held := by
  have pointer : forall {name : Option Nat} {b : UInt64}, pointerOf held name = some b ->
      b = 0 ∨ b ∈ held.map HeldBlock.ptr := by
    intro name b isName
    cases name with
    | none => cases isName; exact Or.inl rfl
    | some name =>
        rcases tracked.find isName with ⟨h, member, -, rfl, -⟩
        exact Or.inr (List.mem_map_of_mem member)
  cases op with
  | malloc sz => cases isCall; exact Or.inl rfl
  | free name =>
      rcases Option.map_eq_some_iff.mp isCall with ⟨b, isName, rfl⟩
      exact pointer isName
  | realloc name sz =>
      rcases Option.map_eq_some_iff.mp isCall with ⟨b, isName, rfl⟩
      exact pointer isName

/-- A block that is made. -/
theorem Tracked.extend (tracked : Tracked heap held count ledger) {rv : UInt64}
    (holding : Holding heap' (held ++ [⟨rv, sz, count⟩])) :
    Tracked heap' (held ++ [⟨rv, sz, count⟩]) (count + 1) (ledger.extend sz.toNat) := by
  refine ⟨holding, tracked.sound.extend sz.toNat, ?_, ?_⟩
  · rw [List.map_append, tracked.blocks, tracked.counted]
    rfl
  · rw [tracked.counted]
    rfl

/-- A block that goes, or the null pointer. -/
theorem Tracked.release (tracked : Tracked heap held count ledger) {name : Option Nat} {b : UInt64}
    (isName : pointerOf held name = some b) (read : argumentSize heap b = .ok sz)
    (holding : Holding heap' (held.filter (fun h => h.ptr ≠ b))) :
    Exists fun ledger' => ledger.release name = .ok ledger' ∧
      Tracked heap' (held.filter (fun h => h.ptr ≠ b)) (count + 1) ledger' ∧
      ledger'.changes = ledger.changes ++ [-(sz.toNat : Int)] := by
  cases name with
  | none =>
      cases isName
      cases read
      have whole : held.filter (fun h => h.ptr ≠ 0) = held :=
        List.filter_eq_self.mpr (fun h member => decide_eq_true (tracked.holding.headed h member).1)
      have released : ledger.release none = .ok (ledger.after ledger.blocks [0] 0) := rfl
      refine ⟨_, released, ⟨holding, tracked.sound.release released, ?_, ?_⟩, rfl⟩
      · rw [whole]
        exact tracked.blocks
      · rw [tracked.counted]
        rfl
  | some name =>
      rcases tracked.find isName with ⟨h, member, rfl, rfl, isSize⟩
      rw [tracked.holding.argumentSize member] at read
      cases read
      have released : ledger.release (some h.tag) = .ok (ledger.after
          (ledger.blocks.filter (fun block => block.1 ≠ h.tag)) [-(h.sz.toNat : Int)] 0) := by
        rw [Ledger.release, isSize]
      refine ⟨_, released, ⟨holding, tracked.sound.release released, ?_, ?_⟩, rfl⟩
      · have byName : held.filter (fun k => k.ptr ≠ h.ptr) = held.filter (fun k => k.tag ≠ h.tag) :=
          List.filter_congr (fun k present =>
            decide_eq_decide.mpr (not_congr (tracked.same_key member present)))
        rw [byName, Ledger.after, ← tracked.blocks, List.filter_map]
        rfl
      · rw [tracked.counted]
        rfl

/-- A block that gets another size, or none. -/
theorem Tracked.resize (tracked : Tracked heap held count ledger) (member : h ∈ held)
    (isSize : ledger.sizeOf h.tag = some h.sz.toNat) {rv : UInt64}
    (holding : Holding heap' (held.map (fun k => if k.ptr = h.ptr then ⟨rv, sz, k.tag⟩ else k))) :
    Exists fun ledger' => ledger.resize h.tag sz.toNat false = .ok ledger' ∧
      Tracked heap' (held.map (fun k => if k.ptr = h.ptr then ⟨rv, sz, k.tag⟩ else k)) (count + 1)
        ledger' ∧
      ledger'.changes = ledger.changes ++ [(sz.toNat : Int) - h.sz.toNat] := by
  have resized : ledger.resize h.tag sz.toNat false = .ok (ledger.after
      (ledger.blocks.map (fun block => if block.1 = h.tag then (block.1, sz.toNat) else block))
      [(sz.toNat : Int) - h.sz.toNat] sz.toNat) := by
    rw [Ledger.resize, isSize]
    rfl
  refine ⟨_, resized, ⟨holding, tracked.sound.resize resized, ?_, ?_⟩, rfl⟩
  · rw [Ledger.after, ← tracked.blocks, List.map_map, List.map_map]
    refine List.map_congr_left (fun k present => ?_)
    rw [Function.comp_apply, Function.comp_apply]
    by_cases here : k.ptr = h.ptr
    · rw [if_pos here, if_pos ((tracked.same_key member present).mp here)]
    · rw [if_neg here, if_neg (fun same => here ((tracked.same_key member present).mpr same))]
  · rw [tracked.counted]
    rfl

theorem Tracked.unchanged (tracked : Tracked heap held count ledger)
    (isSize : ledger.sizeOf h.tag = some h.sz.toNat) (size : Nat) (holding : Holding heap' held) :
    Exists fun ledger' => ledger.resize h.tag size true = .ok ledger' ∧
      Tracked heap' held (count + 1) ledger' ∧ ledger'.changes = ledger.changes := by
  have resized : ledger.resize h.tag size true = .ok (ledger.after ledger.blocks [] size) := by
    rw [Ledger.resize, isSize]
    rfl
  refine ⟨_, resized, ⟨holding, tracked.sound.resize resized, tracked.blocks, ?_⟩,
    List.append_nil _⟩
  rw [tracked.counted]
  rfl

theorem call_asked {op : BlockOp} (isCall : op.call held = some call) :
    call.asked.toNat = op.size := by
  cases op with
  | malloc sz => cases isCall; rfl
  | free name =>
      rcases Option.map_eq_some_iff.mp isCall with ⟨b, -, rfl⟩
      rfl
  | realloc name sz =>
      rcases Option.map_eq_some_iff.mp isCall with ⟨b, -, rfl⟩
      rfl

theorem provided_malloc {op : BlockOp} (isCall : op.call held = some (.malloc sz))
    (provided : op.Provided answer) : sz ≠ 0 -> answer.ptr ≠ 0 := by
  cases op with
  | malloc sz => cases isCall; exact provided
  | free name =>
      rcases Option.map_eq_some_iff.mp isCall with ⟨b, -, impossible⟩
      cases impossible
  | realloc name sz =>
      rcases Option.map_eq_some_iff.mp isCall with ⟨b, -, impossible⟩
      cases impossible

/-- A small request wraps around nowhere. -/
theorem fits_of_small (small : call.asked.toNat < 2 ^ 63) : call.Fits answer := by
  refine ⟨fun _ => small, ?_⟩
  cases call with
  | malloc sz => trivial
  | free b => trivial
  | realloc b sz =>
      intro _ wraps
      have wide := (headed_iff sz).mpr (by have fits : sz.toNat < 2 ^ 63 := small; omega)
      rw [wraps, UInt64.toNat_zero] at wide
      omega

/-- The size of the argument is none that was not asked for. -/
theorem Tracked.argument_le (tracked : Tracked heap held count ledger) {op : BlockOp}
    (isCall : op.call held = some call) {old : UInt64}
    (read : argumentSize heap call.argument = .ok old) :
    old.toNat ≤ ledger.asked := by
  rcases tracked.legal isCall with null | present
  · rw [null] at read
    cases read
    exact Nat.zero_le _
  · rcases List.mem_map.mp present with ⟨h, member, same⟩
    rw [← same, tracked.holding.argumentSize member] at read
    cases read
    have isBlock : (h.tag, h.sz.toNat) ∈ ledger.blocks := by
      rw [← tracked.blocks]
      exact List.mem_map_of_mem member
    exact tracked.sound.size_le isBlock

/-- Under the hooks, a process does what the ledger does, and logs its changes. -/
theorem Tracked.step (tracked : Tracked heap held count ledger) {op : BlockOp}
    (isCall : op.call held = some call) (provided : op.Provided answer)
    (small : ledger.asked + op.size < 2 ^ 63) (outcome : TracedOutcome heap answer call out) :
    Exists fun ledger' => ledger.next (op, op.fails answer) = .ok ledger' ∧
      Tracked out.heap (call.settle count out.rv held) (count + 1) ledger' ∧
      ledger'.changes = ledger.changes ++ out.logged.toList.map MprofileRecord.mprDelta := by
  have asked : call.asked.toNat < 2 ^ 63 := by
    rw [call_asked isCall]
    omega
  have fits : call.Fits answer := fits_of_small asked
  have holding := tracked.holding.call fits.2 outcome count
  have released : forall {b sz : UInt64}, call.argument = b -> argumentSize heap b = .ok sz ->
      toSsize (sz * -1) = -(sz.toNat : Int) := by
    rintro b sz rfl read
    have upTo := tracked.argument_le isCall read
    rw [toSsize_neg_iff]
    omega
  cases op with
  | malloc sz =>
      cases isCall
      cases outcome with
      | @refused _ heap' taken =>
          have refused : answer.ptr = 0 := (malloc_result taken).symm
          have noSize : sz = 0 := by
            by_contra isSize
            exact provided isSize refused
          have fails : (BlockOp.malloc sz).fails answer = true := decide_eq_true refused
          simp only [fails, Call.settle, if_pos] at holding ⊢
          refine ⟨_, rfl, ⟨holding, tracked.sound.unchanged sz.toNat, tracked.blocks, ?_⟩, ?_⟩
          · rw [tracked.counted]
            rfl
          · subst noSize
            rfl
      | @made _ mh _ heap' taken isBlock stored =>
          have isPointer := stored_pointer holding.heapWf stored
          have fails : (BlockOp.malloc sz).fails answer = false :=
            decide_eq_false (fun refused => isBlock ((malloc_result taken).trans refused))
          simp only [fails, Call.settle, if_neg isPointer] at holding ⊢
          refine ⟨_, rfl, tracked.extend holding, ?_⟩
          have exact : toSsize sz = (sz.toNat : Int) := toSsize_small asked
          simp only [Option.toList_some, List.map_singleton, allocRecord, exact]
          rfl
  | free name =>
      rcases Option.map_eq_some_iff.mp isCall with ⟨b, isName, rfl⟩
      cases outcome with
      | @freed _ sz heap' read freed =>
          rcases tracked.release isName read holding with ⟨ledger', isNext, after, changes⟩
          refine ⟨ledger', isNext, after, ?_⟩
          rw [changes, ← released rfl read]
          rfl
  | realloc name sz =>
      rcases Option.map_eq_some_iff.mp isCall with ⟨b, isName, rfl⟩
      rw [Ledger.next]
      simp only
      cases outcome with
      | @ended _ origSz q heap' read taken =>
          rcases tracked.release isName read holding with ⟨ledger', isNext, after, changes⟩
          rw [if_pos rfl]
          refine ⟨ledger', isNext, after, ?_⟩
          rw [changes, ← released rfl read]
          rfl
      | @kept _ _ origSz heap' isSize read taken =>
          have refused : answer.ptr = 0 := (realloc_result taken).symm
          rw [if_neg isSize]
          cases name with
          | none => exact absurd refused (provided isSize)
          | some name =>
              rcases tracked.find isName with ⟨h, member, rfl, rfl, isOld⟩
              have fails : (BlockOp.realloc (some h.tag) sz).fails answer = true :=
                decide_eq_true ⟨isSize, refused⟩
              simp only [fails, Call.settle, if_neg isSize, if_pos] at holding ⊢
              rcases tracked.unchanged isOld sz.toNat holding with ⟨ledger', isNext, after, changes⟩
              refine ⟨ledger', isNext, after, ?_⟩
              rw [changes, Option.toList_none, List.map_nil, List.append_nil]
      | @resized _ _ origSz mh middle heap' isSize read taken isBlock stored =>
          have isPointer := stored_pointer holding.heapWf stored
          have granted : answer.ptr ≠ 0 := realloc_result taken ▸ isBlock
          rw [if_neg isSize]
          simp only [Call.settle, if_neg isSize, if_neg isPointer] at holding ⊢
          cases name with
          | none =>
              cases isName
              simp only [if_pos] at holding ⊢
              refine ⟨_, rfl, tracked.extend holding, ?_⟩
              have exact : toSsize sz = (sz.toNat : Int) := toSsize_small asked
              simp only [Option.toList_some, List.map_singleton, allocRecord, exact]
              rfl
          | some name =>
              rcases tracked.find isName with ⟨h, member, rfl, rfl, isOld⟩
              have isArgument := (tracked.holding.headed h member).1
              have fails : (BlockOp.realloc (some h.tag) sz).fails answer = false :=
                decide_eq_false (fun both => granted both.2)
              simp only [fails, if_neg isArgument] at holding ⊢
              rcases tracked.resize member isOld holding with ⟨ledger', isNext, after, changes⟩
              refine ⟨ledger', isNext, after, ?_⟩
              rw [tracked.holding.argumentSize member] at read
              cases read
              have exact : toSsize (sz - h.sz) = (sz.toNat : Int) - h.sz.toNat := by
                have upTo := tracked.argument_le isCall (tracked.holding.argumentSize member)
                rw [toSsize_sub_iff sz h.sz asked]
                omega
              rw [changes, ← exact]
              rfl

end Processes

section Operations

variable {family : Family} {tid : Nat} {s s' : OpState} {l : BlockOp × Answer}

theorem opNext_ok (stepped : opNext family tid s l = .ok s') :
    Exists fun call => l.1.call s.held = some call ∧ Exists fun rv =>
      makeCall family tid s.world (call, l.2) = .ok (s'.world, rv) ∧
        s'.held = call.settle s.count rv s.held ∧ s'.count = s.count + 1 := by
  unfold opNext at stepped
  cases isCall : l.1.call s.held with
  | none => rw [isCall] at stepped; cases stepped
  | some call =>
      rw [isCall] at stepped
      simp only at stepped
      cases made : makeCall family tid s.world (call, l.2) with
      | error fault => rw [made] at stepped; cases stepped
      | ok result =>
          rw [made] at stepped
          cases stepped
          exact ⟨call, rfl, result.2, made, rfl, rfl⟩

theorem opNext_error {stop : Stop HookFault} {call : Call} (isCall : l.1.call s.held = some call)
    (stopped : opNext family tid s l = .error stop) :
    Exists fun fault => makeCall family tid s.world (call, l.2) = .error fault ∧
      stop = .fault fault := by
  unfold opNext at stopped
  rw [isCall] at stopped
  simp only at stopped
  cases made : makeCall family tid s.world (call, l.2) with
  | ok result => rw [made] at stopped; cases stopped
  | error fault =>
      rw [made] at stopped
      cases stopped
      exact ⟨fault, rfl, rfl⟩

end Operations

end Mprofile
end OsslScripts
