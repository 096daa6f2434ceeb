import OsslScripts.Foundation.Transition
import Mathlib.Data.List.Induction
import Mathlib.Data.List.Nodup

namespace OsslScripts
namespace Backtrace

open Foundation

/-!
# Fixed-size tables

`backtrace.c` collects a stack and the libraries of its frames into static
arrays of 64 elements.  `record.c` has the same `add_shlib` over 32 elements.
An access outside of an array is undefined, so it ends the run with the index
in question.  A copy of a name is made by `strdup`, which may fail.
-/

/-- An element past the end of an array is read or written. -/
structure OutOfBounds where
  index : Nat
deriving DecidableEq, Repr

/-- What `add_shlib` uses of `Dl_info`. -/
structure DlInfo where
  dliFname : List Char
  dliFbase : UInt64
deriving DecidableEq, Repr

/-- `struct shlib` -/
structure Shlib where
  shlName : Option (List Char)
  shlBase : UInt64
deriving DecidableEq, Repr

/-- The array `shlibs`. -/
structure ShlibTable (max : Nat) where
  shlibs : List Shlib
  size : shlibs.length = max
deriving DecidableEq, Repr

/-- The static array before the first call. -/
def ShlibTable.init (max : Nat) : ShlibTable max :=
  ⟨List.replicate max ⟨none, 0⟩, List.length_replicate⟩

/-- A call of `add_shlib`, and whether `strdup` succeeds in it. -/
structure ShlibCall where
  dli : DlInfo
  strdupOk : Bool
deriving DecidableEq, Repr

/-- The `while` loop of `add_shlib` over the elements from index `i` on.  The
name is read before `i` is compared with the capacity.  Nothing is returned
when the name is found, else the index at which the loop ends. -/
def shlibScan (fname : List Char) : List Shlib -> Nat -> Except OutOfBounds (Option Nat)
  | [], i => .error ⟨i⟩
  | shlib :: rest, i =>
      match shlib.shlName with
      | none => .ok (some i)
      | some name => if name = fname then .ok none else shlibScan fname rest (i + 1)

/-- `add_shlib` over an array of this capacity. -/
def addShlibIn (max : Nat) (table : ShlibTable max) (call : ShlibCall) :
    Except OutOfBounds (ShlibTable max) :=
  match shlibScan call.dli.dliFname table.shlibs 0 with
  | .error stop => .error stop
  | .ok none => .ok table
  | .ok (some i) =>
      if i = max then .ok table
      else .ok
        ⟨table.shlibs.set i
          ⟨if call.strdupOk then some call.dli.dliFname else none, call.dli.dliFbase⟩,
          by rw [List.length_set, table.size]⟩

/-- `MAX_STACK_DEPTH` of `backtrace.c` -/
def maxStackDepth : Nat := 64

/-- `MAX_SHLIBS` of `record.c` -/
def maxShlibs : Nat := 32

/-- `add_shlib` of `backtrace.c` -/
def addShlib :
    ShlibTable maxStackDepth -> ShlibCall -> Except OutOfBounds (ShlibTable maxStackDepth) :=
  addShlibIn maxStackDepth

/-- `add_shlib` of `record.c` -/
def recordAddShlib :
    ShlibTable maxShlibs -> ShlibCall -> Except OutOfBounds (ShlibTable maxShlibs) :=
  addShlibIn maxShlibs

/-! ## The libraries seen -/

/-- The first occurrence of every name, in order. -/
def firstSeen : List DlInfo -> List DlInfo
  | [] => []
  | dli :: rest => dli :: (firstSeen rest).filter (fun later => later.dliFname ≠ dli.dliFname)

/-- The libraries that a sequence of calls names. -/
def seen (calls : List ShlibCall) : List DlInfo := firstSeen (calls.map ShlibCall.dli)

theorem mem_names_firstSeen (dlis : List DlInfo) (name : List Char) :
    name ∈ (firstSeen dlis).map DlInfo.dliFname ↔ name ∈ dlis.map DlInfo.dliFname := by
  induction dlis with
  | nil => rfl
  | cons dli rest inductionHypothesis =>
      rw [firstSeen, List.map_cons, List.mem_cons, List.map_cons, List.mem_cons,
        ← inductionHypothesis]
      by_cases here : name = dli.dliFname
      · exact iff_of_true (Or.inl here) (Or.inl here)
      · simp only [here, false_or, List.mem_map, List.mem_filter, decide_eq_true_eq]
        constructor
        · rintro ⟨later, ⟨member, -⟩, same⟩
          exact ⟨later, member, same⟩
        · rintro ⟨later, member, same⟩
          exact ⟨later, ⟨member, same ▸ here⟩, same⟩

/-- A further library is new or it was seen before. -/
theorem firstSeen_append_singleton (dlis : List DlInfo) (dli : DlInfo) :
    firstSeen (dlis ++ [dli]) =
      if dli.dliFname ∈ dlis.map DlInfo.dliFname then firstSeen dlis
      else firstSeen dlis ++ [dli] := by
  induction dlis with
  | nil => rfl
  | cons first rest inductionHypothesis =>
      rw [List.cons_append, firstSeen, inductionHypothesis, firstSeen, List.map_cons]
      by_cases later : dli.dliFname ∈ rest.map DlInfo.dliFname
      · rw [if_pos later, if_pos (List.mem_cons_of_mem _ later)]
      · rw [if_neg later, List.filter_append]
        by_cases here : dli.dliFname = first.dliFname
        · -- the occurrence at the head filters this one out
          rw [if_pos (List.mem_cons.mpr (Or.inl here)),
            List.filter_cons_of_neg (by rw [decide_eq_true_iff]; exact not_not_intro here),
            List.filter_nil, List.append_nil]
        · rw [if_neg (fun member => (List.mem_cons.mp member).elim here later),
            List.filter_cons_of_pos (by rw [decide_eq_true_iff]; exact here), List.filter_nil,
            List.cons_append]

theorem seen_append_singleton (calls : List ShlibCall) (call : ShlibCall) :
    seen (calls ++ [call]) =
      if call.dli.dliFname ∈ (seen calls).map DlInfo.dliFname then seen calls
      else seen calls ++ [call.dli] := by
  rw [seen, List.map_append, List.map_singleton, firstSeen_append_singleton, seen]
  simp only [mem_names_firstSeen]

/-! ## One call -/

/-- The element that holds a library. -/
def DlInfo.element (dli : DlInfo) : Shlib := ⟨some dli.dliFname, dli.dliFbase⟩

/-- The used elements are a gap-free prefix which holds these libraries. -/
structure Holds {max : Nat} (table : ShlibTable max) (libs : List DlInfo) : Prop where
  filled : Exists fun unused => table.shlibs = libs.map DlInfo.element ++ unused ∧
    forall shlib, shlib ∈ unused -> shlib.shlName = none
  distinct : (libs.map DlInfo.dliFname).Nodup

theorem holds_init (max : Nat) : Holds (ShlibTable.init max) [] where
  filled := ⟨_, rfl, fun shlib member => by rw [(List.mem_replicate.mp member).2]⟩
  distinct := List.nodup_nil

theorem Holds.length_le {max : Nat} {table : ShlibTable max} {libs : List DlInfo}
    (holds : Holds table libs) : libs.length ≤ max := by
  rcases holds.filled with ⟨unused, split, -⟩
  have size := table.size
  rw [split, List.length_append, List.length_map] at size
  omega

/-- The library that an element holds. -/
def Shlib.library (shlib : Shlib) : Option DlInfo :=
  shlib.shlName.map (fun name => ⟨name, shlib.shlBase⟩)

/-- An array determines the libraries in it. -/
theorem Holds.libs_eq {max : Nat} {table : ShlibTable max} {libs : List DlInfo}
    (holds : Holds table libs) : libs = table.shlibs.filterMap Shlib.library := by
  rcases holds.filled with ⟨unused, split, free⟩
  have used : (libs.map DlInfo.element).filterMap Shlib.library = libs := by
    rw [List.filterMap_map]
    exact List.filterMap_some
  have none : unused.filterMap Shlib.library = [] := by
    rw [List.filterMap_eq_nil_iff]
    intro shlib member
    rw [Shlib.library, free shlib member, Option.map_none]
  rw [split, List.filterMap_append, used, none, List.append_nil]

/-- The loop ends at the name, at the first unused element, or outside of a full array. -/
theorem shlibScan_spec (fname : List Char) (libs : List DlInfo) (unused : List Shlib)
    (free : forall shlib, shlib ∈ unused -> shlib.shlName = none) (i : Nat) :
    shlibScan fname (libs.map DlInfo.element ++ unused) i =
      if fname ∈ libs.map DlInfo.dliFname then .ok none
      else if unused = [] then .error ⟨i + libs.length⟩ else .ok (some (i + libs.length)) := by
  induction libs generalizing i with
  | nil =>
      rw [List.map_nil, List.nil_append, List.map_nil, if_neg List.not_mem_nil]
      cases unused with
      | nil => rfl
      | cons shlib rest =>
          rw [shlibScan, free shlib List.mem_cons_self, if_neg (List.cons_ne_nil shlib rest)]
          rfl
  | cons dli rest inductionHypothesis =>
      rw [List.map_cons, List.cons_append, shlibScan, inductionHypothesis, List.map_cons]
      simp only [DlInfo.element, List.mem_cons, List.length_cons]
      by_cases here : dli.dliFname = fname
      · rw [if_pos here, if_pos (Or.inl here.symm)]
      · rw [if_neg here]
        simp only [Ne.symm here, false_or, Nat.add_right_comm i, Nat.add_assoc]

/-- What one call does to an array that holds these libraries. -/
theorem Holds.addShlibIn {max : Nat} {table : ShlibTable max} {libs : List DlInfo}
    (holds : Holds table libs) (call : ShlibCall) :
    (call.dli.dliFname ∈ libs.map DlInfo.dliFname -> addShlibIn max table call = .ok table) ∧
      (call.dli.dliFname ∉ libs.map DlInfo.dliFname -> libs.length = max ->
        addShlibIn max table call = .error ⟨max⟩) ∧
      (call.dli.dliFname ∉ libs.map DlInfo.dliFname -> libs.length < max ->
        Exists fun after => addShlibIn max table call = .ok after ∧
          Holds after (if call.strdupOk then libs ++ [call.dli] else libs)) := by
  rcases holds.filled with ⟨unused, split, free⟩
  have size := table.size
  rw [split, List.length_append, List.length_map] at size
  have scanned := shlibScan_spec call.dli.dliFname libs unused free 0
  rw [← split, Nat.zero_add] at scanned
  refine ⟨fun known => ?_, fun new full => ?_, fun new room => ?_⟩
  · rw [if_pos known] at scanned
    rw [Backtrace.addShlibIn, scanned]
  · rw [if_neg new, if_pos (List.length_eq_zero_iff.mp (by omega)), full] at scanned
    rw [Backtrace.addShlibIn, scanned]
  · cases unused with
    | nil =>
        rw [List.length_nil] at size
        omega
    | cons slot rest =>
        rw [if_neg new, if_neg (List.cons_ne_nil slot rest)] at scanned
        refine ⟨_, by rw [Backtrace.addShlibIn, scanned]; exact if_neg (by omega), ?_⟩
        have freeRest : forall shlib, shlib ∈ rest -> shlib.shlName = none :=
          fun shlib member => free shlib (List.mem_cons_of_mem slot member)
        have written : forall slot' : Shlib, table.shlibs.set libs.length slot' =
            libs.map DlInfo.element ++ slot' :: rest := by
          intro slot'
          rw [split, List.set_append_right _ _ (Nat.le_of_eq (List.length_map _)), List.length_map,
            Nat.sub_self]
          rfl
        by_cases granted : call.strdupOk = true
        · simp only [if_pos granted]
          refine ⟨⟨rest, ?_, freeRest⟩, ?_⟩
          · rw [List.map_append, List.append_assoc]
            exact written _
          · rw [List.map_append]
            exact holds.distinct.append (List.nodup_singleton _)
              (fun name member same => new (List.mem_singleton.mp same ▸ member))
        · simp only [if_neg granted]
          refine ⟨⟨_, written _, fun shlib member => ?_⟩, holds.distinct⟩
          rcases List.mem_cons.mp member with here | later
          · rw [here]
          · exact freeRest shlib later

/-! ## Sequences of calls -/

/-- The array holds the first libraries seen, as many as it has room for. -/
def Tabulates {max : Nat} (table : ShlibTable max) (calls : List ShlibCall) : Prop :=
  Holds table ((seen calls).take max)

/-- All calls stay inside the array, and after each of them it holds what it should. -/
def KeepsTable {max : Nat}
    (add : ShlibTable max -> ShlibCall -> Except OutOfBounds (ShlibTable max))
    (calls : List ShlibCall) : Prop :=
  forall earlier, earlier <+: calls -> Exists fun table =>
    exec add (ShlibTable.init max) earlier = .ok table ∧ Tabulates table earlier

/-- There is room for every library, and each is copied where it is first named. -/
def HasRoom (max : Nat) (calls : List ShlibCall) : Prop :=
  (seen calls).length ≤ max ∧
    forall earlier call later, calls = earlier ++ call :: later ->
      call.dli.dliFname ∉ (seen earlier).map DlInfo.dliFname -> call.strdupOk = true

theorem keepsTable_nil {max : Nat}
    (add : ShlibTable max -> ShlibCall -> Except OutOfBounds (ShlibTable max)) :
    KeepsTable add [] := by
  intro earlier within
  rw [List.prefix_nil.mp within]
  refine ⟨ShlibTable.init max, rfl, ?_⟩
  rw [Tabulates, seen, List.map_nil, firstSeen, List.take_nil]
  exact holds_init max

theorem keepsTable_append_singleton {max : Nat}
    (add : ShlibTable max -> ShlibCall -> Except OutOfBounds (ShlibTable max))
    (calls : List ShlibCall) (call : ShlibCall) :
    KeepsTable add (calls ++ [call]) ↔ KeepsTable add calls ∧ Exists fun table =>
      exec add (ShlibTable.init max) (calls ++ [call]) = .ok table ∧
        Tabulates table (calls ++ [call]) := by
  constructor
  · intro keeps
    exact ⟨fun earlier within => keeps earlier (within.trans (List.prefix_append calls [call])),
      keeps _ (List.prefix_refl _)⟩
  · rintro ⟨keeps, whole⟩ earlier within
    rcases List.prefix_concat_iff.mp within with same | before
    · exact same ▸ whole
    · exact keeps earlier before

theorem hasRoom_append_singleton (max : Nat) (calls : List ShlibCall) (call : ShlibCall) :
    HasRoom max (calls ++ [call]) ↔ HasRoom max calls ∧
      (call.dli.dliFname ∉ (seen calls).map DlInfo.dliFname ->
        (seen calls).length < max ∧ call.strdupOk = true) := by
  rw [HasRoom, HasRoom, seen_append_singleton]
  constructor
  · rintro ⟨length, granted⟩
    refine ⟨⟨?_, fun earlier first later split new => ?_⟩, fun new => ⟨?_, ?_⟩⟩
    · split at length
      · exact length
      · rw [List.length_append] at length
        omega
    · exact granted earlier first (later ++ [call]) (by rw [split, List.append_assoc]; rfl) new
    · rw [if_neg new, List.length_append] at length
      exact length
    · exact granted calls call [] rfl new
  · rintro ⟨⟨length, granted⟩, last⟩
    refine ⟨?_, fun earlier first later split new => ?_⟩
    · split
      · exact length
      · next new =>
          rw [List.length_append]
          exact (last new).1
    · rcases List.eq_nil_or_concat' later with none | ⟨init, final, some⟩
      · rw [none] at split
        have parts := List.append_inj' split rfl
        rw [← parts.1, ← (List.cons.inj parts.2).1] at new
        rw [← (List.cons.inj parts.2).1]
        exact (last new).2
      · rw [some, ← List.cons_append, ← List.append_assoc] at split
        exact granted earlier first init (List.append_inj' split rfl).1 new

/-- The array is used within its bounds and holds the libraries seen exactly
if there is room for them. -/
theorem keepsTable_iff (max : Nat) (calls : List ShlibCall) :
    KeepsTable (addShlibIn max) calls ↔ HasRoom max calls := by
  induction calls using List.reverseRecOn with
  | nil =>
      refine iff_of_true (keepsTable_nil _) ⟨Nat.zero_le max, fun earlier call later split => ?_⟩
      exact absurd split.symm
        (List.append_ne_nil_of_right_ne_nil earlier (List.cons_ne_nil call later))
  | append_singleton calls call inductionHypothesis =>
      rw [keepsTable_append_singleton, hasRoom_append_singleton, inductionHypothesis]
      refine and_congr_right (fun room => ?_)
      rcases inductionHypothesis.mpr room calls (List.prefix_refl calls) with
        ⟨table, executed, tabulates⟩
      have whole : (seen calls).take max = seen calls := List.take_of_length_le room.1
      rw [Tabulates, whole] at tabulates
      have step := tabulates.addShlibIn call
      have last : exec (addShlibIn max) (ShlibTable.init max) (calls ++ [call]) =
          addShlibIn max table call := by
        rw [exec_append, executed]
        simp only [exec]
        cases addShlibIn max table call <;> rfl
      rw [last]
      by_cases known : call.dli.dliFname ∈ (seen calls).map DlInfo.dliFname
      · refine iff_of_true ⟨table, step.1 known, ?_⟩ (fun new => absurd known new)
        rw [Tabulates, seen_append_singleton, if_pos known, whole]
        exact tabulates
      · rcases Nat.lt_or_eq_of_le room.1 with less | full
        · rcases step.2.2 known less with ⟨after, added, holds⟩
          have fits : (seen calls ++ [call.dli]).take max = seen calls ++ [call.dli] :=
            List.take_of_length_le (by rw [List.length_append]; exact less)
          rw [added]
          simp only [Tabulates, seen_append_singleton, if_neg known, fits]
          constructor
          · rintro ⟨same, equal, tabulated⟩ -
            cases equal
            refine ⟨less, ?_⟩
            by_contra refused
            -- the name is missing from an array that should hold it
            rw [if_neg refused] at holds
            have lengths := congrArg List.length (holds.libs_eq.trans tabulated.libs_eq.symm)
            rw [List.length_append, List.length_singleton] at lengths
            omega
          · intro granted
            rw [if_pos (granted known).2] at holds
            exact ⟨after, rfl, holds⟩
        · have stopped := step.2.1 known full
          rw [stopped]
          constructor
          · rintro ⟨after, impossible, -⟩
            cases impossible
          · exact fun granted => absurd (granted known).1 (by omega)

/-! ## Collecting and printing a stack -/

/-- The static state of `backtrace.c`; `top` is given by its distance from `stack`. -/
structure BacktraceState (Syms : Type) where
  stack : List UInt64
  size : stack.length = maxStackDepth
  top : Nat
  syms : Option Syms
  done : Bool
  shlibs : ShlibTable maxStackDepth

/-- The state before the first signal. -/
def BacktraceState.init (Syms : Type) : BacktraceState Syms where
  stack := List.replicate maxStackDepth 0
  size := List.length_replicate
  top := 0
  syms := none
  done := false
  shlibs := ShlibTable.init maxStackDepth

/-- The functions that are called on a frame and on a library.  `strdup` answers
at each position of the walk. -/
structure Loader (Syms : Type) where
  dladdr : UInt64 -> Option DlInfo
  strdupOk : Nat -> Bool
  kelfOpen : List Char -> Option Syms -> UInt64 -> Option Syms
  kelfSnprintsym : Option Syms -> UInt64 -> List Char

section Stack

variable {Syms σ : Type}

/-- `collect_backtrace` -/
def collectBacktrace (state : BacktraceState Syms) (fp : UInt64) :
    Except OutOfBounds (BacktraceState Syms) :=
  if state.top < maxStackDepth then
    .ok { state with
      stack := state.stack.set state.top fp
      size := by rw [List.length_set, state.size]
      top := state.top + 1 }
  else .error ⟨state.top⟩

/-- `sigtrap_hndl`; the unwinder calls back for each of the frames. -/
def sigtrapHndl (state : BacktraceState Syms) (frames : List UInt64) :
    Except OutOfBounds (BacktraceState Syms) :=
  if state.done then .ok state
  else
    match exec collectBacktrace { state with top := 0 } frames with
    | .error stop => .error stop
    | .ok state => .ok { state with done := true }

/-- The loop `while (walk < top)` over the frames from `walk` on. -/
def walkStack (stack : List UInt64) (visit : Nat -> UInt64 -> σ -> Except OutOfBounds σ) :
    (room walk : Nat) -> σ -> Except OutOfBounds σ
  | 0, _, s => .ok s
  | room + 1, walk, s =>
      match stack[walk]? with
      | none => .error ⟨walk⟩
      | some frame =>
          match visit walk frame s with
          | .error stop => .error stop
          | .ok s => walkStack stack visit room (walk + 1) s

/-- The body of the first loop of `load_syms`. -/
def visitShlib (loader : Loader Syms) (walk : Nat) (frame : UInt64)
    (table : ShlibTable maxStackDepth) :
    Except OutOfBounds (ShlibTable maxStackDepth) :=
  match loader.dladdr frame with
  | none => .ok table
  | some dli => addShlib table ⟨dli, loader.strdupOk walk⟩

/-- The second loop of `load_syms`, over the elements from some index on. -/
def openShlibs (loader : Loader Syms) : List Shlib -> Option Syms -> Option Syms
  | [], syms => syms
  | shlib :: rest, syms =>
      match shlib.shlName with
      | none => syms
      | some name => openShlibs loader rest (loader.kelfOpen name syms shlib.shlBase)

/-- `load_syms` -/
def loadSyms (loader : Loader Syms) (state : BacktraceState Syms) :
    Except OutOfBounds (BacktraceState Syms) :=
  match walkStack state.stack (visitShlib loader) state.top 0 state.shlibs with
  | .error stop => .error stop
  | .ok table =>
    .ok { state with shlibs := table, syms := openShlibs loader table.shlibs state.syms }

/-- `bt_print_stack`: what is printed, frame by frame. -/
def btPrintStack (loader : Loader Syms) (state : BacktraceState Syms) :
    Except OutOfBounds (BacktraceState Syms × List (List Char)) :=
  match if state.syms.isNone then loadSyms loader state else .ok state with
  | .error stop => .error stop
  | .ok state =>
      match walkStack state.stack
        (fun _ frame printed => .ok (printed ++ [loader.kelfSnprintsym state.syms frame]))
        state.top 0 [] with
      | .error stop => .error stop
      | .ok printed => .ok (state, printed)

/-- The stack holds these frames. -/
def Collected (state : BacktraceState Syms) (frames : List UInt64) : Prop :=
  state.top = frames.length ∧ frames.length ≤ maxStackDepth ∧
    forall i, i < frames.length -> state.stack[i]? = frames[i]?

theorem Collected.append_singleton {state : BacktraceState Syms} {frames : List UInt64}
    (collected : Collected state frames) (fp : UInt64) (room : frames.length < maxStackDepth) :
    Exists fun after => collectBacktrace state fp = .ok after ∧ after.syms = state.syms ∧
      after.shlibs = state.shlibs ∧ Collected after (frames ++ [fp]) := by
  rcases collected with ⟨top, -, words⟩
  rw [collectBacktrace, if_pos (by rw [top]; exact room)]
  refine ⟨_, rfl, rfl, rfl, ?_, ?_, fun i inside => ?_⟩
  · rw [List.length_append, List.length_singleton, ← top]
  · rw [List.length_append, List.length_singleton]
    exact room
  · rw [List.length_append, List.length_singleton] at inside
    change (state.stack.set state.top fp)[i]? = _
    rw [List.getElem?_set, top, state.size]
    by_cases last : frames.length = i
    · rw [if_pos last, if_pos room, ← last, List.getElem?_append_right (Nat.le_refl _),
        Nat.sub_self,
        List.getElem?_cons_zero]
    · have before : i < frames.length := by omega
      rw [if_neg last, List.getElem?_append_left before]
      exact words i before

/-- Collecting goes on while there is room, and writes past the array after that. -/
theorem Collected.exec_collect {state : BacktraceState Syms} {before : List UInt64}
    (collected : Collected state before) (frames : List UInt64) :
    (before.length + frames.length ≤ maxStackDepth -> Exists fun after =>
      exec collectBacktrace state frames = .ok after ∧ after.syms = state.syms ∧
        after.shlibs = state.shlibs ∧ Collected after (before ++ frames)) ∧
      (maxStackDepth < before.length + frames.length ->
        exec collectBacktrace state frames = .error ⟨maxStackDepth⟩) := by
  induction frames generalizing state before with
  | nil =>
      refine ⟨fun _ => ⟨state, rfl, rfl, rfl, ?_⟩, fun beyond => ?_⟩
      · rw [List.append_nil]
        exact collected
      · exact absurd beyond (Nat.not_lt.mpr collected.2.1)
  | cons fp rest inductionHypothesis =>
      rw [List.length_cons, exec]
      rcases Nat.lt_or_eq_of_le collected.2.1 with room | full
      · rcases collected.append_singleton fp room with ⟨next, stepped, syms, shlibs, onward⟩
        have rest := inductionHypothesis onward
        rw [List.length_append, List.length_singleton] at rest
        rw [stepped]
        refine ⟨fun fits => ?_, fun beyond => rest.2 (by omega)⟩
        rcases rest.1 (by omega) with ⟨after, executed, symsAfter, shlibsAfter, final⟩
        refine ⟨after, executed, symsAfter.trans syms, shlibsAfter.trans shlibs, ?_⟩
        rw [List.append_assoc] at final
        exact final
      · refine ⟨fun fits => by omega, fun _ => ?_⟩
        have top : state.top = maxStackDepth := collected.1.trans full
        rw [collectBacktrace, if_neg (by rw [top]; exact Nat.lt_irrefl _), top]

/-- A walk over collected frames visits them in order. -/
theorem Collected.walkStack {state : BacktraceState Syms} {frames : List UInt64}
    (collected : Collected state frames) (visit : Nat -> UInt64 -> σ -> Except OutOfBounds σ)
    (invariant : Nat -> σ -> Prop)
    (kept : forall walk frame s, frames[walk]? = some frame -> invariant walk s ->
      Exists fun s' => visit walk frame s = .ok s' ∧ invariant (walk + 1) s')
    (room walk : Nat) (s : σ) (split : walk + room = frames.length) (holds : invariant walk s) :
    Exists fun s' => Backtrace.walkStack state.stack visit room walk s = .ok s' ∧
      invariant frames.length s' := by
  induction room generalizing walk s with
  | zero => exact ⟨s, rfl, split ▸ holds⟩
  | succ room inductionHypothesis =>
      have inside : walk < frames.length := by omega
      have word := collected.2.2 walk inside
      rw [List.getElem?_eq_getElem inside] at word
      rcases kept walk _ s (List.getElem?_eq_getElem inside) holds with ⟨next, visited, onward⟩
      rw [Backtrace.walkStack, word]
      simp only [visited]
      exact inductionHypothesis (walk + 1) next (by omega) onward

/-- A library for each frame at most fits the array. -/
theorem Collected.loadSyms {state : BacktraceState Syms} {frames : List UInt64}
    (collected : Collected state frames) (fresh : Holds state.shlibs []) (loader : Loader Syms) :
    Exists fun after => Backtrace.loadSyms loader state = .ok after ∧ Collected after frames := by
  have loaded := collected.walkStack (visitShlib loader)
    (fun walk table => Exists fun libs => Holds table libs ∧ libs.length ≤ walk)
    (fun walk frame table found holds => by
      rcases holds with ⟨libs, holds, few⟩
      have inside : walk < frames.length := (List.getElem?_eq_some_iff.mp found).1
      have bound := collected.2.1
      rw [visitShlib]
      cases loader.dladdr frame with
      | none => exact ⟨table, rfl, libs, holds, by omega⟩
      | some dli =>
          have step := holds.addShlibIn ⟨dli, loader.strdupOk walk⟩
          by_cases known : dli.dliFname ∈ libs.map DlInfo.dliFname
          · exact ⟨table, step.1 known, libs, holds, by omega⟩
          · rcases step.2.2 known (by omega) with ⟨after, added, holdsAfter⟩
            refine ⟨after, added, _, holdsAfter, ?_⟩
            split
            · rw [List.length_append, List.length_singleton]
              omega
            · omega)
    state.top 0 state.shlibs (by rw [Nat.zero_add, collected.1]) ⟨[], fresh, Nat.le_refl 0⟩
  rcases loaded with ⟨table, walked, -⟩
  rw [Backtrace.loadSyms, walked]
  exact ⟨_, rfl, collected⟩

/-- Collected frames are printed in order. -/
theorem Collected.btPrintStack {state : BacktraceState Syms} {frames : List UInt64}
    (collected : Collected state frames) (fresh : Holds state.shlibs []) (loader : Loader Syms) :
    Exists fun after => Backtrace.btPrintStack loader state =
      .ok (after, frames.map (loader.kelfSnprintsym after.syms)) := by
  have loaded : Exists fun after : BacktraceState Syms =>
      (if state.syms.isNone then Backtrace.loadSyms loader state else .ok state) = .ok after ∧
        Collected after frames := by
    split
    · exact collected.loadSyms fresh loader
    · exact ⟨state, rfl, collected⟩
  rcases loaded with ⟨after, ready, kept⟩
  have walked := kept.walkStack
    (fun _ frame printed => .ok (printed ++ [loader.kelfSnprintsym after.syms frame]))
    (fun walk printed => printed = (frames.take walk).map (loader.kelfSnprintsym after.syms))
    (fun walk frame printed found holds => by
      refine ⟨_, rfl, ?_⟩
      rw [holds, List.take_add_one, found, List.map_append]
      rfl)
    after.top 0 [] (by rw [Nat.zero_add, kept.1]) rfl
  rcases walked with ⟨printed, done, text⟩
  rw [List.take_length] at text
  refine ⟨after, ?_⟩
  rw [Backtrace.btPrintStack, ready]
  simp only [done, text]

/-- A backtrace is collected and its first frames, up to the capacity, are printed. -/
def PrintsStack (loader : Loader Syms) (frames : List UInt64) : Prop :=
  Exists fun state => Exists fun after =>
    sigtrapHndl (BacktraceState.init Syms) frames = .ok state ∧
      btPrintStack loader state =
        .ok (after, (frames.take maxStackDepth).map (loader.kelfSnprintsym after.syms))

theorem collected_init : Collected (BacktraceState.init Syms) [] :=
  ⟨rfl, Nat.zero_le _, fun i impossible => absurd impossible (Nat.not_lt_zero i)⟩

theorem printsStack_iff (loader : Loader Syms) (frames : List UInt64) :
    PrintsStack loader frames ↔ frames.length ≤ maxStackDepth := by
  have collecting := (@collected_init Syms).exec_collect frames
  rw [List.length_nil, Nat.zero_add, List.nil_append] at collecting
  have handler : sigtrapHndl (BacktraceState.init Syms) frames =
      match exec collectBacktrace (BacktraceState.init Syms) frames with
      | .error stop => .error stop
      | .ok state => .ok { state with done := true } := rfl
  constructor
  · rintro ⟨state, after, handled, -⟩
    by_contra beyond
    rw [handler, collecting.2 (Nat.not_le.mp beyond)] at handled
    cases handled
  · intro fits
    rcases collecting.1 fits with ⟨state, executed, -, shlibs, collected⟩
    have collected' : Collected { state with done := true } frames := collected
    rcases collected'.btPrintStack (by rw [shlibs]; exact holds_init maxStackDepth) loader with
      ⟨after, printed⟩
    refine ⟨{ state with done := true }, after, ?_, ?_⟩
    · rw [handler, executed]
    · rw [printed, List.take_of_length_le fits]

end Stack

/-- The arrays of both programs are used within their bounds and hold what
they should, exactly as long as the frames and the libraries fit them. -/
theorem tables_within_bounds_iff (Syms : Type) (loader : Loader Syms) (frames : List UInt64)
    (calls : List ShlibCall) :
    (PrintsStack loader frames ↔ frames.length ≤ 64) ∧
      (KeepsTable addShlib calls ↔ HasRoom 64 calls) ∧
      (KeepsTable recordAddShlib calls ↔ HasRoom 32 calls) := by
  constructor
  · exact printsStack_iff loader frames
  · constructor
    · exact keepsTable_iff maxStackDepth calls
    · exact keepsTable_iff maxShlibs calls

/-- Calls with this many names, each of them copied. -/
def differentLibraries (count : Nat) : List ShlibCall :=
  (List.range count).map (fun i => ⟨⟨List.replicate i 'a', 0⟩, true⟩)

/-- A stack of 65 frames, and one library more than an array holds. -/
theorem tables_not_within_bounds :
    (¬ forall (loader : Loader Unit) (frames : List UInt64), PrintsStack loader frames) ∧
    (¬ forall calls : List ShlibCall, (forall call, call ∈ calls -> call.strdupOk = true) ->
      KeepsTable addShlib calls) ∧
    (¬ forall calls : List ShlibCall, (forall call, call ∈ calls -> call.strdupOk = true) ->
      KeepsTable recordAddShlib calls) := by
  have copied : forall count call, call ∈ differentLibraries count -> call.strdupOk = true := by
    intro count call member
    rcases List.mem_map.mp member with ⟨i, -, rfl⟩
    rfl
  refine ⟨fun always => ?_, fun always => ?_, fun always => ?_⟩
  · have fits :=
      (printsStack_iff
        (⟨fun _ => none, fun _ => true, fun _ _ _ => none, fun _ _ => []⟩ : Loader Unit)
      (List.replicate 65 0)).mp (always _ _)
    rw [List.length_replicate] at fits
    exact absurd fits (by decide)
  · have room := (keepsTable_iff maxStackDepth _).mp (always (differentLibraries 65) (copied 65))
    exact absurd room.1 (by decide +kernel)
  · have room := (keepsTable_iff maxShlibs _).mp (always (differentLibraries 33) (copied 33))
    exact absurd room.1 (by decide +kernel)

end Backtrace
end OsslScripts
