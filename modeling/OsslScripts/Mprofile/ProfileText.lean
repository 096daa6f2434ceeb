import OsslScripts.Foundation.Json
import OsslScripts.Mprofile.CallStacks
import OsslScripts.Mprofile.Save

namespace OsslScripts
namespace Mprofile

open Foundation

/-!
# The text of a profile

What `profile_save` prints, character by character, and what a JSON reader makes
of it.  Three schemes put the commas: a record that is not the first closes the
one before it, a stack is followed by a comma if there is a next one, and every
frame has a comma behind it, so that the trace ends with an empty string.

The text of a frame is what `kelf_snprintsym` leaves in the buffer of
`print_trace`.  Any function from frames to texts will do here.
-/

/-! ## `record.c` -/

def mprofileRecId : String := "\"id\""
def mprofileRecMem : String := "\"addr\""
def mprofileRecRealloc : String := "\"realloc\""
def mprofileRecDelta : String := "\"delta_sz\""
def mprofileRecState : String := "\"state\""
def mprofileRecStackId : String := "\"stack_id\""
def mprofileRecNextId : String := "\"next_id\""
def mprofileRecPrevId : String := "\"prev_id\""
def mprofileTimestamp : String := "\"time\""
def mprofileTimeS : String := "\"s\""
def mprofileTimeNs : String := "\"ns\""

/-- `fprintf` of a key and of an integer, whatever its conversion: `indent`
stands before the key, and `stop` after the number. -/
def printNumber (indent key : String) (value : Int) (stop : String) : List Char :=
  (indent.toList ++ key.toList ++ " : ".toList) ++ Json.decimal value ++ stop.toList

/-- The word for `mpr_state`. -/
def stateText : RecordState -> String
  | .alloc => "\"allocated\""
  | .free => "\"free\""
  | .realloc => "\"realloc\""

/-- `print_mprofile_record`, one element for each `fprintf`.  The brace that closes
the record is left to the caller. -/
def printMprofileRecord (mpr : MprofileRecord) : List Char :=
  [ "\t\x7b\n".toList,
    printNumber "\t\t" mprofileRecId mpr.mprId ",\n",
    printNumber "\t\t" mprofileRecMem mpr.mprMem.toNat ",\n",
    printNumber "\t\t" mprofileRecRealloc mpr.mprRealloc.toNat ",\n",
    printNumber "\t\t" mprofileRecDelta mpr.mprDelta ",\n",
    "\t\t".toList ++ mprofileRecState.toList ++ " : ".toList ++ (stateText mpr.mprState).toList ++
      ",\n".toList,
    printNumber "\t\t" mprofileRecNextId mpr.mprNextId ",\n",
    printNumber "\t\t" mprofileRecPrevId mpr.mprPrevId ",\n",
    printNumber "\t\t" mprofileRecStackId mpr.mprStackId ",\n",
    "\t\t".toList ++ mprofileTimestamp.toList ++ " : \x7b\n".toList,
    printNumber "\t\t\t" mprofileTimeS mpr.mprTs.tvSec ",\n",
    printNumber "\t\t\t" mprofileTimeNs mpr.mprTs.tvNsec "\n",
    "\t\t\x7d\n".toList ].flatten

/-- The `TAILQ_FOREACH` of `profile_save`, and the test of `first` after it. -/
def printRecords : (first : Bool) -> List MprofileRecord -> List Char
  | first, [] => if first then [] else "\t\x7d\n".toList
  | first, mpr :: rest =>
      (if first then [] else "\t\x7d,\n".toList) ++ printMprofileRecord mpr ++
        printRecords false rest

section Stacks

variable (symbolText : UInt64 -> List Char)

/-- `print_trace` -/
def printTrace (frame : UInt64) : List Char := '"' :: symbolText frame ++ "\", ".toList

/-- The text of `print_stack`. -/
def printStackText (mps : MprofileStack) : List Char :=
  [ "\t\x7b\n".toList,
    printNumber "\t\t" "\"id\"" mps.mpsId ",\n",
    printNumber "\t\t" "\"stack_count\"" mps.mpsCount ",\n",
    printNumber "\t\t" "\"thread_id\"" mps.mpsThread ",\n",
    "\t\t\"stack_trace\" : [ ".toList,
    mps.frames.flatMap (printTrace symbolText),
    "\"\" ]\n".toList,
    "\t\x7d".toList ].flatten

/-- `mprofile_get_next_stack` on the tree of a set, in its order.  0 is null. -/
def mprofileGetNextStack (rbh : List Nat) (mps : Nat) : Nat :=
  if mps = 0 then rbh.headD 0 else (rbh.dropWhile (fun p => p ≠ mps)).tail.headD 0

/-- The `while` loop of `profile_save`, if it ends within the fuel. -/
def printStacks (heap : StackHeap) (rbh : List Nat) : (fuel : Nat) -> Nat -> Option (List Char)
  | 0, _ => none
  | fuel + 1, stack =>
      if stack = 0 then some []
      else
        let next := mprofileGetNextStack rbh stack
        (printStacks heap rbh fuel next).map (fun rest =>
          printStackText symbolText (heap.mps stack) ++
            ((if next ≠ 0 then ",\n".toList else []) ++ rest))

/-- The tree that `profile_save` walks.  A null set has no first stack. -/
def Profile.stackTree (mp : Profile) (heap : StackHeap) : List Nat :=
  if mp.mpStset = 0 then [] else (heap.stset mp.mpStset).stsetRbh

/-- `profile_save` around its stacks. -/
def profileText (startTime : Timespec) (note : List Char) (log : List MprofileRecord)
    (printed : List Char) : List Char :=
  [ "\x7b \"start_time\" : \x7b\n".toList,
    printNumber "\t" mprofileTimeS startTime.tvSec ",\n",
    printNumber "\t" mprofileTimeNs startTime.tvNsec "\n",
    "  \x7d,\n".toList,
    "\t\"annotation\" : \"".toList ++ note ++ "\",\n".toList,
    "  \"allocations\" : [\n".toList,
    printRecords true log,
    "],\n".toList,
    " \"stacks\" : [\n".toList,
    printed,
    "\n]\x7d".toList ].flatten

/-- `profile_save` for an open file. -/
def printProfile (startTime : Timespec) (note : List Char) (heap : StackHeap) (mp : Profile) :
    Option (List Char) :=
  let rbh := mp.stackTree heap
  (printStacks symbolText heap rbh (rbh.length + 1) (mprofileGetNextStack rbh 0)).map
    (profileText startTime note mp.mpTqhead)

end Stacks

/-! ## The reader -/

/-- A stack as the reader has it, its trace as `get_trace` delivers it. -/
structure ReadStack where
  id : Nat
  stackCount : Nat
  threadId : Nat
  trace : List (List Nat)
deriving DecidableEq, Repr

/-- A profile as the reader has it. -/
structure ReadProfile where
  startTime : Timespec
  annotation : List Nat
  allocations : List MprofileRecord
  stackList : List ReadStack
deriving DecidableEq, Repr

open Json in
def readTime (value : Value) : Option Timespec := do
  let s ← (← value.member "s").integer
  let ns ← (← value.member "ns").natural
  return ⟨s, ns⟩

/-- `is_alloc`, `is_free` and `is_realloc` -/
def readState (word : List Nat) : Option RecordState :=
  if word = Json.points "allocated".toList then some .alloc
  else if word = Json.points "free".toList then some .free
  else if word = Json.points "realloc".toList then some .realloc
  else none

open Json in
def readRecord (value : Value) : Option MprofileRecord := do
  let mprId ← (← value.member "id").natural
  let mprMem ← (← value.member "addr").word
  let mprRealloc ← (← value.member "realloc").word
  let mprDelta ← (← value.member "delta_sz").integer
  let mprState ← readState (← (← value.member "state").text)
  let mprStackId ← (← value.member "stack_id").natural
  let mprPrevId ← (← value.member "prev_id").natural
  let mprNextId ← (← value.member "next_id").natural
  let mprTs ← readTime (← value.member "time")
  return ⟨mprId, mprMem, mprRealloc, mprDelta, mprState, mprStackId, mprPrevId, mprNextId, mprTs⟩

open Json in
def readStack (value : Value) : Option ReadStack := do
  let id ← (← value.member "id").natural
  let stackCount ← (← value.member "stack_count").natural
  let threadId ← (← value.member "thread_id").natural
  let stackTrace ← (← (← value.member "stack_trace").elements).mapM Value.text
  -- `get_trace`
  return ⟨id, stackCount, threadId, stackTrace.dropLast⟩

open Json in
def readProfile (value : Value) : Option ReadProfile := do
  let startTime ← readTime (← value.member "start_time")
  let note ← (← value.member "annotation").text
  let allocations ← (← (← value.member "allocations").elements).mapM readRecord
  let stackList ← (← (← value.member "stacks").elements).mapM readStack
  return ⟨startTime, note, allocations, stackList⟩

/-! ## Tokens and values -/

section Tokens

open Json

/-- The tokens of a member with a numeric value, and of what stands behind it. -/
def numberTokens (key : String) (value : Int) (stop : List Token) : List Token :=
  .string (points key.toList) :: .colon :: .number value 0 :: stop

/-- The text of the state, without its quotes. -/
def stateWord : RecordState -> List Nat
  | .alloc => points "allocated".toList
  | .free => points "free".toList
  | .realloc => points "realloc".toList

/-- What `print_mprofile_record` prints: the closing brace is missing. -/
def recordTokens (mpr : MprofileRecord) : List Token :=
  [ [.openBrace],
    numberTokens "id" mpr.mprId [.comma],
    numberTokens "addr" mpr.mprMem.toNat [.comma],
    numberTokens "realloc" mpr.mprRealloc.toNat [.comma],
    numberTokens "delta_sz" mpr.mprDelta [.comma],
    [.string (points "state".toList), .colon, .string (stateWord mpr.mprState), .comma],
    numberTokens "next_id" mpr.mprNextId [.comma],
    numberTokens "prev_id" mpr.mprPrevId [.comma],
    numberTokens "stack_id" mpr.mprStackId [.comma],
    [.string (points "time".toList), .colon, .openBrace],
    numberTokens "s" mpr.mprTs.tvSec [.comma],
    numberTokens "ns" mpr.mprTs.tvNsec [],
    [.closeBrace] ].flatten

def timeValue (ts : Timespec) : Value :=
  .object [(points "s".toList, .number ts.tvSec 0), (points "ns".toList, .number ts.tvNsec 0)]

def recordValue (mpr : MprofileRecord) : Value :=
  .object [(points "id".toList, .number mpr.mprId 0),
    (points "addr".toList, .number mpr.mprMem.toNat 0),
    (points "realloc".toList, .number mpr.mprRealloc.toNat 0),
    (points "delta_sz".toList, .number mpr.mprDelta 0),
    (points "state".toList, .string (stateWord mpr.mprState)),
    (points "next_id".toList, .number mpr.mprNextId 0),
    (points "prev_id".toList, .number mpr.mprPrevId 0),
    (points "stack_id".toList, .number mpr.mprStackId 0),
      (points "time".toList, timeValue mpr.mprTs)]

/-- The elements of a trace: the frames, and the empty string. -/
def traceTexts (symbolText : UInt64 -> List Char) (mps : MprofileStack) : List (List Nat) :=
  mps.frames.map (fun frame => points (symbolText frame)) ++ [[]]

def stackTokens (symbolText : UInt64 -> List Char) (mps : MprofileStack) : List Token :=
  [ [.openBrace],
    numberTokens "id" mps.mpsId [.comma],
    numberTokens "stack_count" mps.mpsCount [.comma],
    numberTokens "thread_id" mps.mpsThread [.comma],
    [.string (points "stack_trace".toList), .colon, .openBracket],
    mps.frames.flatMap (fun frame => [.string (points (symbolText frame)), .comma]),
    [.string [], .closeBracket],
    [.closeBrace] ].flatten

def stackValue (symbolText : UInt64 -> List Char) (mps : MprofileStack) : Value :=
  .object [(points "id".toList, .number mps.mpsId 0),
    (points "stack_count".toList, .number mps.mpsCount 0),
    (points "thread_id".toList, .number mps.mpsThread 0),
    (points "stack_trace".toList, .array ((traceTexts symbolText mps).map Value.string))]

/-! ## Scanning -/

theorem scans_number (indent key name : String) (value : Int)
    (before : Scans (indent.toList ++ key.toList ++ " : ".toList)
      [.string (points name.toList), .colon]) :
    Scans (printNumber indent key value ",\n") (numberTokens name value [.comma]) ∧
      Scans (printNumber indent key value "\n") (numberTokens name value []) := by
  have newline : Scans ['\n'] [] := rfl
  have withComma := (before.append (Scans.decimal_comma value)).append newline
  have without := before.append (Scans.decimal_newline value)
  refine ⟨?_, ?_⟩
  · have text : printNumber indent key value ",\n" =
        indent.toList ++ key.toList ++ " : ".toList ++ (Json.decimal value ++ [',']) ++ ['\n'] := by
      simp [printNumber]
    rw [text]
    exact withComma
  · have text : printNumber indent key value "\n" =
        indent.toList ++ key.toList ++ " : ".toList ++ (Json.decimal value ++ ['\n']) := by
      simp [printNumber]
    rw [text]
    exact without

theorem scans_state (state : RecordState) :
    Scans ("\t\t".toList ++ mprofileRecState.toList ++ " : ".toList ++ (stateText state).toList ++
      ",\n".toList) [.string (points "state".toList), .colon, .string (stateWord state),
        .comma] := by
  cases state <;> rfl

theorem scans_printMprofileRecord (mpr : MprofileRecord) :
    Scans (printMprofileRecord mpr) (recordTokens mpr) := by
  apply Scans.flatten
  refine .cons rfl ?_
  refine .cons (scans_number "\t\t" mprofileRecId "id" mpr.mprId rfl).1 ?_
  refine .cons (scans_number "\t\t" mprofileRecMem "addr" mpr.mprMem.toNat rfl).1 ?_
  refine .cons (scans_number "\t\t" mprofileRecRealloc "realloc" mpr.mprRealloc.toNat rfl).1 ?_
  refine .cons (scans_number "\t\t" mprofileRecDelta "delta_sz" mpr.mprDelta rfl).1 ?_
  refine .cons (scans_state mpr.mprState) ?_
  refine .cons (scans_number "\t\t" mprofileRecNextId "next_id" mpr.mprNextId rfl).1 ?_
  refine .cons (scans_number "\t\t" mprofileRecPrevId "prev_id" mpr.mprPrevId rfl).1 ?_
  refine .cons (scans_number "\t\t" mprofileRecStackId "stack_id" mpr.mprStackId rfl).1 ?_
  refine .cons rfl ?_
  refine .cons (scans_number "\t\t\t" mprofileTimeS "s" mpr.mprTs.tvSec rfl).1 ?_
  refine .cons (scans_number "\t\t\t" mprofileTimeNs "ns" mpr.mprTs.tvNsec rfl).2 ?_
  exact .cons rfl .nil

/-- The records after the first, each of which closes the one before it. -/
theorem scans_printRecords_rest (log : List MprofileRecord) :
    Scans (printRecords false log)
      (.closeBrace :: log.flatMap (fun mpr => .comma :: (recordTokens mpr ++ [.closeBrace]))) := by
  induction log with
  | nil => rfl
  | cons mpr rest inductionHypothesis =>
      have separator : Scans "\t\x7d,\n".toList [.closeBrace, .comma] := rfl
      have whole := (separator.append (scans_printMprofileRecord mpr)).append inductionHypothesis
      rw [List.flatMap_cons, List.cons_append, List.append_assoc]
      exact whole

/-- The records of a profile between the brackets. -/
theorem scans_printRecords (log : List MprofileRecord) :
    Scans (printRecords true log)
      (separated (log.map (fun mpr => recordTokens mpr ++ [.closeBrace]))) := by
  cases log with
  | nil => rfl
  | cons mpr rest =>
      have whole := (scans_printMprofileRecord mpr).append (scans_printRecords_rest rest)
      rw [List.map_cons, separated, List.flatMap_map, List.append_assoc]
      exact whole

section Traces

variable {symbolText : UInt64 -> List Char}

theorem scans_printTraces {frames : List UInt64}
    (plain : forall frame, frame ∈ frames -> Plain (symbolText frame)) :
    Scans (frames.flatMap (printTrace symbolText))
      (frames.flatMap (fun frame => [.string (points (symbolText frame)), .comma])) := by
  induction frames with
  | nil => rfl
  | cons frame rest inductionHypothesis =>
      have separator : Scans [',', ' '] [.comma] := rfl
      have one := (Scans.string (plain frame List.mem_cons_self)).append separator
      have text : printTrace symbolText frame = '"' :: symbolText frame ++ ['"'] ++ [',', ' '] := by
        simp [printTrace]
      rw [List.flatMap_cons, List.flatMap_cons, text]
      exact one.append
        (inductionHypothesis (fun other member => plain other (List.mem_cons_of_mem frame member)))

theorem scans_printStackText {mps : MprofileStack}
    (plain : forall frame, frame ∈ mps.frames -> Plain (symbolText frame)) :
    Scans (printStackText symbolText mps) (stackTokens symbolText mps) := by
  apply Scans.flatten
  refine .cons rfl ?_
  refine .cons (scans_number "\t\t" "\"id\"" "id" mps.mpsId rfl).1 ?_
  refine .cons (scans_number "\t\t" "\"stack_count\"" "stack_count" mps.mpsCount rfl).1 ?_
  refine .cons (scans_number "\t\t" "\"thread_id\"" "thread_id" mps.mpsThread rfl).1 ?_
  refine .cons rfl ?_
  refine .cons (scans_printTraces plain) ?_
  refine .cons rfl ?_
  exact .cons rfl .nil

end Traces

/-! ## Parsing -/

theorem delivers_record (mpr : MprofileRecord) :
    Delivers (recordTokens mpr ++ [.closeBrace]) (recordValue mpr) :=
  fun _ => rfl

theorem delivers_records (log : List MprofileRecord) :
    List.Forall₂ Delivers (log.map (fun mpr => recordTokens mpr ++ [.closeBrace]))
      (log.map recordValue) := by
  induction log with
  | nil => exact .nil
  | cons mpr rest inductionHypothesis => exact .cons (delivers_record mpr) inductionHypothesis

/-- The frames and the empty string behind their commas are one array. -/
theorem delivers_trace (symbolText : UInt64 -> List Char) (mps : MprofileStack) :
    Delivers (.openBracket ::
        mps.frames.flatMap (fun frame => [.string (points (symbolText frame)), .comma]) ++
      [.string [], .closeBracket]) (.array ((traceTexts symbolText mps).map Value.string)) := by
  have elements : forall texts : List (List Nat), List.Forall₂ Delivers
      (texts.map (fun text => [Token.string text])) (texts.map Value.string) := by
    intro texts
    induction texts with
    | nil => exact .nil
    | cons text rest inductionHypothesis => exact .cons (fun _ => rfl) inductionHypothesis
  have whole := Delivers.list (elements (traceTexts symbolText mps))
  have tokens : separated ((traceTexts symbolText mps).map (fun text => [Token.string text])) =
      mps.frames.flatMap (fun frame => [.string (points (symbolText frame)), .comma]) ++
          [.string []] := by
    rw [traceTexts, List.map_append, List.map_singleton, separated_concat, List.map_map,
      List.flatMap_map]
    rfl
  rw [tokens, ← List.cons_append, List.append_assoc] at whole
  exact whole

theorem delivers_stack (symbolText : UInt64 -> List Char) (mps : MprofileStack) :
    Delivers (stackTokens symbolText mps) (stackValue symbolText mps) := by
  intro open_
  have start : parseRun (.value open_) [ [.openBrace], numberTokens "id" mps.mpsId [.comma],
      numberTokens "stack_count" mps.mpsCount [.comma],
      numberTokens "thread_id" mps.mpsThread [.comma],
      [.string (points "stack_trace".toList), .colon] ].flatten =
        some (.value (.object [(points "thread_id".toList, .number mps.mpsThread 0),
          (points "stack_count".toList, .number mps.mpsCount 0),
            (points "id".toList, .number mps.mpsId 0)]
          (points "stack_trace".toList) :: open_)) := rfl
  have tokens : stackTokens symbolText mps =
      [ [.openBrace], numberTokens "id" mps.mpsId [.comma],
        numberTokens "stack_count" mps.mpsCount [.comma],
        numberTokens "thread_id" mps.mpsThread [.comma],
        [.string (points "stack_trace".toList), .colon] ].flatten ++
      ((.openBracket :: mps.frames.flatMap
        (fun frame => [.string (points (symbolText frame)), .comma]) ++
        [.string [], .closeBracket]) ++ [.closeBrace]) := by
    simp [stackTokens]
  rw [tokens, parseRun_append, start]
  change parseRun _ _ = _
  rw [(delivers_trace symbolText mps).followed]
  rfl

/-! ## Reading -/

theorem readTime_timeValue (ts : Timespec) : readTime (timeValue ts) = some ts := by
  have seconds : (timeValue ts).member "s" = some (.number ts.tvSec 0) := rfl
  have nanoseconds : (timeValue ts).member "ns" = some (.number ts.tvNsec 0) := rfl
  simp only [readTime, seconds, nanoseconds, Option.bind_eq_bind, Option.bind_some,
    Value.integer_number,
    Value.natural_number, Option.pure_def]

theorem readState_stateWord (state : RecordState) : readState (stateWord state) = some state := by
  cases state <;> rfl

theorem readRecord_recordValue (mpr : MprofileRecord) :
    readRecord (recordValue mpr) = some mpr := by
  have members : (recordValue mpr).member "id" = some (.number mpr.mprId 0) ∧
      (recordValue mpr).member "addr" = some (.number mpr.mprMem.toNat 0) ∧
      (recordValue mpr).member "realloc" = some (.number mpr.mprRealloc.toNat 0) ∧
      (recordValue mpr).member "delta_sz" = some (.number mpr.mprDelta 0) ∧
      (recordValue mpr).member "state" = some (.string (stateWord mpr.mprState)) ∧
      (recordValue mpr).member "stack_id" = some (.number mpr.mprStackId 0) ∧
      (recordValue mpr).member "prev_id" = some (.number mpr.mprPrevId 0) ∧
      (recordValue mpr).member "next_id" = some (.number mpr.mprNextId 0) ∧
      (recordValue mpr).member "time" = some (timeValue mpr.mprTs) :=
    ⟨rfl, rfl, rfl, rfl, rfl, rfl, rfl, rfl, rfl⟩
  simp only [readRecord, members, Option.bind_eq_bind, Option.bind_some, Value.natural_number,
    Value.word_number, Value.integer_number, Value.text, readState_stateWord, readTime_timeValue,
    Option.pure_def]

/-- What the reader makes of a stack. -/
def MprofileStack.asRead (symbolText : UInt64 -> List Char) (mps : MprofileStack) : ReadStack :=
  ⟨mps.mpsId, mps.mpsCount, mps.mpsThread, mps.frames.map (fun frame => points (symbolText frame))⟩

theorem mapM_text (texts : List (List Nat)) :
    (texts.map Value.string).mapM Value.text = some texts := by
  induction texts with
  | nil => rfl
  | cons text rest inductionHypothesis =>
      rw [List.map_cons, List.mapM_cons, inductionHypothesis]
      rfl

theorem readStack_stackValue (symbolText : UInt64 -> List Char) (mps : MprofileStack) :
    readStack (stackValue symbolText mps) = some (mps.asRead symbolText) := by
  have members : (stackValue symbolText mps).member "id" = some (.number mps.mpsId 0) ∧
      (stackValue symbolText mps).member "stack_count" = some (.number mps.mpsCount 0) ∧
      (stackValue symbolText mps).member "thread_id" = some (.number mps.mpsThread 0) ∧
      (stackValue symbolText mps).member "stack_trace" =
        some (.array ((traceTexts symbolText mps).map Value.string)) := ⟨rfl, rfl, rfl, rfl⟩
  have trace : (traceTexts symbolText mps).dropLast =
      mps.frames.map (fun frame => points (symbolText frame)) := List.dropLast_concat
  simp only [readStack, members, Option.bind_eq_bind, Option.bind_some, Value.natural_number,
    Value.elements, mapM_text, trace, MprofileStack.asRead, Option.pure_def]

theorem mapM_readRecord (log : List MprofileRecord) :
    (log.map recordValue).mapM readRecord = some log := by
  induction log with
  | nil => rfl
  | cons mpr rest inductionHypothesis =>
      rw [List.map_cons, List.mapM_cons, readRecord_recordValue, inductionHypothesis]
      rfl

theorem mapM_readStack (symbolText : UInt64 -> List Char) (set : List MprofileStack) :
    (set.map (stackValue symbolText)).mapM readStack =
      some (set.map (MprofileStack.asRead symbolText)) := by
  induction set with
  | nil => rfl
  | cons mps rest inductionHypothesis =>
      rw [List.map_cons, List.mapM_cons, readStack_stackValue, inductionHypothesis]
      rfl

/-! ## The whole profile -/

/-- What is promised of the tree of a stack set: its order, and no null in it. -/
structure StackTree (heap : StackHeap) (rbh : List Nat) : Prop where
  sorted : OrderedTree.Sorted heap.key rbh
  noNull : forall p, p ∈ rbh -> p ≠ 0

theorem StsetsSorted.stackTree {heap : StackHeap} (sets : StsetsSorted heap) (s : Nat) :
    StackTree heap (heap.stset s).stsetRbh :=
  ⟨sets.sorted s, fun p member => Nat.ne_of_gt (sets.allocated s p member).1⟩

theorem StackTree.nodup {heap : StackHeap} {rbh : List Nat}
    (tree : StackTree heap rbh) : rbh.Nodup :=
  tree.sorted.imp (fun {a b} less same => by rw [same] at less; exact lt_irrefl _ less)

section Whole

variable {symbolText : UInt64 -> List Char} {heap : StackHeap} {rbh : List Nat}

/-- In a tree the next stack is the one behind. -/
theorem mprofileGetNextStack_append {before rest : List Nat} {p : Nat}
    (nodup : (before ++ p :: rest).Nodup)
    (isStack : p ≠ 0) : mprofileGetNextStack (before ++ p :: rest) p = rest.headD 0 := by
  have passed : forall q, q ∈ before -> decide (q ≠ p) = true := by
    intro q member
    refine decide_eq_true (fun same => ?_)
    exact (List.nodup_append.mp nodup).2.2 q member p List.mem_cons_self same
  have stopped : (p :: rest).dropWhile (fun q => decide (q ≠ p)) = p :: rest :=
    List.dropWhile_cons_of_neg (by simp)
  rw [mprofileGetNextStack, if_neg isStack, List.dropWhile_append_of_pos passed, stopped,
    List.tail_cons]

/-- The stacks with a comma after each but the last. -/
def stackLines (symbolText : UInt64 -> List Char) : List MprofileStack -> List Char
  | [] => []
  | mps :: rest =>
      printStackText symbolText mps ++
        ((if rest = [] then [] else ",\n".toList) ++ stackLines symbolText rest)

/-- The loop prints every stack of the tree once, in the order of the tree. -/
theorem printStacks_eq (symbolText : UInt64 -> List Char) (tree : StackTree heap rbh) :
    forall before rest, rbh = before ++ rest ->
      printStacks symbolText heap rbh (rest.length + 1) (rest.headD 0) =
        some (stackLines symbolText (rest.map heap.mps)) := by
  intro before rest
  induction rest generalizing before with
  | nil => exact fun _ => rfl
  | cons p rest inductionHypothesis =>
      intro split
      have isStack : p ≠ 0 := tree.noNull p (by rw [split]; simp)
      have next : mprofileGetNextStack rbh p = rest.headD 0 := by
        have nodup := tree.nodup
        rw [split] at nodup ⊢
        exact mprofileGetNextStack_append nodup isStack
      have onward := inductionHypothesis (before ++ [p]) (by rw [split, List.append_assoc]; rfl)
      change printStacks symbolText heap rbh (rest.length + 1 + 1) p = _
      rw [printStacks, if_neg isStack]
      simp only [next, onward, Option.map_some, List.map_cons, stackLines]
      cases rest with
      | nil => rfl
      | cons q others =>
          have isNext : q ≠ 0 := tree.noNull q (by rw [split]; simp)
          rw [if_pos (show List.headD (q :: others) 0 ≠ 0 from isNext)]
          rfl

theorem scans_stackLines {set : List MprofileStack}
    (plain : forall mps, mps ∈ set -> forall frame, frame ∈ mps.frames ->
      Plain (symbolText frame)) :
    Scans (stackLines symbolText set) (separated (set.map (stackTokens symbolText))) := by
  induction set with
  | nil => rfl
  | cons mps rest inductionHypothesis =>
      have here := scans_printStackText (plain mps List.mem_cons_self)
      have others :=
        inductionHypothesis (fun other member => plain other (List.mem_cons_of_mem mps member))
      cases rest with
      | nil =>
          have nothing : Scans [] [] := rfl
          exact here.append nothing
      | cons next rest =>
          have comma : Scans ",\n".toList [.comma] := rfl
          exact here.append (comma.append others)

/-- The tokens of the whole text. -/
def profileTokens (symbolText : UInt64 -> List Char) (startTime : Timespec) (note : List Char)
    (log : List MprofileRecord) (set : List MprofileStack) : List Token :=
  [ [.openBrace, .string (points "start_time".toList), .colon, .openBrace],
    numberTokens "s" startTime.tvSec [.comma],
    numberTokens "ns" startTime.tvNsec [],
    [.closeBrace, .comma],
    [.string (points "annotation".toList), .colon, .string (points note), .comma],
    [.string (points "allocations".toList), .colon, .openBracket],
    separated (log.map (fun mpr => recordTokens mpr ++ [.closeBrace])),
    [.closeBracket, .comma],
    [.string (points "stacks".toList), .colon, .openBracket],
    separated (set.map (stackTokens symbolText)),
    [.closeBracket, .closeBrace] ].flatten

def profileValue (symbolText : UInt64 -> List Char) (startTime : Timespec) (note : List Char)
    (log : List MprofileRecord) (set : List MprofileStack) : Value :=
  .object [(points "start_time".toList, timeValue startTime),
    (points "annotation".toList, .string (points note)),
    (points "allocations".toList, .array (log.map recordValue)),
    (points "stacks".toList, .array (set.map (stackValue symbolText)))]

theorem scans_annotationText {note : List Char} (plain : Plain note) :
    Scans ("\t\"annotation\" : \"".toList ++ note ++ "\",\n".toList)
      [.string (points "annotation".toList), .colon, .string (points note), .comma] := by
  have before : Scans "\t\"annotation\" : ".toList [.string (points "annotation".toList), .colon] :=
    rfl
  have comma : Scans [',', '\n'] [.comma] := rfl
  have whole := (before.append (Scans.string plain)).append comma
  have text : "\t\"annotation\" : \"".toList ++ note ++ "\",\n".toList =
      "\t\"annotation\" : ".toList ++ ('"' :: note ++ ['"']) ++ [',', '\n'] := by
    simp
  rw [text]
  exact whole

/-- The loop over the stacks ends, whatever the names and the annotation are. -/
theorem printProfile_eq (symbolText : UInt64 -> List Char) (startTime : Timespec) (note : List Char)
    {mp : Profile}
    (tree : StackTree heap (mp.stackTree heap)) :
    printProfile symbolText startTime note heap mp = some (profileText startTime note mp.mpTqhead
      (stackLines symbolText ((mp.stackTree heap).map heap.mps))) := by
  have first : mprofileGetNextStack (mp.stackTree heap) 0 = (mp.stackTree heap).headD 0 := rfl
  have printed := printStacks_eq symbolText tree [] (mp.stackTree heap) rfl
  rw [printProfile, first]
  simp only [printed, Option.map_some]

theorem scans_printProfile (startTime : Timespec) {note : List Char} {mp : Profile}
    (tree : StackTree heap (mp.stackTree heap)) (plainNote : Plain note)
    (plain : forall p, p ∈ mp.stackTree heap -> forall frame, frame ∈ (heap.mps p).frames ->
      Plain (symbolText frame)) :
    Exists fun text => printProfile symbolText startTime note heap mp = some text ∧
      Scans text (profileTokens symbolText startTime note mp.mpTqhead
        ((mp.stackTree heap).map heap.mps)) := by
  have plainSet : forall mps, mps ∈ (mp.stackTree heap).map heap.mps ->
      forall frame, frame ∈ mps.frames -> Plain (symbolText frame) := by
    intro mps member
    rcases List.mem_map.mp member with ⟨p, isStack, rfl⟩
    exact plain p isStack
  refine ⟨_, printProfile_eq symbolText startTime note tree, ?_⟩
  apply Scans.flatten
  refine .cons rfl ?_
  refine .cons (scans_number "\t" mprofileTimeS "s" startTime.tvSec rfl).1 ?_
  refine .cons (scans_number "\t" mprofileTimeNs "ns" startTime.tvNsec rfl).2 ?_
  refine .cons rfl ?_
  refine .cons (scans_annotationText plainNote) ?_
  refine .cons rfl ?_
  refine .cons (scans_printRecords mp.mpTqhead) ?_
  refine .cons rfl ?_
  refine .cons rfl ?_
  refine .cons (scans_stackLines plainSet) ?_
  exact .cons rfl .nil

theorem delivers_profile (symbolText : UInt64 -> List Char) (startTime : Timespec)
    (note : List Char)
    (log : List MprofileRecord) (set : List MprofileStack) :
    Delivers (profileTokens symbolText startTime note log set)
      (profileValue symbolText startTime note log set) := by
  intro open_
  have elements : List.Forall₂ Delivers (set.map (stackTokens symbolText))
      (set.map (stackValue symbolText)) := by
    induction set with
    | nil => exact .nil
    | cons mps rest inductionHypothesis =>
      exact .cons (delivers_stack symbolText mps) inductionHypothesis
  have tokens : profileTokens symbolText startTime note log set =
      [ [.openBrace, .string (points "start_time".toList), .colon, .openBrace],
        numberTokens "s" startTime.tvSec [.comma], numberTokens "ns" startTime.tvNsec [],
        [.closeBrace, .comma],
        [.string (points "annotation".toList), .colon, .string (points note), .comma],
        [.string (points "allocations".toList), .colon] ].flatten ++
      ((.openBracket :: separated (log.map (fun mpr => recordTokens mpr ++ [.closeBrace])) ++
        [.closeBracket]) ++
      ([.comma, .string (points "stacks".toList), .colon] ++
      ((.openBracket :: separated (set.map (stackTokens symbolText)) ++ [.closeBracket]) ++
          [.closeBrace]))) := by
    simp only [profileTokens, List.flatten_cons, List.flatten_nil, List.append_assoc,
      List.cons_append,
      List.nil_append]
  rw [tokens, parseRun_append]
  change parseRun (.value (.object [(points "annotation".toList, .string (points note)),
    (points "start_time".toList, timeValue startTime)] (points "allocations".toList) :: open_))
      _ = _
  rw [(Delivers.list (delivers_records log)).followed]
  change parseRun (.value (.object [(points "allocations".toList, .array (log.map recordValue)),
    (points "annotation".toList, .string (points note)),
    (points "start_time".toList, timeValue startTime)] (points "stacks".toList) :: open_))
    ((.openBracket :: separated (set.map (stackTokens symbolText)) ++ [.closeBracket]) ++
      [.closeBrace]) = _
  rw [(Delivers.list elements).followed]
  rfl

/-- The reader finds the members of the document. -/
theorem readProfile_profileValue (symbolText : UInt64 -> List Char) (startTime : Timespec)
    (note : List Char) (log : List MprofileRecord) (set : List MprofileStack) :
    readProfile (profileValue symbolText startTime note log set) =
      some ⟨startTime, points note, log, set.map (MprofileStack.asRead symbolText)⟩ := by
  have members : (profileValue symbolText startTime note log set).member "start_time" =
        some (timeValue startTime) ∧
      (profileValue symbolText startTime note log set).member "annotation" =
        some (.string (points note)) ∧
      (profileValue symbolText startTime note log set).member "allocations" =
        some (.array (log.map recordValue)) ∧
      (profileValue symbolText startTime note log set).member "stacks" =
        some (.array (set.map (stackValue symbolText))) := ⟨rfl, rfl, rfl, rfl⟩
  simp only [readProfile, members, Option.bind_eq_bind, Option.bind_some, readTime_timeValue,
    Value.text,
    Value.elements, mapM_readRecord, mapM_readStack, Option.pure_def]

/-- What `profile_save` writes is one JSON document, and reading it gives back the
records, the stacks of the set with the texts of their frames, the start time and
the annotation. -/
theorem profileSave_decodes (symbolText : UInt64 -> List Char) (startTime : Timespec)
    (note : List Char) (heap : StackHeap) (mp : Profile) (tree : StackTree heap (mp.stackTree heap))
    (plainNote : Plain note)
    (plain : forall p, p ∈ mp.stackTree heap -> forall frame, frame ∈ (heap.mps p).frames ->
      Plain (symbolText frame)) :
    Exists fun text => Exists fun value =>
      printProfile symbolText startTime note heap mp = some text ∧ Json.parse text = some value ∧
        readProfile value = some ⟨startTime, points note, mp.mpTqhead,
          (mp.stackTree heap).map (fun p => (heap.mps p).asRead symbolText)⟩ := by
  rcases scans_printProfile startTime tree plainNote plain with ⟨text, printed, scans⟩
  refine ⟨text, _, printed, parse_of_delivers scans (delivers_profile _ _ _ _ _), ?_⟩
  rw [readProfile_profileValue, List.map_map]
  rfl

/-- Two stacks: `main` alone, and a function that `main` has called. -/
def twoStackHeap : StackHeap :=
  { StackHeap.empty with
    mps := fun p =>
      if p = 1 then ⟨1, 9, 1, 1, 1, 140, fun _ => 8192⟩
      else ⟨2, 7, 2, 1, 1, 140, fun i => if i = 0 then 4096 else 8192⟩
    stset := fun _ => ⟨10, [1, 2], [2, 1]⟩ }

/-- A block that is taken under the second stack and released under the first. -/
def twoStackProfile : Profile :=
  ⟨[⟨18446744073709551614, 4112, 0, 8, .alloc, 7, 0, 18446744073709551615, ⟨1700000000, 5⟩⟩,
    ⟨18446744073709551615, 4112, 0, -8, .free, 9, 18446744073709551614, 0, ⟨1700000000, 6⟩⟩], 1⟩

/-- The function that a frame is in. -/
def twoNames (frame : UInt64) : List Char := if frame = 4096 then "f+0x4".toList else "main".toList

theorem profileSave_decodes_twoStacks :
    Exists fun text => Exists fun value =>
      printProfile twoNames ⟨1700000000, 1⟩ "a run".toList twoStackHeap twoStackProfile =
        some text ∧
        Json.parse text = some value ∧
        readProfile value = some ⟨⟨1700000000, 1⟩, points "a run".toList, twoStackProfile.mpTqhead,
          [⟨9, 1, 140, [points "main".toList]⟩,
            ⟨7, 1, 140, [points "f+0x4".toList, points "main".toList]⟩]⟩ := by
  have plain : forall frame, Plain (twoNames frame) := by
    intro frame
    unfold twoNames
    split_ifs <;> decide
  have shorter : twoStackHeap.key 1 < twoStackHeap.key 2 := Prod.Lex.left _ _ (Nat.lt_succ_self 1)
  have inOrder : OrderedTree.Sorted twoStackHeap.key [1, 2] := List.pairwise_pair.mpr shorter
  have noNull : forall p, p ∈ [1, 2] -> p ≠ 0 := by decide
  exact profileSave_decodes twoNames ⟨1700000000, 1⟩ "a run".toList twoStackHeap twoStackProfile
    ⟨inOrder, noNull⟩
    (by decide) (fun _ _ frame _ => plain frame)

/-! ## The document -/

/-- The text of an entry of a trace. -/
def TraceEntry.text (symbolText : UInt64 -> List Char) : TraceEntry -> List Nat
  | .symbol frame => points (symbolText frame)
  | .blank => []

/-- The reader's records and stacks are those of the document, with texts for the frames. -/
theorem asRead_document (startTime : Timespec) (heap : StackHeap) (mp : Profile) :
    (profileSave startTime heap mp).allocations = mp.mpTqhead ∧
      (mp.stackTree heap).map (fun p => (heap.mps p).asRead symbolText) =
        (profileSave startTime heap mp).stackList.map (fun st =>
          ⟨st.id, st.stackCount, st.threadId, (getTrace st).map (TraceEntry.text symbolText)⟩) := by
  refine ⟨rfl, ?_⟩
  have one : forall mps : MprofileStack, mps.asRead symbolText =
      ⟨(printStack mps).id, (printStack mps).stackCount, (printStack mps).threadId,
        (getTrace (printStack mps)).map (TraceEntry.text symbolText)⟩ := by
    intro mps
    rw [getTrace, printStack, List.dropLast_concat, List.map_map]
    rfl
  rw [profileSave, Profile.stackTree]
  split_ifs
  · rfl
  · rw [List.map_map]
    exact List.map_congr_left (fun p _ => one (heap.mps p))

end Whole

end Tokens

end Mprofile
end OsslScripts
