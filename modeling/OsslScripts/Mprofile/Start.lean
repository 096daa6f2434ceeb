import OsslScripts.Mprofile.SavedText
import OsslScripts.Mprofile.StatsText

namespace OsslScripts
namespace Mprofile

open Foundation
open Foundation.Json

/-!
# The process

`mprofile_start` chooses the memory functions and the handler at exit by the first character
of `MPROFILE_MODE`.  The file that the process leaves is JSON exactly if the mode is one of
those that trace, the profiles can be saved, and no library makes the process exit.
-/

/-! ## `init.c` -/

/-- The functions that are handed to `atexit`. -/
inductive AtExit where
  | saveStats
  | saveProfileTrace
  | saveProfileTraceLinkChains
deriving DecidableEq, Repr

/-- What one of the `init_` functions installs. -/
structure Installed where
  memFunctions : Family
  atExit : AtExit
deriving DecidableEq, Repr

def initStats : Installed := ⟨.stats, .saveStats⟩
def initTrace : Installed := ⟨.trace, .saveProfileTrace⟩
def initTraceWithChains : Installed := ⟨.trace, .saveProfileTraceLinkChains⟩
def initTraceWithStacks : Installed := ⟨.traceWithStack, .saveProfileTrace⟩
def initTraceWithStacksWithChains : Installed := ⟨.traceWithStack, .saveProfileTraceLinkChains⟩

/-- The `switch` of `mprofile_start`, with `_WITH_STACKTRACE`.  An empty string has no first
character but its end. -/
def switchMode : Option Char -> Installed
  | some '1' => initStats
  | some '2' => initTrace
  | some '3' => initTraceWithStacks
  | some '4' => initTraceWithChains
  | some '5' => initTraceWithStacksWithChains
  | _ => initStats

/-- `mprofile_start`, for the values of `MPROFILE_MODE` and `MPROFILE_OUTF`.  Without a file that
can be opened nothing is installed. -/
def mprofileStart (mprofileMode fname : Option (List Char)) (fopen : List Char -> Bool) :
    Option Installed :=
  match fname with
  | none => none
  | some path => if fopen path then some (switchMode (mprofileMode.getD ['1']).head?) else none

/-- The `link_chains` of a handler. -/
def AtExit.linkChains : AtExit -> Bool
  | .saveProfileTraceLinkChains => true
  | _ => false

/-- What the handler leaves in the file. -/
def exitFile (qsort : Qsort) (bsearch : Bsearch) (opened : List (Shlib × KelfAnswer))
    (note : List Char)
    (copyBlock : Nat -> Option (Int -> UInt64)) (msStart msFinish : Timespec) (w : World)
    (handler : AtExit) :
    Except TextFault (Option (List Char)) :=
  match handler with
  | .saveStats => .ok (some (saveStats note w.ms msStart msFinish))
  | .saveProfileTrace => mprofileSaveText qsort bsearch opened note copyBlock false w.prof
  | .saveProfileTraceLinkChains => mprofileSaveText qsort bsearch opened note copyBlock true w.prof

/-! ## The modes -/

/-- The mode is one of those that record the calls. -/
def TracingMode (mprofileMode : Option (List Char)) : Prop :=
  Exists fun c => mprofileMode.bind List.head? = some c ∧ c ∈ ['2', '3', '4', '5']

theorem switchMode_cases (selected : Option Char) :
    ((Exists fun c => selected = some c ∧ c ∈ ['2', '3', '4', '5']) ∧
      (switchMode selected).memFunctions ≠ .stats ∧
        (switchMode selected).atExit ≠ .saveStats) ∨
      (¬ (Exists fun c => selected = some c ∧ c ∈ ['2', '3', '4', '5']) ∧
        switchMode selected = initStats) := by
  by_cases tracing : Exists fun c => selected = some c ∧ c ∈ ['2', '3', '4', '5']
  · refine Or.inl ⟨tracing, ?_⟩
    rcases tracing with ⟨c, rfl, member⟩
    simp only [List.mem_cons, List.not_mem_nil, or_false] at member
    rcases member with rfl | rfl | rfl | rfl <;> decide
  · refine Or.inr ⟨tracing, ?_⟩
    unfold switchMode
    split <;> first | rfl | exact absurd ⟨_, rfl, by decide⟩ tracing

/-- The modes that trace install hooks that trace, and all others those that count. -/
theorem mprofileStart_cases {mprofileMode fname : Option (List Char)} {fopen : List Char -> Bool}
    {installed : Installed} (started : mprofileStart mprofileMode fname fopen = some installed) :
    (TracingMode mprofileMode ∧ installed.memFunctions ≠ .stats ∧ installed.atExit ≠ .saveStats) ∨
      (¬ TracingMode mprofileMode ∧ installed = initStats) := by
  unfold mprofileStart at started
  split at started
  · cases started
  · split_ifs at started
    cases started
    cases mprofileMode with
    | none =>
        refine Or.inr ⟨fun tracing => ?_, rfl⟩
        rcases tracing with ⟨c, impossible, -⟩
        cases impossible
    | some mode => exact switchMode_cases mode.head?

/-- A handler of the trace modes saves the profiles. -/
theorem exitFile_of_traces {qsort : Qsort} {bsearch : Bsearch} {opened : List (Shlib × KelfAnswer)}
    {note : List Char} {copyBlock : Nat -> Option (Int -> UInt64)} {msStart msFinish : Timespec}
    {w : World} {handler : AtExit}
    (traces : handler ≠ .saveStats) :
    exitFile qsort bsearch opened note copyBlock msStart msFinish w handler =
      mprofileSaveText qsort bsearch opened note copyBlock handler.linkChains w.prof := by
  cases handler with
  | saveStats => exact absurd rfl traces
  | saveProfileTrace => rfl
  | saveProfileTraceLinkChains => rfl

/-- For every environment, every interleaving and whatever was refused: the process leaves a JSON
document exactly if `MPROFILE_MODE` starts with 2, 3, 4 or 5, there is a profile, each stack that
is merged finds room, the log replays where chains are linked, and no library makes the process
exit.  The document reads as that of the list model. -/
theorem exitFile_isJson_iff {Thread : Type} [DecidableEq Thread] {C : Client Thread Call UInt64}
    {mprofileMode fname : Option (List Char)} {fopen : List Char -> Bool} {installed : Installed}
    (started : mprofileStart mprofileMode fname fopen = some installed) (tid : Thread -> Nat)
    (client : C.State)
    (labels : List (PoolLabel Thread Call Answer)) {pool : Pool hookMachine C}
    (executed : exec (Pool.next (fun t k => hook installed.memFunctions (tid t) k))
      ⟨World.init, client, fun _ => none⟩ labels = .ok pool)
    (few : pool.shared.prof.mprId + 1 < 2 ^ 32)
    (qsort : Qsort) (bsearch : Bsearch) {opened : List (Shlib × KelfAnswer)}
    (plainNames : PlainNames (opened.map Prod.fst)) {environment : Option (List Char)}
    (plainNote : PlainNote environment) (copyBlock : Nat -> Option (Int -> UInt64))
    (msStart msFinish : Timespec) :
    let symbolText := traceText bsearch (loadSyms qsort (opened.map Prod.fst))
    let noted := mprofileGetAnnotation environment
    let file :=
      exitFile qsort bsearch opened noted copyBlock msStart msFinish pool.shared installed.atExit
    ((Exists fun written => file = .ok (some written) ∧ parse written ≠ none) ↔
      TracingMode mprofileMode ∧ Savable copyBlock installed.atExit.linkChains pool.shared.prof ∧
        AllGranted qsort none opened) ∧
    forall written value, file = .ok (some written) -> parse written = some value ->
        Exists fun doc =>
      mprofileSave copyBlock installed.atExit.linkChains pool.shared.prof = .ok doc ∧
        readProfile value = some (doc.asRead symbolText noted) := by
  intro symbolText noted file
  rcases mprofileStart_cases started with ⟨tracing, traced, handles⟩ | ⟨untraced, rfl⟩
  · have shared := stacksShared_exec traced tid client labels executed
    have saves :=
      @StacksShared.saveText_reads qsort bsearch opened noted copyBlock installed.atExit.linkChains
      _ _ _ _ shared few
    have isText : file = mprofileSaveText qsort bsearch opened noted copyBlock
      installed.atExit.linkChains
        pool.shared.prof := exitFile_of_traces handles
    rw [isText]
    refine ⟨⟨fun leaves => ?_, fun all => ?_⟩, fun written value saved parsed => ?_⟩
    · rcases leaves with ⟨written, saved, -⟩
      exact ⟨tracing, saves.1.mp ⟨written, saved⟩⟩
    · rcases saves.1.mpr all.2 with ⟨written, saved⟩
      rcases saves.2 _ saved with ⟨written', doc, same, -, reads⟩
      cases same
      rcases reads plainNames plainNote.plain with ⟨value, parsed, -⟩
      exact ⟨written, saved, by rw [parsed]; exact Option.some_ne_none value⟩
    · rcases saves.2 _ saved with ⟨written', doc, same, inMemory, reads⟩
      cases same
      rcases reads plainNames plainNote.plain with ⟨value', parsed', read⟩
      cases parsed.symm.trans parsed'
      exact ⟨doc, inMemory, read⟩
  · have refused : forall written, file = .ok (some written) -> parse written = none := by
      intro written isFile
      have isStats : saveStats noted pool.shared.ms msStart msFinish = written :=
        Option.some.inj (Except.ok.inj isFile)
      rw [← isStats]
      exact parse_saveStats plainNote.plain
    refine ⟨⟨fun leaves => ?_, fun all => absurd all.1 untraced⟩,
      fun written value isFile parsed => ?_⟩
    · rcases leaves with ⟨written, isFile, parses⟩
      exact absurd (refused written isFile) parses
    · rw [refused written isFile] at parsed
      cases parsed

theorem exitFile_isJson_iff_printedRun :
    Exists fun installed => Exists fun pool => Exists fun written =>
    mprofileStart (some ['5']) (some "out".toList) (fun _ => true) = some installed ∧
      exec (HookPool.next installed.memFunctions Fin.val) (HookPool.init (Fin 2) false) printedRun =
        .ok pool ∧
      exitFile insertionQsort (bsearchFirst ⟨['f'], 5, 10⟩) printedLibrary
        "FooBar annotation".toList
        (fun _ => some (fun _ => 0)) ⟨4, 0⟩ ⟨8, 0⟩ pool.shared installed.atExit =
          .ok (some written) ∧
      parse written ≠ none := by
  have reached : Exists fun pool =>
      exec (HookPool.next .traceWithStack Fin.val) (HookPool.init (Fin 2) false) printedRun =
        .ok pool ∧
        pool.shared.prof.mprId + 1 < 2 ^ 32 ∧
        (mprofileSave (fun _ => some (fun _ => 0)) true pool.shared.prof).toOption.isSome = true :=
    reaches_of_check (by decide +kernel)
  rcases reached with ⟨pool, executed, few, isSaved⟩
  have plainNote : PlainNote none := fun value impossible => by cases impossible
  have started : mprofileStart (some ['5']) (some "out".toList) (fun _ => true) =
      some initTraceWithStacksWithChains := rfl
  have outcome :=
    exitFile_isJson_iff (C := application (Fin 2) false) started Fin.val Holdings.none printedRun
    executed few insertionQsort (bsearchFirst ⟨['f'], 5, 10⟩) plainNames_printedLibrary plainNote
    (fun _ => some (fun _ => 0)) ⟨4, 0⟩ ⟨8, 0⟩
  have shared :=
    stacksShared_exec (C := application (Fin 2) false) (by decide) Fin.val Holdings.none printedRun
    executed
  cases saved : mprofileSave (fun _ => some (fun _ => 0)) true pool.shared.prof with
  | error fault =>
      rw [saved] at isSaved
      cases isSaved
  | ok doc =>
      have savable := (shared.mprofileSave_iff few _ _).mp ⟨doc, saved⟩
      rcases outcome.1.mpr ⟨⟨'5', rfl, by decide⟩, savable, allGranted_printedLibrary⟩ with
        ⟨written, isFile, parses⟩
      exact ⟨initTraceWithStacksWithChains, pool, written, started, executed, isFile, parses⟩

end Mprofile
end OsslScripts
