import OsslScripts.Mprofile.Conservation
import OsslScripts.Mprofile.PrintedNames
import OsslScripts.Mprofile.ProfileText

namespace OsslScripts
namespace Mprofile

open Foundation
open Foundation.Json

/-!
# The file of the counters

What `save_stats` prints at exit.  It is meant as JSON, but in both times a comma stands
behind the last member, which no JSON reader takes.  A reader that passes over such commas
finds the counters, which are those of the live blocks.
-/

/-! ## `init.c` -/

def msTotalAllocated : String := "\"total_allocated_sz\""
def msTotalReleased : String := "\"total_released_sz\""
def msAllocs : String := "\"allocs\""
def msReleases : String := "\"releases\""
def msReallocs : String := "\"reallocs\""
def msMax : String := "\"max\""
def msTstart : String := "\"tstart\""
def msTfinish : String := "\"tfinish\""
def msSec : String := "\"sec\""
def msNsec : String := "\"nsec\""

/-- A time of `struct memstats`.  The conversion of its seconds is unsigned. -/
def printStatsTime (key : String) (ts : Timespec) (stop : String) : List Char :=
  [ "\t".toList ++ key.toList ++ " : \x7b\n".toList,
    printNumber "\t\t" msSec (ts.tvSec % 2 ^ 64) ",\n",
    printNumber "\t\t" msNsec ts.tvNsec ",\n",
    stop.toList ].flatten

/-- `save_stats`, with `ms_start` and `ms_finish` beside the counters. -/
def saveStats (note : List Char) (ms : Memstats) (msStart msFinish : Timespec) : List Char :=
  [ "\x7b\n".toList,
    "\t\"annotation\" : \"".toList ++ note ++ "\",\n".toList,
    printNumber "\t" msTotalAllocated ms.msTotalAllocated.toNat ",\n",
    printNumber "\t" msTotalReleased ms.msTotalReleased.toNat ",\n",
    printNumber "\t" msAllocs ms.msAllocs.toNat ",\n",
    printNumber "\t" msReleases ms.msFree.toNat ",\n",
    printNumber "\t" msReallocs ms.msReallocs.toNat ",\n",
    printNumber "\t" msMax ms.msMax.toNat ",\n",
    printStatsTime msTstart msStart "\t\x7d,\n",
    printStatsTime msTfinish msFinish "\t\x7d\n",
    "\x7d".toList ].flatten

/-! ## The reader -/

/-- The counters as a reader has them. -/
structure ReadStats where
  annotation : List Nat
  totalAllocatedSz : UInt64
  totalReleasedSz : UInt64
  allocs : UInt64
  releases : UInt64
  reallocs : UInt64
  max : UInt64
deriving DecidableEq, Repr

def readStats (value : Value) : Option ReadStats := do
  let note ← (← value.member "annotation").text
  let totalAllocatedSz ← (← value.member "total_allocated_sz").word
  let totalReleasedSz ← (← value.member "total_released_sz").word
  let allocs ← (← value.member "allocs").word
  let releases ← (← value.member "releases").word
  let reallocs ← (← value.member "reallocs").word
  let max ← (← value.member "max").word
  return ⟨note, totalAllocatedSz, totalReleasedSz, allocs, releases, reallocs, max⟩

/-- The counters that are printed. -/
def Memstats.asRead (ms : Memstats) (note : List Char) : ReadStats :=
  ⟨points note, ms.msTotalAllocated, ms.msTotalReleased, ms.msAllocs, ms.msFree, ms.msReallocs,
    ms.msMax⟩

/-! ## Tokens and values -/

def statsTimeTokens (key : String) (ts : Timespec) (stop : List Token) : List Token :=
  [ [.string (points key.toList), .colon, .openBrace],
    numberTokens "sec" (ts.tvSec % 2 ^ 64) [.comma],
    numberTokens "nsec" ts.tvNsec [.comma],
    stop ].flatten

def statsTokens (note : List Char) (ms : Memstats) (msStart msFinish : Timespec) : List Token :=
  [ [.openBrace],
    [.string (points "annotation".toList), .colon, .string (points note), .comma],
    numberTokens "total_allocated_sz" ms.msTotalAllocated.toNat [.comma],
    numberTokens "total_released_sz" ms.msTotalReleased.toNat [.comma],
    numberTokens "allocs" ms.msAllocs.toNat [.comma],
    numberTokens "releases" ms.msFree.toNat [.comma],
    numberTokens "reallocs" ms.msReallocs.toNat [.comma],
    numberTokens "max" ms.msMax.toNat [.comma],
    statsTimeTokens "tstart" msStart [.closeBrace, .comma],
    statsTimeTokens "tfinish" msFinish [.closeBrace],
    [.closeBrace] ].flatten

def statsTimeValue (ts : Timespec) : Value :=
  .object [(points "sec".toList, .number (ts.tvSec % 2 ^ 64) 0),
    (points "nsec".toList, .number ts.tvNsec 0)]

def statsValue (note : List Char) (ms : Memstats) (msStart msFinish : Timespec) : Value :=
  .object [(points "annotation".toList, .string (points note)),
    (points "total_allocated_sz".toList, .number ms.msTotalAllocated.toNat 0),
    (points "total_released_sz".toList, .number ms.msTotalReleased.toNat 0),
    (points "allocs".toList, .number ms.msAllocs.toNat 0),
    (points "releases".toList, .number ms.msFree.toNat 0),
    (points "reallocs".toList, .number ms.msReallocs.toNat 0),
    (points "max".toList, .number ms.msMax.toNat 0),
    (points "tstart".toList, statsTimeValue msStart),
      (points "tfinish".toList, statsTimeValue msFinish)]

section Text

variable {note : List Char} {ms : Memstats} {msStart msFinish ts : Timespec}

theorem scans_printStatsTime {key name stop : String} {closed : List Token}
    (before : Scans ("\t".toList ++ key.toList ++ " : \x7b\n".toList)
      [.string (points name.toList), .colon, .openBrace]) (behind : Scans stop.toList closed) :
    Scans (printStatsTime key ts stop) (statsTimeTokens name ts closed) := by
  apply Scans.flatten
  refine .cons before ?_
  refine .cons (scans_number "\t\t" msSec "sec" (ts.tvSec % 2 ^ 64) rfl).1 ?_
  refine .cons (scans_number "\t\t" msNsec "nsec" ts.tvNsec rfl).1 ?_
  exact .cons behind .nil

theorem scans_saveStats (plain : Plain note) :
    Scans (saveStats note ms msStart msFinish) (statsTokens note ms msStart msFinish) := by
  apply Scans.flatten
  refine .cons rfl ?_
  refine .cons (scans_annotationText plain) ?_
  refine .cons (scans_number "\t" msTotalAllocated "total_allocated_sz" ms.msTotalAllocated.toNat
    rfl).1 ?_
  refine .cons (scans_number "\t" msTotalReleased "total_released_sz" ms.msTotalReleased.toNat
    rfl).1 ?_
  refine .cons (scans_number "\t" msAllocs "allocs" ms.msAllocs.toNat rfl).1 ?_
  refine .cons (scans_number "\t" msReleases "releases" ms.msFree.toNat rfl).1 ?_
  refine .cons (scans_number "\t" msReallocs "reallocs" ms.msReallocs.toNat rfl).1 ?_
  refine .cons (scans_number "\t" msMax "max" ms.msMax.toNat rfl).1 ?_
  refine .cons (scans_printStatsTime rfl rfl) ?_
  refine .cons (scans_printStatsTime rfl rfl) ?_
  exact .cons rfl .nil

/-- The comma behind the nanoseconds. -/
theorem parse_saveStats (plain : Plain note) :
    parse (saveStats note ms msStart msFinish) = none := by
  refine parse_of_trailingComma (scans_saveStats plain).whole (fun same => ?_)
  have lengths := congrArg List.length same
  have all : (statsTokens note ms msStart msFinish).length = 55 := rfl
  have kept : (dropTrailingCommas (statsTokens note ms msStart msFinish)).length = 53 := rfl
  omega

theorem parseLenient_saveStats (plain : Plain note) :
    parseLenient (saveStats note ms msStart msFinish) =
      some (statsValue note ms msStart msFinish) := by
  rw [parseLenient, (scans_saveStats plain).whole]
  rfl

theorem readStats_statsValue :
    readStats (statsValue note ms msStart msFinish) = some (ms.asRead note) := by
  have members : (statsValue note ms msStart msFinish).member "annotation" =
        some (.string (points note)) ∧
      (statsValue note ms msStart msFinish).member "total_allocated_sz" =
        some (.number ms.msTotalAllocated.toNat 0) ∧
      (statsValue note ms msStart msFinish).member "total_released_sz" =
        some (.number ms.msTotalReleased.toNat 0) ∧
      (statsValue note ms msStart msFinish).member "allocs" = some (.number ms.msAllocs.toNat 0) ∧
      (statsValue note ms msStart msFinish).member "releases" = some (.number ms.msFree.toNat 0) ∧
      (statsValue note ms msStart msFinish).member "reallocs" =
        some (.number ms.msReallocs.toNat 0) ∧
      (statsValue note ms msStart msFinish).member "max" = some (.number ms.msMax.toNat 0) :=
    ⟨rfl, rfl, rfl, rfl, rfl, rfl, rfl⟩
  simp only [readStats, members, Option.bind_eq_bind, Option.bind_some, Value.text,
    Value.word_number,
    Option.pure_def]
  rfl

end Text

/-- In every interleaving of the stats hooks, what `save_stats` writes is not JSON.  A reader that
takes trailing commas has the counters.  When no call is in progress, and libc and the calls are
such that the counters balance, these are the figures of the live blocks. -/
theorem saveStats_afterRun {Thread : Type} [DecidableEq Thread] (tid : Thread -> Nat)
    (labels : List (PoolLabel Thread Call Answer))
    {pool : StatsPool Thread}
    (executed : exec (StatsPool.next tid) (StatsPool.init Thread) labels = .ok pool)
    {environment : Option (List Char)} (plainNote : PlainNote environment)
    (msStart msFinish : Timespec) :
    let noted := mprofileGetAnnotation environment
    let written := saveStats noted pool.shared.1.ms msStart msFinish
    parse written = none ∧ Exists fun value => Exists fun read =>
      parseLenient written = some value ∧ readStats value = some read ∧
        read = pool.shared.1.ms.asRead noted ∧
        (Meets (StatsPool.next tid) ReleasesZero (StatsPool.init Thread) labels ->
          Meets (StatsPool.next tid) ResizableCalls (StatsPool.init Thread) labels ->
          pool.Quiescent -> Exists fun blocks => LiveBlocks pool.shared.1.heap blocks ∧
          read.totalAllocatedSz - read.totalReleasedSz =
            UInt64.ofNat (blocks.sum (fun p => ((liveHeader pool.shared.1.heap p).getD 0).toNat)) ∧
          read.allocs - read.releases = UInt64.ofNat blocks.card) := by
  intro noted written
  have plain : Plain noted := plainNote.plain
  refine ⟨parse_saveStats plain, _, _, parseLenient_saveStats plain, readStats_statsValue, rfl,
    fun releases resizable quiet => ?_⟩
  have conserved : pool.Conserved := exec_invariant StatsPool.Conserved
    (fun pool l pool' conserved met stepped => conserved.next met.1 met.2 stepped)
    StatsPool.init_conserved (releases.and resizable) executed
  rcases conserved.countersMatch quiet with ⟨blocks, live, totals, current, counts⟩
  exact ⟨blocks, live, totals.trans current, counts⟩

theorem saveStats_afterRun_balancedRun : Exists fun pool => Exists fun value => Exists fun read =>
    Exists fun blocks =>
      exec (StatsPool.next Fin.val) (StatsPool.init (Fin 2)) balancedRun = .ok pool ∧
        parse (saveStats "a run".toList pool.shared.1.ms ⟨1700000000, 5⟩ ⟨1700000001, 7⟩) = none ∧
        parseLenient (saveStats "a run".toList pool.shared.1.ms ⟨1700000000, 5⟩ ⟨1700000001, 7⟩) =
          some value ∧
        readStats value = some read ∧ read.totalAllocatedSz - read.totalReleasedSz = 24 ∧
        LiveBlocks pool.shared.1.heap blocks ∧ UInt64.ofNat blocks.card = 1 := by
  have reached : Exists fun pool =>
      exec (StatsPool.next Fin.val) (StatsPool.init (Fin 2)) balancedRun = .ok pool ∧
        (pool.shared.1.ms.msTotalAllocated - pool.shared.1.ms.msTotalReleased = 24 ∧
          pool.shared.1.ms.msAllocs - pool.shared.1.ms.msFree = 1 ∧
              forall t, (pool.thread t).isNone = true) :=
    reaches_of_check (by decide +kernel)
  rcases reached with ⟨pool, executed, totals, counts, idle⟩
  have quiet : pool.Quiescent := fun t => Option.isNone_iff_eq_none.mp (idle t)
  have plainNote : PlainNote (some "a run".toList) := by
    rintro value isValue
    cases isValue
    exact (by decide)
  have printed : mprofileGetAnnotation (some "a run".toList) = "a run".toList := by decide +kernel
  have unread :=
    saveStats_afterRun Fin.val balancedRun executed plainNote ⟨1700000000, 5⟩ ⟨1700000001, 7⟩
  rcases unread with ⟨refused, value, read, parsed, isRead, same, figures⟩
  rcases figures (meets_of_check (by decide +kernel)) (meets_of_check (by decide +kernel))
      quiet with
    ⟨blocks, live, -, card⟩
  simp only [printed] at refused parsed
  rw [same] at isRead card
  exact ⟨pool, value, _, blocks, executed, refused, parsed, isRead, totals, live,
    card.symm.trans counts⟩

end Mprofile
end OsslScripts
