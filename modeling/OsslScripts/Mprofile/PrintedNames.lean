import OsslScripts.Mprofile.Annotation
import OsslScripts.Mprofile.Ksyms

namespace OsslScripts
namespace Mprofile

open Foundation
open Foundation.Json

/-!
# The names that are printed

The two texts that `profile_save` puts between quotes: the annotation, and the name of a
frame as `kelf_snprintsym` leaves it in the buffer of `print_trace`.  Both stand for
themselves if the libraries name their functions, and the user the run, without quotes and
backslashes.
-/

/-- `%llx` -/
def hexadecimal (n : UInt64) : List Char := Nat.toDigits 16 n.toNat

/-- The string that `kelf_snprintsym`, with `off` zero, leaves in a buffer of `size` bytes. -/
def kelfSnprintsym (bsearch : Bsearch) (syms : Option (List Sym)) (size : Nat)
    (pc : UInt64) : List Char :=
  let text :=
    match kelfResolve bsearch syms pc with
    | none => "0x".toList ++ hexadecimal pc
    | some (entry, offset) =>
        if offset ≠ 0 then entry.symName ++ "+0x".toList ++ hexadecimal offset else entry.symName
  -- `snprintf` keeps one byte for the end of the string
  text.take (size - 1)

/-- What `print_trace` has in `buf`. -/
def traceText (bsearch : Bsearch) (syms : Option (List Sym)) (frame : UInt64) : List Char :=
  kelfSnprintsym bsearch syms 90 frame

/-- A name of printable characters, none of which JSON escapes. -/
def PlainName (name : List Char) : Prop := Printable name ∧ Unescaped name

/-- The libraries name their functions so. -/
def PlainNames (shlibs : List Shlib) : Prop :=
  forall shlib, shlib ∈ shlibs -> forall sym, sym ∈ shlib.functions -> PlainName sym.symName

section Names

variable {name more : List Char} {qsort : Qsort} {bsearch : Bsearch} {shlibs : List Shlib}

theorem PlainName.plain (plainName : PlainName name) : Plain name :=
  fun c member => ⟨(plainName.2 c member).1, (plainName.2 c member).2, (plainName.1 c member).1⟩

theorem plain_append (first : Plain name) (second : Plain more) : Plain (name ++ more) :=
  fun c member => (List.mem_append.mp member).elim (first c) (second c)

theorem plain_take (plain : Plain name) (n : Nat) : Plain (name.take n) :=
  fun c member => plain c (List.mem_of_mem_take member)

theorem plain_digitChar : forall d, d < 16 -> Plain [Nat.digitChar d] := by
  decide

theorem plain_toDigits (n : Nat) : Plain (Nat.toDigits 16 n) := by
  induction n using Nat.strong_induction_on with
  | _ n inductionHypothesis =>
      rw [Nat.toDigits_eq_if (by omega)]
      split_ifs with small
      · exact plain_digitChar n small
      · exact plain_append (inductionHypothesis (n / 16) (by omega))
          (plain_digitChar (n % 16) (by omega))

/-- A kept symbol is a function of a library. -/
theorem mem_keptSyms {sym : Sym} (member : sym ∈ keptSyms shlibs) :
    Exists fun shlib => shlib ∈ shlibs ∧ sym ∈ shlib.functions := by
  induction shlibs using List.reverseRecOn with
  | nil => cases member
  | append_singleton shlibs shlib inductionHypothesis =>
      rw [keptSyms_append] at member
      rcases List.mem_append.mp member with earlier | own
      · rcases inductionHypothesis earlier with ⟨other, isOther, inOther⟩
        exact ⟨other, List.mem_append_left _ isOther, inOther⟩
      · refine ⟨shlib, List.mem_append_right _ List.mem_cons_self, ?_⟩
        exact ((List.drop_sublist _ _).filterMap (functionOf shlib.shlBase)).subset own

/-- What is found for a frame has the name of a function. -/
theorem PlainNames.resolved (plainNames : PlainNames shlibs) {pc offset : UInt64} {entry : Sym}
    (resolved : kelfResolve bsearch (loadSyms qsort shlibs) pc = some (entry, offset)) :
    PlainName entry.symName := by
  cases loaded : loadSyms qsort shlibs with
  | none =>
      rw [loaded] at resolved
      cases resolved
  | some table =>
      rw [loaded] at resolved
      rcases Option.map_eq_some_iff.mp resolved with ⟨sym, searched, same⟩
      cases same
      have inTable := (bsearch.found pc table entry searched).1
      have kept := (loadSyms_kept qsort shlibs).1
      rw [loaded] at kept
      rcases List.mem_map.mp (kept.mem_iff.mp (List.mem_map_of_mem inTable)) with
        ⟨sym, isKept, place⟩
      rcases mem_keptSyms isKept with ⟨shlib, isLibrary, isFunction⟩
      have sameName : sym.symName = entry.symName := congrArg Prod.fst place
      rw [← sameName]
      exact plainNames shlib isLibrary sym isFunction

/-- The name of a frame stands for itself in a JSON string. -/
theorem PlainNames.traceText (plainNames : PlainNames shlibs) (qsort : Qsort) (bsearch : Bsearch)
    (frame : UInt64) :
    Plain (traceText bsearch (loadSyms qsort shlibs) frame) := by
  apply plain_take
  cases resolved : kelfResolve bsearch (loadSyms qsort shlibs) frame with
  | none => exact plain_append (by decide) (plain_toDigits _)
  | some found =>
      rcases found with ⟨entry, offset⟩
      have plain := (plainNames.resolved resolved).plain
      simp only
      split_ifs
      · exact plain_append (plain_append plain (by decide)) (plain_toDigits _)
      · exact plain

end Names

/-- The value of the environment, as far as it reaches the buffer, has nothing to escape. -/
def PlainNote (environment : Option (List Char)) : Prop :=
  forall value, environment = some value -> Printable value ∧ Unescaped (value.take 511)

theorem PlainNote.plain {environment : Option (List Char)} (plainNote : PlainNote environment) :
    Plain <| mprofileGetAnnotation environment := by
  cases environment with
  | none => exact (by decide : Plain "FooBar annotation".toList)
  | some value =>
      rcases plainNote value rfl with ⟨printable, unescaped⟩
      have noQuote : '"' ∉ value.take 511 := fun member => (unescaped _ member).1 rfl
      rw [mprofileGetAnnotation_eq printable, stalled_of_noQuote noQuote]
      exact fun c member => ⟨(unescaped c member).1, (unescaped c member).2,
        (printable c (List.mem_of_mem_take member)).1⟩

end Mprofile
end OsslScripts
