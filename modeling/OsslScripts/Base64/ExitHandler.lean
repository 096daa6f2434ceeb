import Mathlib.Data.List.Infix
import Mathlib.Data.List.TakeWhile
import Mathlib.Tactic.Common

namespace OsslScripts
namespace Base64

/-!
# The exit-handler option

`parseExitHandler` of `explicit.c` and `implicit.c`.  The parser walks over a
copy of its argument and writes a terminator over the separator that it found.
What it looks up is the argument as a whole.  The message of the error in the
loop is given a variable that was never assigned.

A C string is a list of characters without a terminator in it; a buffer is the
characters before its last terminator, so a terminator inside ends the string.
-/

/-- A C string. -/
structure CString where
  chars : List Char
  noNul : '\x00' ∉ chars

/-- `strchr` on the string at the start of a buffer: the index that is found. -/
def strchr (buf : List Char) (c : Char) : Option Nat :=
  (buf.takeWhile (fun d => d ≠ '\x00')).findIdx? (fun d => d = c)

/-- `strcasestr`: the rest of the haystack from the first match on. -/
def strcasestr : (haystack needle : List Char) -> Option (List Char)
  | haystack, needle =>
      if (needle.map Char.toLower).isPrefixOf (haystack.map Char.toLower) then some haystack
      else
        match haystack with
        | [] => none
        | _ :: rest => strcasestr rest needle

/-- A table of `TableEntryT`: the entries before the one without a name, and the
flag of that one. -/
structure FlagTable where
  entries : List (List Char × Int32)
  noName : Int32

/-- The loop of `wordToFlag` over the entries. -/
def wordToFlagFrom (noName : Int32) (word : List Char) : List (List Char × Int32) -> Int32
  | [] => noName
  | entry :: rest =>
      if strcasestr entry.1 word = none then wordToFlagFrom noName word rest else entry.2

/-- `wordToFlag` -/
def wordToFlag (t : FlagTable) (word : List Char) : Int32 := wordToFlagFrom t.noName word t.entries

/-- `MAIN_AT_EXIT` -/
def flagMainAtExit : Int32 := 1

/-- `BASE64_AT_EXIT` -/
def flagBase64AtExit : Int32 := 2

def nameMainAtExit : List Char := ['m', 'a', 'i', 'n', 'A', 't', 'E', 'x', 'i', 't']

def nameBase64AtExit : List Char := ['b', 'a', 's', 'e', '6', '4', 'A', 't', 'E', 'x', 'i', 't']

/-- `nameToExitFunc` -/
def nameToExitFunc (atExit : List Char) : Int32 :=
  wordToFlag ⟨[(nameMainAtExit, flagMainAtExit), (nameBase64AtExit, flagBase64AtExit)], -1⟩ atExit

/-- How the parser ends.  `err (1, "unknown atExit handler func: %s\n", ..)` is
given a text, or nothing where its argument is not initialised. -/
inductive ParseEnd where
  | returned (rv : Int32)
  | errUnknown (func : Option (List Char))
  /-- `errx (1, "memory")` -/
  | errxMemory
deriving DecidableEq, Repr

theorem strchr_shortens {buf : List Char} {c : Char} {sep : Nat} (found : strchr buf c = some sep) :
    ((buf.set sep '\x00').takeWhile (fun d => d ≠ '\x00')).length <
      (buf.takeWhile (fun d => d ≠ '\x00')).length := by
  induction buf generalizing sep with
  | nil => cases found
  | cons d rest inductionHypothesis =>
      by_cases ends : d = '\x00'
      · rw [strchr, List.takeWhile_cons_of_neg
          (by rw [decide_eq_true_iff]; exact not_not_intro ends)] at found
        cases found
      · have goesOn : forall more : List Char, (d :: more).takeWhile (fun d => d ≠ '\x00') =
            d :: more.takeWhile (fun d => d ≠ '\x00') :=
          fun more => List.takeWhile_cons_of_pos (decide_eq_true ends)
        rw [strchr, goesOn, List.findIdx?_cons] at found
        rw [goesOn, List.length_cons]
        cases sep with
        | zero =>
            rw [List.set_cons_zero, List.takeWhile_cons_of_neg (by decide)]
            exact Nat.zero_lt_succ _
        | succ sep =>
            split at found
            · cases found
            · rcases Option.map_eq_some_iff.mp found with ⟨later, inRest, same⟩
              cases same
              rw [List.set_cons_succ, goesOn, List.length_cons]
              exact Nat.succ_lt_succ (inductionHypothesis inRest)

/-- The `while` loop of the parser, and what follows it. -/
def exitHandlerLoop (atExit : List Char) (a : List Char) (rv : Int32) : ParseEnd :=
  match _found : strchr a ',' with
  | some sep =>
      if nameToExitFunc atExit = -1 then .errUnknown none
      else exitHandlerLoop atExit (a.set sep '\x00') (rv ||| nameToExitFunc atExit)
  | none =>
      if nameToExitFunc atExit = -1 then .errUnknown (some atExit)
      else .returned (rv ||| nameToExitFunc atExit)
termination_by (a.takeWhile (fun d => d ≠ '\x00')).length
decreasing_by exact strchr_shortens _found

/-- `strdup` -/
def strdup (ok : Bool) (s : List Char) : Option (List Char) := if ok then some s else none

/-- The body that both copies of `parseExitHandler` have. -/
def parseExitHandlerOf (strdupOk : Bool) (atExit : CString) : ParseEnd :=
  match strdup strdupOk atExit.chars with
  | none => .errxMemory
  | some a => exitHandlerLoop atExit.chars a 0

/-- `parseExitHandler` of `explicit.c` -/
def explicitParseExitHandler (strdupOk : Bool) (atExit : CString) : ParseEnd :=
  parseExitHandlerOf strdupOk atExit

/-- `parseExitHandler` of `implicit.c` -/
def implicitParseExitHandler (strdupOk : Bool) (atExit : CString) : ParseEnd :=
  parseExitHandlerOf strdupOk atExit

/-! ## What the option means -/

/-- The items of a comma-separated list. -/
def items (atExit : List Char) : List (List Char) := atExit.splitOn ','

/-- Equal up to the case of letters. -/
def SameWord (word name : List Char) : Prop := word.map Char.toLower = name.map Char.toLower

instance (word name : List Char) : Decidable (SameWord word name) :=
  inferInstanceAs (Decidable (_ = _))

/-- The flag of an item that is a handler's name. -/
def itemFlag (item : List Char) : Option Int32 :=
  if SameWord item nameMainAtExit then some flagMainAtExit
  else if SameWord item nameBase64AtExit then some flagBase64AtExit
  else none

/-- A list of names gives the union of their flags, and any other argument the error exit. -/
def ParsesList (atExit : CString) (result : ParseEnd) : Prop :=
  ((forall item, item ∈ items atExit.chars -> itemFlag item ≠ none) ->
    result = .returned
      (((items atExit.chars).filterMap itemFlag).foldl (fun rv func => rv ||| func) 0)) ∧
  ((Exists fun item => item ∈ items atExit.chars ∧ itemFlag item = none) ->
    Exists fun func => result = .errUnknown func)

/-- The word is a part of a handler's name. -/
def PartOfName (word : List Char) : Prop :=
  word.map Char.toLower <:+: nameMainAtExit.map Char.toLower ∨
    word.map Char.toLower <:+: nameBase64AtExit.map Char.toLower

/-- The law holds of these arguments: a list with an unknown item, or a single
word that is a name or no part of one. -/
def Understood (atExit : CString) : Prop :=
  (',' ∈ atExit.chars ∧ Exists fun item => item ∈ items atExit.chars ∧ itemFlag item = none) ∨
    (',' ∉ atExit.chars ∧ (itemFlag atExit.chars ≠ none ∨ ¬ PartOfName atExit.chars))

/-! ## Lookup -/

/-- The search ignores case and looks for the needle anywhere. -/
theorem strcasestr_eq_none_iff (haystack needle : List Char) :
    strcasestr haystack needle = none ↔
      ¬ needle.map Char.toLower <:+: haystack.map Char.toLower := by
  induction haystack with
  | nil =>
      rw [strcasestr, List.map_nil, List.infix_nil, ← List.prefix_nil, ← List.isPrefixOf_iff_prefix]
      split
      · next here => exact iff_of_false (fun impossible => by cases impossible) (not_not_intro here)
      · next elsewhere => exact iff_of_true rfl elsewhere
  | cons d rest inductionHypothesis =>
      rw [strcasestr, List.map_cons, List.infix_cons_iff, ← List.isPrefixOf_iff_prefix, not_or,
        ← inductionHypothesis]
      split
      · next here =>
          exact iff_of_false (fun impossible => by cases impossible) (fun neither => neither.1 here)
      · next elsewhere => exact ⟨fun later => ⟨elsewhere, later⟩, fun both => both.2⟩

theorem nameToExitFunc_eq (atExit : List Char) :
    nameToExitFunc atExit =
      if strcasestr nameMainAtExit atExit = none then
        if strcasestr nameBase64AtExit atExit = none then -1 else flagBase64AtExit
      else flagMainAtExit := rfl

/-- A word is known to the lookup if it is a part of a name. -/
theorem nameToExitFunc_eq_unknown_iff (atExit : List Char) :
    nameToExitFunc atExit = -1 ↔ ¬ PartOfName atExit := by
  rw [nameToExitFunc_eq, PartOfName, not_or, ← strcasestr_eq_none_iff, ← strcasestr_eq_none_iff]
  by_cases main : strcasestr nameMainAtExit atExit = none
  · rw [if_pos main]
    by_cases base64 : strcasestr nameBase64AtExit atExit = none
    · rw [if_pos base64]
      exact iff_of_true rfl ⟨main, base64⟩
    · rw [if_neg base64]
      exact iff_of_false (by decide) (fun both => base64 both.2)
  · rw [if_neg main]
    exact iff_of_false (by decide) (fun both => main both.1)

/-- The lookup of a name gives its flag. -/
theorem nameToExitFunc_of_itemFlag {word : List Char} {func : Int32}
    (named : itemFlag word = some func) :
    nameToExitFunc word = func := by
  rw [itemFlag] at named
  rw [nameToExitFunc_eq]
  split at named
  · next main =>
      have found : ¬ strcasestr nameMainAtExit word = none := by
        rw [strcasestr_eq_none_iff, main]
        exact not_not_intro (List.infix_refl _)
      rw [if_neg found]
      exact Option.some.inj named
  · split at named
    · next base64 =>
        -- the longer name is no part of the shorter one
        have different : strcasestr nameMainAtExit word = none := by
          rw [strcasestr_eq_none_iff, base64]
          decide
        have found : ¬ strcasestr nameBase64AtExit word = none := by
          rw [strcasestr_eq_none_iff, base64]
          exact not_not_intro (List.infix_refl _)
        rw [if_pos different, if_neg found]
        exact Option.some.inj named
    · cases named

/-- No name has a comma in it. -/
theorem not_partOfName_of_comma {word : List Char} (comma : ',' ∈ word) : ¬ PartOfName word := by
  have lowered : ',' ∈ word.map Char.toLower := List.mem_map.mpr ⟨',', comma, rfl⟩
  rintro (main | base64)
  · exact absurd (main.subset lowered) (by decide)
  · exact absurd (base64.subset lowered) (by decide)

/-! ## The parser -/

theorem strchr_eq_none_iff (atExit : CString) (c : Char) :
    strchr atExit.chars c = none ↔ c ∉ atExit.chars := by
  have whole : atExit.chars.takeWhile (fun d => d ≠ '\x00') = atExit.chars := by
    apply List.takeWhile_eq_self_iff.mpr
    intro d member
    exact decide_eq_true (fun same => atExit.noNul (same ▸ member))
  rw [strchr, whole, List.findIdx?_eq_none_iff]
  constructor
  · exact fun none member => by
      have := none c member
      simp at this
  · exact fun absent d member => decide_eq_false (fun same => absent (same ▸ member))

/-- With a comma the loop looks the whole argument up, and fails. -/
theorem parse_of_comma {atExit : CString} (comma : ',' ∈ atExit.chars) :
    parseExitHandlerOf true atExit = .errUnknown none := by
  have unknown := (nameToExitFunc_eq_unknown_iff atExit.chars).mpr (not_partOfName_of_comma comma)
  change exitHandlerLoop atExit.chars atExit.chars 0 = _
  rw [exitHandlerLoop]
  split
  · rw [if_pos unknown]
  · next absent => exact absurd comma ((strchr_eq_none_iff atExit ',').mp absent)

/-- Without a comma the argument is looked up once. -/
theorem parse_of_word {atExit : CString} (word : ',' ∉ atExit.chars) :
    parseExitHandlerOf true atExit =
      if nameToExitFunc atExit.chars = -1 then .errUnknown (some atExit.chars)
      else .returned (0 ||| nameToExitFunc atExit.chars) := by
  change exitHandlerLoop atExit.chars atExit.chars 0 = _
  rw [exitHandlerLoop]
  split
  · next sep found =>
      rw [(strchr_eq_none_iff atExit ',').mpr word] at found
      cases found
  · rfl

/-- The item of an argument without a comma is the argument. -/
theorem items_of_word {atExit : List Char} (word : ',' ∉ atExit) : items atExit = [atExit] := by
  apply List.splitOn_eq_singleton_of_beq_eq_false
  intro d member
  rw [beq_eq_false_iff_ne]
  exact fun same => word (same ▸ member)

theorem parsesList_iff (atExit : CString) :
    ParsesList atExit (parseExitHandlerOf true atExit) ↔ Understood atExit := by
  rw [ParsesList, Understood]
  by_cases comma : ',' ∈ atExit.chars
  · rw [parse_of_comma comma]
    simp only [comma, true_and, not_true_eq_false, false_and, or_false]
    constructor
    · rintro ⟨listed, -⟩
      by_contra none
      have impossible := listed (fun item member unknown => none ⟨item, member, unknown⟩)
      cases impossible
    · rintro ⟨item, member, unknown⟩
      exact ⟨fun all => absurd unknown (all item member), fun _ => ⟨none, rfl⟩⟩
  · rw [parse_of_word comma, items_of_word comma]
    simp only [comma, false_and, not_false_eq_true, true_and, false_or, List.mem_singleton,
      forall_eq, exists_eq_left]
    cases flag : itemFlag atExit.chars with
    | some func =>
        have named := nameToExitFunc_of_itemFlag flag
        have known : func ≠ -1 := by
          rw [itemFlag] at flag
          split at flag
          · cases flag
            decide
          · split at flag
            · cases flag
              decide
            · cases flag
        rw [named, if_neg known, List.filterMap_cons_some flag]
        exact iff_of_true ⟨fun _ => rfl, fun impossible => by cases impossible⟩
          (Or.inl (fun impossible => by cases impossible))
    | none =>
        have unknown := nameToExitFunc_eq_unknown_iff atExit.chars
        simp only [ne_eq, not_true_eq_false, false_implies, true_and, true_implies, false_or,
          ← unknown]
        split
        · next here => exact iff_of_true ⟨_, rfl⟩ here
        · next elsewhere =>
            refine iff_of_false (fun found => ?_) elsewhere
            rcases found with ⟨func, impossible⟩
            cases impossible

/-- Both parsers read a list as it is meant exactly on the arguments above, and
their error exit is given an unassigned variable exactly for arguments with a comma. -/
theorem parseExitHandler_iff (atExit : CString) :
    (ParsesList atExit (explicitParseExitHandler true atExit) ↔ Understood atExit) ∧
      (ParsesList atExit (implicitParseExitHandler true atExit) ↔ Understood atExit) ∧
      (explicitParseExitHandler true atExit = .errUnknown none ↔ ',' ∈ atExit.chars) ∧
      (implicitParseExitHandler true atExit = .errUnknown none ↔ ',' ∈ atExit.chars) := by
  have unassigned : parseExitHandlerOf true atExit = .errUnknown none ↔ ',' ∈ atExit.chars := by
    refine ⟨fun ended => ?_, parse_of_comma⟩
    by_contra word
    rw [parse_of_word word] at ended
    split at ended
    · cases ended
    · cases ended
  exact ⟨parsesList_iff atExit, parsesList_iff atExit, unassigned, unassigned⟩

/-- Both names, and the empty argument. -/
theorem parseExitHandler_not_parsesList :
    (¬ forall atExit, ParsesList atExit (explicitParseExitHandler true atExit)) ∧
      ¬ forall atExit, ParsesList atExit (implicitParseExitHandler true atExit) := by
  have both : ¬ ParsesList ⟨nameMainAtExit ++ ',' :: nameBase64AtExit, by decide⟩
      (parseExitHandlerOf true ⟨nameMainAtExit ++ ',' :: nameBase64AtExit, by decide⟩) := by
    intro parses
    rw [parse_of_comma (by decide)] at parses
    have impossible := parses.1 (by decide)
    cases impossible
  exact ⟨fun always => both (always _), fun always => both (always _)⟩

end Base64
end OsslScripts
