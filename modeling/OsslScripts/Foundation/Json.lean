import Mathlib.Algebra.Ring.Int.Defs
import Mathlib.Algebra.Ring.Nat
import Mathlib.Data.List.TakeWhile
import Mathlib.Data.List.Forall2

namespace OsslScripts
namespace Foundation
namespace Json

/-!
# JSON

A reader of JSON texts.  The scanner turns characters into tokens, and the
parser is a pushdown automaton over tokens, so both are folds over their input
and what they do to a text in several parts is composed from the parts
(`scanRun_append`, `parseRun_append`).

A string is the sequence of its code points.  An escaped surrogate that has no
partner stands for itself.  A number is a mantissa and a power of ten.
-/

inductive Value where
  | null
  | boolean (b : Bool)
  | number (mantissa exponent : Int)
  | string (points : List Nat)
  | array (elements : List Value)
  | object (members : List (List Nat × Value))

inductive Token where
  | openBrace
  | closeBrace
  | openBracket
  | closeBracket
  | comma
  | colon
  | null
  | boolean (b : Bool)
  | number (mantissa exponent : Int)
  | string (points : List Nat)
deriving DecidableEq, Repr

/-- The code points of a text without escapes. -/
def points (text : List Char) : List Nat := text.map Char.toNat

/-! ## The scanner -/

/-- Where the scanner is: between tokens, in a number or a name, or in a string. -/
inductive Scan where
  | between
  | word (reversed : List Char)
  | quoted (reversed : List Nat)
  | escaped (reversed : List Nat)
  | hex (reversed : List Nat) (left value : Nat)
deriving DecidableEq, Repr

def isBlank (c : Char) : Bool := c = ' ' || c = '\t' || c = '\n' || c = '\r'

def punctuation : Char -> Option Token
  | '{' => some .openBrace
  | '}' => some .closeBrace
  | '[' => some .openBracket
  | ']' => some .closeBracket
  | ',' => some .comma
  | ':' => some .colon
  | _ => none

/-- Characters of numbers and names. -/
def isWordChar (c : Char) : Bool := c.isAlphanum || c = '+' || c = '-' || c = '.'

/-- The optional exponent of a number. -/
def readExponent : List Char -> Option Int
  | [] => some 0
  | e :: rest =>
      if e = 'e' ∨ e = 'E' then
        let sign : Int := if rest.head? = some '-' then -1 else 1
        let digits :=
          if rest.head? = some '-' ∨ rest.head? = some '+' then rest.tail else rest
        if digits ≠ [] ∧ digits.all Char.isDigit then some (sign * Nat.ofDigitChars 10 digits 0)
        else none
      else none

/-- What follows the integer part of a number: fraction and exponent. -/
def readFraction (sign : Int) (digits : List Char) : List Char -> Option (Int × Int)
  | '.' :: rest =>
      let fraction := rest.takeWhile Char.isDigit
      if fraction = [] then none
      else (readExponent (rest.dropWhile Char.isDigit)).map (fun exponent =>
        (sign * Nat.ofDigitChars 10 (digits ++ fraction) 0, exponent - fraction.length))
  | rest =>
    (readExponent rest).map (fun exponent => (sign * Nat.ofDigitChars 10 digits 0, exponent))

/-- A number without its sign.  There is no zero in front of another digit. -/
def readMagnitude (sign : Int) (text : List Char) : Option (Int × Int) :=
  let digits := text.takeWhile Char.isDigit
  if digits ≠ [] ∧ (digits.head? = some '0' -> digits = ['0']) then
    readFraction sign digits (text.dropWhile Char.isDigit)
  else none

def readNumber : List Char -> Option (Int × Int)
  | '-' :: rest => readMagnitude (-1) rest
  | text => readMagnitude 1 text

/-- The token of a complete word. -/
def readWord (word : List Char) : Option Token :=
  if word = ['n', 'u', 'l', 'l'] then some .null
  else if word = ['t', 'r', 'u', 'e'] then some (.boolean true)
  else if word = ['f', 'a', 'l', 's', 'e'] then some (.boolean false)
  else (readNumber word).map (fun number => .number number.1 number.2)

/-- The escapes of one character. -/
def simpleEscape : Char -> Option Nat
  | '"' => some 0x22
  | '\\' => some 0x5c
  | '/' => some 0x2f
  | 'b' => some 0x08
  | 'f' => some 0x0c
  | 'n' => some 0x0a
  | 'r' => some 0x0d
  | 't' => some 0x09
  | _ => none

def hexDigit (c : Char) : Option Nat :=
  if c.isDigit then some (c.toNat - '0'.toNat)
  else if 'a' ≤ c ∧ c ≤ 'f' then some (c.toNat - 'a'.toNat + 10)
  else if 'A' ≤ c ∧ c ≤ 'F' then some (c.toNat - 'A'.toNat + 10)
  else none

/-- Add an escaped code unit.  The second half of a surrogate pair joins the first. -/
def pushUnit (reversed : List Nat) (unit : Nat) : List Nat :=
  match reversed with
  | [] => [unit]
  | last :: before =>
      if 0xd800 ≤ last ∧ last < 0xdc00 ∧ 0xdc00 ≤ unit ∧ unit < 0xe000 then
        (0x10000 + (last - 0xd800) * 0x400 + (unit - 0xdc00)) :: before
      else unit :: last :: before

/-- One character: the next state, and the tokens that are complete. -/
def scanStep : Scan -> Char -> Option (Scan × List Token)
  | .between, c =>
      if isBlank c then some (.between, [])
      else if c = '"' then some (.quoted [], [])
      else if isWordChar c then some (.word [c], [])
      else (punctuation c).map (fun token => (.between, [token]))
  | .word reversed, c =>
      if isWordChar c then some (.word (c :: reversed), [])
      else
        match readWord reversed.reverse with
        | none => none
        | some token =>
            if isBlank c then some (.between, [token])
            else (punctuation c).map (fun mark => (.between, [token, mark]))
  | .quoted reversed, c =>
      if c = '"' then some (.between, [.string reversed.reverse])
      else if c = '\\' then some (.escaped reversed, [])
      else if c.toNat < 0x20 then none
      else some (.quoted (c.toNat :: reversed), [])
  | .escaped reversed, c =>
      if c = 'u' then some (.hex reversed 4 0, [])
      else (simpleEscape c).map (fun point => (.quoted (point :: reversed), []))
  | .hex reversed left value, c =>
      match hexDigit c with
      | none => none
      | some digit =>
          if left ≤ 1 then some (.quoted (pushUnit reversed (value * 16 + digit)), [])
          else some (.hex reversed (left - 1) (value * 16 + digit), [])

/-- Scan a part of a text. -/
def scanRun : Scan -> List Char -> Option (Scan × List Token)
  | st, [] => some (st, [])
  | st, c :: rest =>
      match scanStep st c with
      | none => none
      | some (st, tokens) => (scanRun st rest).map (fun last => (last.1, tokens ++ last.2))

/-- The tokens of a whole text. -/
def scan (text : List Char) : Option (List Token) :=
  match scanRun .between text with
  | some (.between, tokens) => some tokens
  | some (.word reversed, tokens) => (readWord reversed.reverse).map (fun last => tokens ++ [last])
  | _ => none

/-! ## The parser -/

/-- An array or an object that is not closed yet, its elements in reverse. -/
inductive Frame where
  | array (reversed : List Value)
  | object (reversed : List (List Nat × Value)) (key : List Nat)

/-- What is expected next, inside the open arrays and objects. -/
inductive Parse where
  | value (open_ : List Frame)
  | firstElement (open_ : List Frame)
  | member (open_ : List Frame) (reversed : List (List Nat × Value))
  | colon (open_ : List Frame) (reversed : List (List Nat × Value)) (key : List Nat)
  | after (open_ : List Frame) (value : Value)

/-- The first token of a value. -/
def startValue (open_ : List Frame) : Token -> Option Parse
  | .openBrace => some (.member open_ [])
  | .openBracket => some (.firstElement open_)
  | .null => some (.after open_ .null)
  | .boolean b => some (.after open_ (.boolean b))
  | .number mantissa exponent => some (.after open_ (.number mantissa exponent))
  | .string text => some (.after open_ (.string text))
  | _ => none

/-- One token.  An object may be closed where a member is expected only if it has none. -/
def parseStep : Parse -> Token -> Option Parse
  | .value open_, token => startValue open_ token
  | .firstElement open_, .closeBracket => some (.after open_ (.array []))
  | .firstElement open_, token => startValue (.array [] :: open_) token
  | .member open_ [], .closeBrace => some (.after open_ (.object []))
  | .member open_ reversed, .string key => some (.colon open_ reversed key)
  | .colon open_ reversed key, .colon => some (.value (.object reversed key :: open_))
  | .after (.array reversed :: open_) value, .comma =>
    some (.value (.array (value :: reversed) :: open_))
  | .after (.array reversed :: open_) value, .closeBracket =>
      some (.after open_ (.array (value :: reversed).reverse))
  | .after (.object reversed key :: open_) value, .comma =>
      some (.member open_ ((key, value) :: reversed))
  | .after (.object reversed key :: open_) value, .closeBrace =>
      some (.after open_ (.object ((key, value) :: reversed).reverse))
  | _, _ => none

/-- Parse a part of the tokens. -/
def parseRun : Parse -> List Token -> Option Parse
  | st, [] => some st
  | st, token :: rest =>
      match parseStep st token with
      | none => none
      | some st => parseRun st rest

/-- The value of a JSON text. -/
def parse (text : List Char) : Option Value :=
  match scan text with
  | none => none
  | some tokens =>
      match parseRun (.value []) tokens with
      | some (.after [] value) => some value
      | _ => none

/-! ## Trailing commas -/

/-- The tokens without the commas that stand before a closing brace or bracket. -/
def dropTrailingCommas : List Token -> List Token
  | .comma :: .closeBrace :: rest => .closeBrace :: dropTrailingCommas rest
  | .comma :: .closeBracket :: rest => .closeBracket :: dropTrailingCommas rest
  | token :: rest => token :: dropTrailingCommas rest
  | [] => []

/-- The value of a text for a reader that takes a comma behind the last element. -/
def parseLenient (text : List Char) : Option Value :=
  match scan text with
  | none => none
  | some tokens =>
      match parseRun (.value []) (dropTrailingCommas tokens) with
      | some (.after [] value) => some value
      | _ => none

/-- After a comma nothing may be closed. -/
theorem parseStep_comma {st st' : Parse} (stepped : parseStep st .comma = some st') :
    parseStep st' .closeBrace = none ∧ parseStep st' .closeBracket = none := by
  cases st with
  | after open_ value =>
      cases open_ with
      | nil => cases stepped
      | cons frame rest => cases frame <;> cases stepped <;> exact ⟨rfl, rfl⟩
  | member open_ reversed => cases reversed <;> cases stepped
  | _ => cases stepped

/-- JSON has no trailing commas. -/
theorem dropTrailingCommas_of_parseRun {st st' : Parse} {tokens : List Token}
    (ran : parseRun st tokens = some st') : dropTrailingCommas tokens = tokens := by
  induction tokens using dropTrailingCommas.induct generalizing st with
  | case1 rest inductionHypothesis =>
      rw [parseRun] at ran
      cases stepped : parseStep st .comma with
      | none => rw [stepped] at ran; cases ran
      | some next =>
          rw [stepped] at ran
          simp only [parseRun, (parseStep_comma stepped).1] at ran
          cases ran
  | case2 rest inductionHypothesis =>
      rw [parseRun] at ran
      cases stepped : parseStep st .comma with
      | none => rw [stepped] at ran; cases ran
      | some next =>
          rw [stepped] at ran
          simp only [parseRun, (parseStep_comma stepped).2] at ran
          cases ran
  | case3 token rest notBrace notBracket inductionHypothesis =>
      rw [dropTrailingCommas]
      · rw [parseRun] at ran
        cases stepped : parseStep st token with
        | none => rw [stepped] at ran; cases ran
        | some next =>
            rw [stepped] at ran
            rw [inductionHypothesis ran]
      · exact notBrace
      · exact notBracket
  | case4 => rfl

/-- A text with a trailing comma is not JSON. -/
theorem parse_of_trailingComma {text : List Char} {tokens : List Token}
    (scanned : scan text = some tokens)
    (trailing : dropTrailingCommas tokens ≠ tokens) : parse text = none := by
  rw [parse, scanned]
  simp only
  cases ran : parseRun (.value []) tokens with
  | none => rfl
  | some st => exact absurd (dropTrailingCommas_of_parseRun ran) trailing

/-! ## Scanning a text in parts -/

theorem scanRun_append (st : Scan) (first second : List Char) :
    scanRun st (first ++ second) =
      match scanRun st first with
      | none => none
      | some (st', tokens) =>
        (scanRun st' second).map (fun last => (last.1, tokens ++ last.2)) := by
  induction first generalizing st with
  | nil =>
      change scanRun st second = (scanRun st second).map (fun last => (last.1, last.2))
      cases scanRun st second with
      | none => rfl
      | some last => rfl
  | cons c rest inductionHypothesis =>
      rw [List.cons_append, scanRun, scanRun]
      cases scanStep st c with
      | none => rfl
      | some result =>
          simp only [inductionHypothesis]
          cases scanRun result.1 rest with
          | none => rfl
          | some middle => simp [Function.comp_def, List.append_assoc]

/-- A part of a text which consists of whole tokens. -/
def Scans (text : List Char) (tokens : List Token) : Prop :=
  scanRun .between text = some (.between, tokens)

theorem Scans.append {first second : List Char} {tokens tokens' : List Token}
    (left : Scans first tokens) (right : Scans second tokens') :
    Scans (first ++ second) (tokens ++ tokens') := by
  unfold Scans at *
  rw [scanRun_append, left]
  simp only [right, Option.map_some]

/-- A text printed piece by piece. -/
theorem Scans.flatten {texts : List (List Char)} {tokens : List (List Token)}
    (pieces : List.Forall₂ Scans texts tokens) : Scans texts.flatten tokens.flatten := by
  induction pieces with
  | nil => rfl
  | cons first _ inductionHypothesis => exact first.append inductionHypothesis

theorem Scans.whole {text : List Char} {tokens : List Token} (scans : Scans text tokens) :
    scan text = some tokens := by
  rw [scan, scans]

/-- Characters that stand for themselves in a string. -/
def Plain (text : List Char) : Prop :=
  forall c, c ∈ text -> c ≠ '"' ∧ c ≠ '\\' ∧ 0x20 ≤ c.toNat

instance (text : List Char) : Decidable (Plain text) :=
  List.decidableBAll (fun c : Char => c ≠ '"' ∧ c ≠ '\\' ∧ 0x20 ≤ c.toNat) text

theorem scanRun_plain {text : List Char} (plain : Plain text) (reversed : List Nat) :
    scanRun (.quoted reversed) text = some (.quoted ((points text).reverse ++ reversed), []) := by
  induction text generalizing reversed with
  | nil => rfl
  | cons c rest inductionHypothesis =>
      have here := plain c List.mem_cons_self
      have onward := inductionHypothesis (fun d member => plain d (List.mem_cons_of_mem c member))
        (c.toNat :: reversed)
      rw [scanRun, scanStep, if_neg here.1, if_neg here.2.1, if_neg (Nat.not_lt.mpr here.2.2)]
      simp only [onward, Option.map_some, List.append_nil]
      rw [points, points, List.map_cons, List.reverse_cons, List.append_assoc,
        List.singleton_append]

/-- A string literal without escapes. -/
theorem Scans.string {text : List Char} (plain : Plain text) :
    Scans ('"' :: text ++ ['"']) [.string (points text)] := by
  have opened : scanStep .between '"' = some (.quoted [], []) := rfl
  unfold Scans
  rw [List.cons_append, scanRun, opened]
  simp only [scanRun_append, scanRun_plain plain, List.append_nil]
  change some (Scan.between, [Token.string (points text).reverse.reverse]) = _
  rw [List.reverse_reverse]

/-! ## Inside a string -/

/-- The scanner has read an opening quote and not its partner. -/
def Scan.Inside : Scan -> Prop
  | .quoted _ => True
  | .escaped _ => True
  | .hex _ _ _ => True
  | _ => False

/-- How many code points of the open string are known. -/
def Scan.held : Scan -> Nat
  | .quoted reversed => reversed.length
  | .escaped reversed => reversed.length
  | .hex reversed _ _ => reversed.length
  | _ => 0

theorem length_pushUnit (reversed : List Nat) (unit : Nat) :
    (pushUnit reversed unit).length ≤ reversed.length + 1 := by
  unfold pushUnit
  split
  · exact Nat.le_refl _
  · split_ifs
    · simp only [List.length_cons]
      omega
    · exact Nat.le_refl _

/-- A character other than a quote does not end the string and adds one code point at most. -/
theorem scanStep_inside {st st' : Scan} {c : Char} {tokens : List Token} (inside : st.Inside)
    (noQuote : c ≠ '"') (stepped : scanStep st c = some (st', tokens)) :
    st'.Inside ∧ tokens = [] ∧ st'.held ≤ st.held + 1 := by
  cases st with
  | between => exact inside.elim
  | word reversed => exact inside.elim
  | quoted reversed =>
      rw [scanStep, if_neg noQuote] at stepped
      split_ifs at stepped
      · cases stepped
        exact ⟨trivial, rfl, Nat.le_succ _⟩
      · cases stepped
        exact ⟨trivial, rfl, Nat.le_refl _⟩
  | escaped reversed =>
      rw [scanStep] at stepped
      split_ifs at stepped
      · cases stepped
        exact ⟨trivial, rfl, Nat.le_succ _⟩
      · cases escape : simpleEscape c with
        | none => rw [escape] at stepped; cases stepped
        | some point =>
            rw [escape] at stepped
            cases stepped
            exact ⟨trivial, rfl, Nat.le_refl _⟩
  | hex reversed left value =>
      rw [scanStep] at stepped
      cases read : hexDigit c with
      | none => rw [read] at stepped; cases stepped
      | some digit =>
          rw [read] at stepped
          simp only at stepped
          split_ifs at stepped
          · cases stepped
            exact ⟨trivial, rfl, length_pushUnit _ _⟩
          · cases stepped
            exact ⟨trivial, rfl, Nat.le_succ _⟩

/-- A text without quotes does not end the string. -/
theorem scanRun_inside {text : List Char} (noQuote : '"' ∉ text) {st st' : Scan}
    {tokens : List Token} (inside : st.Inside) (scanned : scanRun st text = some (st', tokens)) :
    st'.Inside ∧ tokens = [] ∧ st'.held ≤ st.held + text.length := by
  induction text generalizing st tokens with
  | nil =>
      cases scanned
      exact ⟨inside, rfl, Nat.le_refl _⟩
  | cons c rest inductionHypothesis =>
      rw [scanRun] at scanned
      cases stepped : scanStep st c with
      | none => rw [stepped] at scanned; cases scanned
      | some result =>
          have here : c ≠ '"' := fun same => noQuote (same ▸ List.mem_cons_self)
          have one := scanStep_inside inside here stepped
          rw [stepped] at scanned
          cases onward : scanRun result.1 rest with
          | none =>
              simp only [onward] at scanned
              cases scanned
          | some last =>
              simp only [onward] at scanned
              cases scanned
              have others := inductionHypothesis
                (fun member => noQuote (List.mem_cons_of_mem c member)) one.1 onward
              rw [one.2.1, others.2.1]
              refine ⟨others.1, rfl, ?_⟩
              rw [List.length_cons]
              omega

/-- A quote ends the string unless it is escaped. -/
theorem scanStep_quote {st : Scan} {points : List Nat} (inside : st.Inside)
    (closed : scanStep st '"' = some (.between, [.string points])) :
    st = .quoted points.reverse := by
  cases st with
  | between => exact inside.elim
  | word reversed => exact inside.elim
  | quoted reversed =>
      cases closed
      rw [List.reverse_reverse]
  | escaped reversed => cases closed
  | hex reversed left value => cases closed

/-- A text without quotes between two quotes: a string literal, if the scanner
is back at the level of the literal when the second quote comes. -/
theorem scan_literal {text : List Char} (noQuote : '"' ∉ text) {points : List Nat} :
    scan ('"' :: text ++ ['"']) = some [.string points] ↔
      scanRun (.quoted []) text = some (.quoted points.reverse, []) := by
  have opened : scanStep .between '"' = some (.quoted [], []) := rfl
  have whole : scanRun .between ('"' :: text ++ ['"']) =
      (scanRun (.quoted []) (text ++ ['"'])).map (fun last => (last.1, [] ++ last.2)) := by
    rw [List.cons_append, scanRun, opened]
  have start : Scan.Inside (.quoted []) := trivial
  rw [scan, whole, scanRun_append]
  constructor
  · intro scanned
    cases run : scanRun (.quoted []) text with
    | none => rw [run] at scanned; cases scanned
    | some result =>
        have parts := scanRun_inside noQuote start run
        rw [run] at scanned
        simp only [scanRun, parts.2.1] at scanned
        cases closed : scanStep result.1 '"' with
        | none => rw [closed] at scanned; cases scanned
        | some last =>
            rw [closed] at scanned
            rcases last with ⟨st, tokens⟩
            have isClosing : st = .between ∧ tokens = [.string points] := by
              cases inner : result.1 with
              | between => rw [inner] at parts; exact parts.1.elim
              | word reversed => rw [inner] at parts; exact parts.1.elim
              | quoted reversed =>
                  rw [inner] at closed
                  cases closed
                  simpa using scanned
              | escaped reversed => rw [inner] at closed; cases closed; cases scanned
              | hex reversed left value => rw [inner] at closed; cases closed
            rw [isClosing.1, isClosing.2] at closed
            have isQuoted := scanStep_quote parts.1 closed
            rw [← isQuoted, ← parts.2.1]
  · intro run
    rw [run]
    simp [scanRun, scanStep]

/-- Backslashes escape each other in pairs. -/
theorem scanRun_backslashes (count : Nat) (reversed : List Nat) :
    scanRun (.quoted reversed) (List.replicate (2 * count) '\\') =
      some (.quoted (List.replicate count 0x5c ++ reversed), []) := by
  induction count generalizing reversed with
  | zero => rfl
  | succ count inductionHypothesis =>
      have pair : 2 * (count + 1) = 2 * count + 1 + 1 := by omega
      have escape : scanStep (.quoted reversed) '\\' = some (.escaped reversed, []) := rfl
      have escaped : scanStep (.escaped reversed) '\\' = some (.quoted (0x5c :: reversed), []) :=
        rfl
      rw [pair, List.replicate_succ, List.replicate_succ, scanRun, escape]
      simp only [scanRun, escaped, inductionHypothesis, Option.map_some, List.append_nil]
      rw [List.replicate_succ', List.append_assoc, List.singleton_append]

/-- A string that is continued with backslashes alone. -/
theorem scanRun_filled {st : Scan} {count : Nat} {reversed : List Nat} {tokens : List Token}
    (inside : st.Inside) (positive : 0 < count)
    (scanned : scanRun st (List.replicate count '\\') = some (.quoted reversed, tokens)) :
    Exists fun pairs => Exists fun before =>
      reversed = List.replicate pairs 0x5c ++ before ∧ before.length ≤ st.held := by
  -- an odd number of backslashes leaves the last one open
  have even : forall (n : Nat) (start : List Nat),
      scanRun (.quoted start) (List.replicate n '\\') = some (.quoted reversed, tokens) ->
        Exists fun pairs => reversed = List.replicate pairs 0x5c ++ start := by
    intro n start run
    have half : n = 2 * (n / 2) ∨ n = 2 * (n / 2) + 1 := by omega
    generalize n / 2 = m at half
    rcases half with rfl | rfl
    · rw [scanRun_backslashes] at run
      cases run
      exact ⟨m, rfl⟩
    · rw [List.replicate_add, scanRun_append, scanRun_backslashes] at run
      cases run
  cases st with
  | between => exact inside.elim
  | word start => exact inside.elim
  | quoted start =>
      rcases even count start scanned with ⟨pairs, same⟩
      exact ⟨pairs, start, same, Nat.le_refl _⟩
  | escaped start =>
      rcases Nat.exists_eq_succ_of_ne_zero (Nat.ne_of_gt positive) with ⟨n, rfl⟩
      have escaped : scanStep (.escaped start) '\\' = some (.quoted (0x5c :: start), []) := rfl
      rw [List.replicate_succ, scanRun, escaped] at scanned
      rcases Option.map_eq_some_iff.mp scanned with ⟨last, run, same⟩
      have isLast : last = (.quoted reversed, tokens) := by
        rw [← same]
        rfl
      rcases even n (0x5c :: start) (run.trans (congrArg some isLast)) with ⟨pairs, reversedEq⟩
      refine ⟨pairs + 1, start, ?_, Nat.le_refl _⟩
      rw [reversedEq, List.replicate_succ', List.append_assoc, List.singleton_append]
  | hex start left value =>
      rcases Nat.exists_eq_succ_of_ne_zero (Nat.ne_of_gt positive) with ⟨n, rfl⟩
      rw [List.replicate_succ, scanRun] at scanned
      cases scanned

/-- With an escape in it, a string has less code points than its literal has characters. -/
theorem scanRun_shortens {text : List Char} (noQuote : '"' ∉ text) (escape : '\\' ∈ text)
    {reversed : List Nat} {st : Scan} {tokens : List Token}
    (scanned : scanRun (.quoted reversed) text = some (st, tokens)) :
    st.held < reversed.length + text.length := by
  induction text generalizing reversed tokens with
  | nil => cases escape
  | cons c rest inductionHypothesis =>
      have notHere : c ≠ '"' := fun same => noQuote (same ▸ List.mem_cons_self)
      have notThere : '"' ∉ rest := fun member => noQuote (List.mem_cons_of_mem c member)
      rw [scanRun, scanStep, if_neg notHere] at scanned
      by_cases here : c = '\\'
      · rw [if_pos here] at scanned
        rcases Option.map_eq_some_iff.mp scanned with ⟨last, run, same⟩
        cases same
        have start : Scan.Inside (.escaped reversed) := trivial
        have others := (scanRun_inside notThere start run).2.2
        rw [List.length_cons]
        exact Nat.lt_succ_of_le others
      · rw [if_neg here] at scanned
        by_cases control : c.toNat < 0x20
        · rw [if_pos control] at scanned
          cases scanned
        · rw [if_neg control] at scanned
          rcases Option.map_eq_some_iff.mp scanned with ⟨last, run, same⟩
          cases same
          have later : '\\' ∈ rest :=
            (List.mem_cons.mp escape).resolve_left (fun same => here same.symm)
          have others := inductionHypothesis notThere later run
          rw [List.length_cons] at others ⊢
          omega

/-! ## The first escape -/

/-- The code points of the open string that are known, in reverse. -/
def Scan.known : Scan -> List Nat
  | .quoted reversed => reversed
  | .escaped reversed => reversed
  | .hex reversed _ _ => reversed
  | _ => []

/-- Above these points stands this unit, or a pair of surrogates. -/
def Scan.Keeps (st : Scan) (base : List Nat) (unit : Nat) : Prop :=
  Exists fun point => point :: base <:+ st.known ∧ (point = unit ∨ 0x10000 ≤ point)

theorem pushUnit_keeps {base reversed : List Nat} {point : Nat} (kept : point :: base <:+ reversed)
    (pushed : Nat) : Exists fun point' => point' :: base <:+ pushUnit reversed pushed ∧
      (point' = point ∨ 0x10000 ≤ point') := by
  rcases kept with ⟨above, rfl⟩
  cases above with
  | nil =>
      rw [List.nil_append, pushUnit]
      split_ifs
      · exact ⟨_, List.suffix_refl _, Or.inr (by omega)⟩
      · exact ⟨point, List.suffix_cons pushed _, Or.inl rfl⟩
  | cons last above =>
      rw [List.cons_append, pushUnit]
      split_ifs
      · exact ⟨point, ⟨_ :: above, rfl⟩, Or.inl rfl⟩
      · exact ⟨point, ⟨pushed :: last :: above, rfl⟩, Or.inl rfl⟩

/-- What is known stays known while the string is open. -/
theorem scanStep_keeps {st st' : Scan} {c : Char} {tokens : List Token} {base : List Nat}
    {unit : Nat}
    (kept : st.Keeps base unit) (noQuote : c ≠ '"') (stepped : scanStep st c = some (st', tokens)) :
    st'.Keeps base unit := by
  rcases kept with ⟨point, below, isUnit⟩
  cases st with
  | between => exact absurd below (by simp [Scan.known])
  | word reversed => exact absurd below (by simp [Scan.known])
  | quoted reversed =>
      rw [scanStep, if_neg noQuote] at stepped
      split_ifs at stepped
      · cases stepped
        exact ⟨point, below, isUnit⟩
      · cases stepped
        exact ⟨point, below.trans (List.suffix_cons _ _), isUnit⟩
  | escaped reversed =>
      rw [scanStep] at stepped
      split_ifs at stepped
      · cases stepped
        exact ⟨point, below, isUnit⟩
      · rcases Option.map_eq_some_iff.mp stepped with ⟨pushed, -, same⟩
        cases same
        exact ⟨point, below.trans (List.suffix_cons _ _), isUnit⟩
  | hex reversed left value =>
      rw [scanStep] at stepped
      cases read : hexDigit c with
      | none => rw [read] at stepped; cases stepped
      | some digit =>
          rw [read] at stepped
          simp only at stepped
          split_ifs at stepped
          · cases stepped
            rcases pushUnit_keeps below (value * 16 + digit) with ⟨point', below', same⟩
            refine ⟨point', below', ?_⟩
            omega
          · cases stepped
            exact ⟨point, below, isUnit⟩

theorem scanRun_keeps {text : List Char} (noQuote : '"' ∉ text) {st st' : Scan}
    {tokens : List Token}
    {base : List Nat} {unit : Nat} (kept : st.Keeps base unit)
    (scanned : scanRun st text = some (st', tokens)) : st'.Keeps base unit := by
  induction text generalizing st tokens with
  | nil =>
      cases scanned
      exact kept
  | cons c rest inductionHypothesis =>
      rw [scanRun] at scanned
      cases stepped : scanStep st c with
      | none => rw [stepped] at scanned; cases scanned
      | some result =>
          have here : c ≠ '"' := fun same => noQuote (same ▸ List.mem_cons_self)
          rw [stepped] at scanned
          rcases Option.map_eq_some_iff.mp scanned with ⟨last, onward, same⟩
          cases same
          exact inductionHypothesis (fun member => noQuote (List.mem_cons_of_mem c member))
            (scanStep_keeps kept here stepped) onward

/-- The unit of four digits at the start of the text. -/
def hexUnit : List Char -> Option Nat
  | a :: b :: c :: d :: _ => do
      let first ← hexDigit a
      let second ← hexDigit b
      let third ← hexDigit c
      let fourth ← hexDigit d
      return ((first * 16 + second) * 16 + third) * 16 + fourth
  | _ => none

/-- The unit that an escape stands for, with what follows the backslash at the start of the text. -/
def escapeOf : List Char -> Option Nat
  | [] => none
  | c :: rest => if c = 'u' then hexUnit rest else simpleEscape c

/-- A digit of an escape, if the string ends. -/
theorem scanRun_digit {reversed points : List Nat} {left value : Nat} {text : List Char}
    {tokens : List Token}
    (scanned : scanRun (.hex reversed left value) text = some (.quoted points, tokens)) :
    Exists fun c => Exists fun rest => Exists fun digit =>
      text = c :: rest ∧ hexDigit c = some digit ∧
      scanRun (if left ≤ 1 then .quoted (pushUnit reversed (value * 16 + digit))
        else .hex reversed (left - 1) (value * 16 + digit)) rest =
          some (.quoted points, tokens) := by
  cases text with
  | nil => cases scanned
  | cons c rest =>
      rw [scanRun, scanStep] at scanned
      cases read : hexDigit c with
      | none => rw [read] at scanned; cases scanned
      | some digit =>
          refine ⟨c, rest, digit, rfl, read, ?_⟩
          rw [read] at scanned
          simp only at scanned
          split_ifs at scanned ⊢
          · simpa using scanned
          · simpa using scanned

/-- Four digits, if the string ends. -/
theorem scanRun_hexUnit {base points : List Nat} {text : List Char} {tokens : List Token}
    (noQuote : '"' ∉ text) (single : forall last, base.head? = some last -> last < 0xd800)
    (scanned : scanRun (.hex base 4 0) text = some (.quoted points, tokens)) :
    Exists fun unit => hexUnit text = some unit ∧ Scan.Keeps (.quoted points) base unit := by
  rcases scanRun_digit scanned with ⟨a, rest1, first, rfl, readFirst, scanned⟩
  rcases scanRun_digit scanned with ⟨b, rest2, second, rfl, readSecond, scanned⟩
  rcases scanRun_digit scanned with ⟨c, rest3, third, rfl, readThird, scanned⟩
  rcases scanRun_digit scanned with ⟨d, rest4, fourth, rfl, readFourth, closed⟩
  have alone : forall unit, pushUnit base unit = unit :: base := by
    intro unit
    unfold pushUnit
    cases base with
    | nil => rfl
    | cons last before => exact if_neg (fun paired => by have := single last rfl; omega)
  have behind : '"' ∉ rest4 := fun member => noQuote (by simp [member])
  refine ⟨((first * 16 + second) * 16 + third) * 16 + fourth, ?_, ?_⟩
  · simp only [hexUnit, readFirst, readSecond, readThird, readFourth]
    rfl
  · have start : Scan.Keeps
        (.quoted (pushUnit base (((first * 16 + second) * 16 + third) * 16 + fourth))) base
        (((first * 16 + second) * 16 + third) * 16 + fourth) := by
      rw [alone]
      exact ⟨_, List.suffix_refl _, Or.inl rfl⟩
    exact scanRun_keeps behind start (by simpa using closed)

/-- The first escape of a string is complete, and its unit stands in the string where the
backslash is. -/
theorem scanRun_escape {base points : List Nat} {text : List Char} {tokens : List Token}
    (noQuote : '"' ∉ text) (single : forall last, base.head? = some last -> last < 0xd800)
    (scanned : scanRun (.quoted base) ('\\' :: text) = some (.quoted points, tokens)) :
    Exists fun unit => escapeOf text = some unit ∧ Scan.Keeps (.quoted points) base unit := by
  have opened : scanStep (.quoted base) '\\' = some (.escaped base, []) := rfl
  rw [scanRun, opened] at scanned
  rcases Option.map_eq_some_iff.mp scanned with ⟨last, run, same⟩
  rcases last with ⟨st, others⟩
  cases same
  cases text with
  | nil => cases run
  | cons c rest =>
      have later : '"' ∉ rest := fun member => noQuote (List.mem_cons_of_mem c member)
      rw [scanRun, scanStep] at run
      rw [escapeOf]
      by_cases isHex : c = 'u'
      · rw [if_pos isHex] at run ⊢
        rcases Option.map_eq_some_iff.mp run with ⟨last, inHex, same⟩
        rcases last with ⟨st, more⟩
        cases same
        exact scanRun_hexUnit later single inHex
      · rw [if_neg isHex] at run ⊢
        cases simple : simpleEscape c with
        | none => rw [simple] at run; cases run
        | some unit =>
            rw [simple] at run
            rcases Option.map_eq_some_iff.mp run with ⟨last, closed, same⟩
            rcases last with ⟨st, more⟩
            cases same
            exact ⟨unit, rfl, scanRun_keeps later ⟨unit, List.suffix_refl _, Or.inl rfl⟩ closed⟩

/-- The digits by their characters. -/
theorem hexDigit_cases {c : Char} {digit : Nat} (read : hexDigit c = some digit) :
    (c.toNat = 48 + digit ∧ digit < 10) ∨
      ((c.toNat = 87 + digit ∨ c.toNat = 55 + digit) ∧ 10 ≤ digit ∧ digit < 16) := by
  unfold hexDigit at read
  have below : forall low high : Char, low ≤ c ∧ c ≤ high ->
      low.toNat ≤ c.toNat ∧ c.toNat ≤ high.toNat :=
    fun low high both => both
  split_ifs at read with decimal lower upper
  · have bounds : 48 ≤ c.toNat ∧ c.toNat ≤ 57 := by
      simpa [Char.isDigit, UInt32.le_iff_toNat_le] using decimal
    have isDigit : c.toNat - 48 = digit := Option.some.inj read
    omega
  · have bounds : 97 ≤ c.toNat ∧ c.toNat ≤ 102 := below 'a' 'f' lower
    have isDigit : c.toNat - 97 + 10 = digit := Option.some.inj read
    omega
  · have bounds : 65 ≤ c.toNat ∧ c.toNat ≤ 70 := below 'A' 'F' upper
    have isDigit : c.toNat - 65 + 10 = digit := Option.some.inj read
    omega

theorem eq_ofNat {c : Char} {n : Nat} (same : c.toNat = n) : c = Char.ofNat n := by
  rw [← same, Char.ofNat_toNat]

/-- The escapes of a backslash. -/
theorem escapeOf_backslash {text : List Char} (isBackslash : escapeOf text = some 0x5c) :
    (Exists fun rest => text = '\\' :: rest) ∨
      Exists fun c => Exists fun rest => text = 'u' :: '0' :: '0' :: '5' :: c :: rest ∧
        (c = 'c' ∨ c = 'C') := by
  cases text with
  | nil => cases isBackslash
  | cons c rest =>
      rw [escapeOf] at isBackslash
      split_ifs at isBackslash with isHex
      · right
        unfold hexUnit at isBackslash
        split at isBackslash
        · next a b c' d more =>
            simp only [Option.bind_eq_bind, Option.bind_eq_some_iff] at isBackslash
            rcases isBackslash with
              ⟨first, readFirst, second, readSecond, third, readThird, fourth, readFourth, unit⟩
            have isUnit : ((first * 16 + second) * 16 + third) * 16 + fourth = 0x5c :=
              Option.some.inj unit
            have one := hexDigit_cases readFirst
            have two := hexDigit_cases readSecond
            have three := hexDigit_cases readThird
            have four := hexDigit_cases readFourth
            have isFirst : a.toNat = 48 := by omega
            have isSecond : b.toNat = 48 := by omega
            have isThird : c'.toNat = 53 := by omega
            have isFourth : d.toNat = 99 ∨ d.toNat = 67 := by omega
            refine ⟨d, more, ?_, isFourth.imp eq_ofNat eq_ofNat⟩
            rw [isHex, eq_ofNat isFirst, eq_ofNat isSecond, eq_ofNat isThird]
        · cases isBackslash
      · left
        have simple : c = '\\' := by
          unfold simpleEscape at isBackslash
          split at isBackslash <;> first | rfl | exact absurd isBackslash (by decide)
        exact ⟨rest, by rw [simple]⟩

/-! ## Integers -/

/-- The decimal digits of an integer, with a sign in front of a negative one. -/
def decimal : Int -> List Char
  | .ofNat n => Nat.toDigits 10 n
  | .negSucc n => '-' :: Nat.toDigits 10 (n + 1)

theorem isDigit_toDigits {n : Nat} {c : Char} (member : c ∈ Nat.toDigits 10 n) : c.isDigit = true :=
  Nat.isDigit_of_mem_toDigits (by omega) (by omega) member

/-- Only the number zero starts with a zero. -/
theorem head_toDigits (n : Nat) (zero : (Nat.toDigits 10 n).head? = some '0') : n = 0 := by
  induction n using Nat.strongRecOn with
  | ind n inductionHypothesis =>
      rw [Nat.toDigits_eq_if (by omega)] at zero
      by_cases small : n < 10
      · rw [if_pos small] at zero
        have isZero : Nat.digitChar n = '0' := Option.some.inj zero
        have cases : forall m, m < 10 -> Nat.digitChar m = '0' -> m = 0 := by decide
        exact cases n small isZero
      · rw [if_neg small, List.head?_append_of_ne_nil _ Nat.toDigits_ne_nil] at zero
        have quotient := inductionHypothesis (n / 10) (by omega) zero
        omega

theorem readMagnitude_toDigits (sign : Int) (n : Nat) :
    readMagnitude sign (Nat.toDigits 10 n) = some (sign * n, 0) := by
  have all : (Nat.toDigits 10 n).takeWhile Char.isDigit = Nat.toDigits 10 n :=
    List.takeWhile_eq_self_iff.mpr (fun c member => isDigit_toDigits member)
  have rest : (Nat.toDigits 10 n).dropWhile Char.isDigit = [] :=
    List.dropWhile_eq_nil_iff.mpr (fun c member => isDigit_toDigits member)
  have noZero : (Nat.toDigits 10 n).head? = some '0' -> Nat.toDigits 10 n = ['0'] := by
    intro zero
    rw [head_toDigits n zero]
    rfl
  unfold readMagnitude
  simp only [all, rest]
  rw [if_pos ⟨Nat.toDigits_ne_nil, noZero⟩]
  simp only [readFraction, readExponent, Option.map_some,
    Nat.ofDigitChars_toDigits (b := 10) (n := n) (by omega) (by omega)]

/-- A word of digits is no name. -/
theorem readWord_of_digit {c : Char} {rest : List Char} (digit : c.isDigit = true ∨ c = '-') :
    readWord (c :: rest) = (readNumber (c :: rest)).map
      (fun number => .number number.1 number.2) := by
  have different : forall name : Char, name.isDigit = false -> name ≠ '-' ->
      forall more, c :: rest ≠ name :: more := by
    rintro name notDigit notMinus more same
    cases same
    rcases digit with isDigit | isMinus
    · rw [notDigit] at isDigit
      cases isDigit
    · exact notMinus isMinus
  unfold readWord
  rw [if_neg (different 'n' (by decide) (by decide) _),
    if_neg (different 't' (by decide) (by decide) _),
    if_neg (different 'f' (by decide) (by decide) _)]

theorem readWord_decimal (n : Int) : readWord (decimal n) = some (.number n 0) := by
  cases n with
  | ofNat n =>
      have reading := readMagnitude_toDigits 1 n
      change readWord (Nat.toDigits 10 n) = _
      cases digits : Nat.toDigits 10 n with
      | nil => exact absurd digits Nat.toDigits_ne_nil
      | cons c rest =>
          have isDigit : c.isDigit = true :=
            isDigit_toDigits (by rw [digits]; exact List.mem_cons_self)
          have notMinus : c ≠ '-' := by
            rintro rfl
            exact absurd isDigit (by decide)
          rw [digits] at reading
          rw [readWord_of_digit (Or.inl isDigit), readNumber, reading]
          · simp
          · rintro more same
            exact notMinus (List.cons.inj same).1
  | negSucc n =>
      change readWord ('-' :: Nat.toDigits 10 (n + 1)) = _
      rw [readWord_of_digit (Or.inr rfl), readNumber, readMagnitude_toDigits]
      simp [Int.negSucc_eq]

theorem isWordChar_decimal {n : Int} {c : Char} (member : c ∈ decimal n) : isWordChar c = true := by
  have ofDigit : c.isDigit = true -> isWordChar c = true := by
    intro digit
    simp [isWordChar, Char.isAlphanum, digit]
  cases n with
  | ofNat n => exact ofDigit (isDigit_toDigits member)
  | negSucc n =>
      rcases List.mem_cons.mp member with rfl | digit
      · rfl
      · exact ofDigit (isDigit_toDigits digit)

theorem scanRun_word {text : List Char} (word : forall c, c ∈ text -> isWordChar c = true)
    (reversed : List Char) :
    scanRun (.word reversed) text = some (.word (text.reverse ++ reversed), []) := by
  induction text generalizing reversed with
  | nil => rfl
  | cons c rest inductionHypothesis =>
      have onward := inductionHypothesis (fun d member => word d (List.mem_cons_of_mem c member))
        (c :: reversed)
      rw [scanRun, scanStep, if_pos (word c List.mem_cons_self)]
      simp only [onward, Option.map_some, List.append_nil, List.reverse_cons, List.append_assoc,
        List.singleton_append]

/-- A decimal number and the character that ends it. -/
theorem scanRun_decimal (n : Int) :
    scanRun .between (decimal n) = some (.word (decimal n).reverse, []) := by
  cases text : decimal n with
  | nil =>
      have reading := readWord_decimal n
      rw [text] at reading
      cases reading
  | cons c rest =>
      have word : forall d, d ∈ c :: rest -> isWordChar d = true := by
        intro d member
        rw [← text] at member
        exact isWordChar_decimal member
      have here := word c List.mem_cons_self
      have apart : forall d, isWordChar d = true -> isBlank d = false ∧ d ≠ '"' := by
        intro d isWord
        refine ⟨?_, ?_⟩
        · by_contra blank
          have isBlank : isBlank d = true := by simpa using blank
          simp only [Json.isBlank, Bool.or_eq_true, decide_eq_true_eq] at isBlank
          rcases isBlank with ((rfl | rfl) | rfl) | rfl <;> exact absurd isWord (by decide)
        · rintro rfl
          exact absurd isWord (by decide)
      have onward := scanRun_word (fun d member => word d (List.mem_cons_of_mem c member)) [c]
      rw [scanRun, scanStep, (apart c here).1, if_neg (by decide), if_neg (apart c here).2,
        if_pos here]
      simp only [onward, Option.map_some, List.append_nil, List.reverse_cons]

theorem Scans.decimal_comma (n : Int) :
    Scans (decimal n ++ [',']) [.number n 0, .comma] := by
  unfold Scans
  rw [scanRun_append, scanRun_decimal]
  simp only [scanRun, scanStep, List.reverse_reverse, readWord_decimal]
  rfl

theorem Scans.decimal_newline (n : Int) : Scans (decimal n ++ ['\n']) [.number n 0] := by
  unfold Scans
  rw [scanRun_append, scanRun_decimal]
  simp only [scanRun, scanStep, List.reverse_reverse, readWord_decimal]
  rfl

/-! ## Parsing tokens in parts -/

theorem parseRun_append (st : Parse) (first second : List Token) :
    parseRun st (first ++ second) =
      match parseRun st first with
      | none => none
      | some st' => parseRun st' second := by
  induction first generalizing st with
  | nil => rfl
  | cons token rest inductionHypothesis =>
      rw [List.cons_append, parseRun, parseRun]
      cases parseStep st token with
      | none => rfl
      | some st' => exact inductionHypothesis st'

/-- The tokens are those of one value. -/
def Delivers (tokens : List Token) (value : Value) : Prop :=
  forall open_, parseRun (.value open_) tokens = some (.after open_ value)

/-- Go on behind a value. -/
theorem Delivers.followed {tokens : List Token} {value : Value} (delivers : Delivers tokens value)
    (open_ : List Frame) (rest : List Token) :
    parseRun (.value open_) (tokens ++ rest) = parseRun (.after open_ value) rest := by
  rw [parseRun_append, delivers open_]

/-- Where an element or the end of an array may come, an element may. -/
theorem Delivers.first {tokens : List Token} {value : Value} (delivers : Delivers tokens value)
    (open_ : List Frame) :
    parseRun (.firstElement open_) tokens = some (.after (.array [] :: open_) value) := by
  have inside := delivers (.array [] :: open_)
  cases tokens with
  | nil => cases inside
  | cons token rest =>
      rw [← inside, parseRun, parseRun]
      cases token with
      | closeBracket => cases inside
      | _ => rfl

/-- The elements after the first one. -/
theorem parseRun_elements {tokens : List (List Token)} {values : List Value}
    (elements : List.Forall₂ Delivers tokens values) (open_ : List Frame) (reversed : List Value)
    (value : Value) :
    parseRun (.after (.array reversed :: open_) value)
        (tokens.flatMap (fun element => .comma :: element) ++ [.closeBracket]) =
      some (.after open_ (.array (reversed.reverse ++ value :: values))) := by
  induction elements generalizing reversed value with
  | nil =>
      change some (Parse.after open_ (.array (value :: reversed).reverse)) = _
      rw [List.reverse_cons]
  | @cons element next tokens values delivers _ inductionHypothesis =>
      have separated : parseStep (.after (.array reversed :: open_) value) .comma =
          some (.value (.array (value :: reversed) :: open_)) := rfl
      rw [List.flatMap_cons, List.append_assoc, List.cons_append, parseRun, separated]
      simp only [parseRun_append _ element, delivers (.array (value :: reversed) :: open_)]
      rw [inductionHypothesis, List.reverse_cons, List.append_assoc, List.singleton_append]

/-- An array of at least one element. -/
theorem Delivers.array {element : List Token} {value : Value} {tokens : List (List Token)}
    {values : List Value} (first : Delivers element value)
    (rest : List.Forall₂ Delivers tokens values) :
    Delivers (.openBracket :: element ++ (tokens.flatMap (fun element => .comma :: element) ++
      [.closeBracket])) (.array (value :: values)) := by
  intro open_
  have opened : parseStep (.value open_) .openBracket = some (.firstElement open_) := rfl
  rw [List.cons_append, parseRun, opened]
  simp only [parseRun_append _ element, first.first open_]
  rw [parseRun_elements rest open_ [] value]
  rfl

/-- Elements with commas between them. -/
def separated : List (List Token) -> List Token
  | [] => []
  | element :: rest => element ++ rest.flatMap (fun next => .comma :: next)

/-- An array of any length. -/
theorem Delivers.list {tokens : List (List Token)} {values : List Value}
    (elements : List.Forall₂ Delivers tokens values) :
    Delivers (.openBracket :: separated tokens ++ [.closeBracket]) (.array values) := by
  cases elements with
  | nil => exact fun open_ => rfl
  | cons first rest =>
      have whole := first.array rest
      rwa [← List.append_assoc] at whole

/-- Elements with a comma behind each, and one more. -/
theorem separated_concat (elements : List (List Token)) (last : List Token) :
    separated (elements ++ [last]) = elements.flatMap
      (fun element => element ++ [.comma]) ++ last := by
  have rest : forall others : List (List Token),
      (others ++ [last]).flatMap (fun next => .comma :: next) =
        .comma :: others.flatMap (fun element => element ++ [.comma]) ++ last := by
    intro others
    induction others with
    | nil => simp
    | cons element others inductionHypothesis =>
        rw [List.cons_append, List.flatMap_cons, inductionHypothesis]
        simp
  cases elements with
  | nil => simp [separated]
  | cons element others =>
      rw [List.cons_append, separated, rest, List.flatMap_cons]
      simp

/-- The tokens of one value are a text. -/
theorem parse_of_delivers {text : List Char} {tokens : List Token} {value : Value}
    (scans : Scans text tokens) (delivers : Delivers tokens value) : parse text = some value := by
  rw [parse, scans.whole]
  simp only [delivers []]

/-! ## Looking into a value -/

namespace Value

/-- The member of an object.  The last of several members with one name counts. -/
def member (key : String) : Value -> Option Value
  | .object members =>
    (members.reverse.find? (fun entry => entry.1 = points key.toList)).map Prod.snd
  | _ => none

def elements : Value -> Option (List Value)
  | .array elements => some elements
  | _ => none

def text : Value -> Option (List Nat)
  | .string points => some points
  | _ => none

def integer : Value -> Option Int
  | .number mantissa exponent => if exponent = 0 then some mantissa else none
  | _ => none

def natural (value : Value) : Option Nat :=
  value.integer.bind (fun n => if 0 ≤ n then some n.toNat else none)

/-- A number of at most 64 bits. -/
def word (value : Value) : Option UInt64 :=
  value.natural.bind (fun n => if n < 2 ^ 64 then some (UInt64.ofNat n) else none)

@[simp] theorem integer_number (n : Int) : (Value.number n 0).integer = some n := rfl

@[simp] theorem natural_number (n : Nat) : (Value.number (n : Int) 0).natural = some n := by
  change (if (0 : Int) ≤ n then some (n : Int).toNat else none) = some n
  rw [if_pos (Int.natCast_nonneg n), Int.toNat_natCast]

@[simp] theorem word_number (x : UInt64) : (Value.number (x.toNat : Int) 0).word = some x := by
  rw [word, natural_number]
  change (if x.toNat < 2 ^ 64 then some (UInt64.ofNat x.toNat) else none) = some x
  rw [if_pos x.toNat_lt, UInt64.ofNat_toNat]

end Value

end Json
end Foundation
end OsslScripts
