import OsslScripts.Foundation.Json

namespace OsslScripts
namespace Mprofile

open Foundation

/-!
# The annotation

`mprofile_get_annotation`, whose result both JSON writers put between two double
quotes.  A quote in `MPROFILE_ANNOTATION` is met with a backslash, but the source
pointer stays on it, so every byte that is left in the buffer becomes a
backslash.  A backslash is copied as it is.
-/

/-- `sizeof (annotation_buf)` -/
def sizeofAnnotationBuf : Nat := 512

/-- The `while` loop: what it writes from `dst` on, with `room` bytes before the last. -/
def annotationLoop : Nat -> List Char -> List Char
  | 0, _ => []
  | _ + 1, [] => []
  | room + 1, c :: src =>
      if c = '"' then '\\' :: annotationLoop room (c :: src) else c :: annotationLoop room src

/-- The string at the start of a buffer. -/
def cString (buf : List Char) : List Char := buf.takeWhile (fun c => c ≠ Char.ofNat 0)

/-- `mprofile_get_annotation`.  The buffer is static, and cleared when the
process starts. -/
def mprofileGetAnnotation (environment : Option (List Char)) : List Char :=
  match environment with
  | none => "FooBar annotation".toList
  | some src =>
      let written := annotationLoop (sizeofAnnotationBuf - 1) src
      cString (written ++ (List.replicate sizeofAnnotationBuf (Char.ofNat 0)).drop written.length)

/-! ## What the annotation is for -/

/-- The printable characters. -/
def Printable (text : List Char) : Prop := forall c, c ∈ text -> 0x20 ≤ c.toNat ∧ c.toNat ≤ 0x7e

instance (text : List Char) : Decidable (Printable text) :=
  List.decidableBAll (fun c : Char => 0x20 ≤ c.toNat ∧ c.toNat ≤ 0x7e) text

/-- The text as it stands in a JSON string, with its quotes and backslashes escaped. -/
def escapedForm (text : List Char) : List Char :=
  text.flatMap (fun c => if c = '"' ∨ c = '\\' then ['\\', c] else [c])

/-- Between two quotes the annotation is a string literal for the value, or for
a prefix of a value whose escaped form does not fit. -/
def AnnotationEscaped (value : List Char) : Prop :=
  Exists fun decoded =>
    Json.scan ('"' :: mprofileGetAnnotation (some value) ++ ['"']) = some [.string decoded] ∧
      if (escapedForm value).length ≤ 511 then decoded = Json.points value
      else decoded <+: Json.points value

/-- No character needs an escape. -/
def Unescaped (text : List Char) : Prop := forall c, c ∈ text -> c ≠ '"' ∧ c ≠ '\\'

instance (text : List Char) : Decidable (Unescaped text) :=
  List.decidableBAll (fun c : Char => c ≠ '"' ∧ c ≠ '\\') text

/-- The value as it stands up to its first quote, and backslashes from there to
the end of the buffer. -/
def stalled (room : Nat) (value : List Char) : List Char :=
  let before := value.takeWhile (fun c => c ≠ '"')
  before.take room ++ if '"' ∈ value then List.replicate (room - before.length) '\\' else []

/-- The text behind a backslash starts so that the two together are a JSON spelling of a backslash,
with `\\` in the place of a quote. -/
def SpellsBackslash (rest : List Char) : Prop :=
  (Exists fun more => rest = '\\' :: more ∨ rest = '"' :: more) ∨
    Exists fun c => Exists fun more => rest = 'u' :: '0' :: '0' :: '5' :: c :: more ∧
      (c = 'c' ∨ c = 'C')

/-- The first character of the text that needs an escape is a backslash, and spells one. -/
def StartsSpelling (text : List Char) : Prop :=
  Exists fun before => Exists fun rest =>
    text = before ++ '\\' :: rest ∧ Unescaped before ∧ SpellsBackslash rest

section Copy

variable {value : List Char}

/-- The loop stays on the first quote. -/
theorem annotationLoop_eq (room : Nat) (value : List Char) :
    annotationLoop room value = stalled room value := by
  induction room generalizing value with
  | zero => simp [annotationLoop, stalled]
  | succ room inductionHypothesis =>
      cases value with
      | nil => simp [annotationLoop, stalled]
      | cons c src =>
          rw [annotationLoop]
          by_cases quote : c = '"'
          · subst quote
            rw [if_pos rfl, inductionHypothesis]
            simp [stalled, List.replicate_succ]
          · rw [if_neg quote, inductionHypothesis]
            have member : '"' ∈ c :: src ↔ '"' ∈ src := by
              rw [List.mem_cons, or_iff_right (fun same => quote same.symm)]
            unfold stalled
            simp only [member, List.takeWhile_cons, quote, ne_eq, not_false_eq_true, decide_true,
              if_true, List.take_succ_cons, List.length_cons, Nat.add_sub_add_right,
                List.cons_append]

theorem length_stalled (room : Nat) (value : List Char) :
    (stalled room value).length ≤ room := by
  unfold stalled
  rw [List.length_append, List.length_take]
  split_ifs
  · rw [List.length_replicate]
    omega
  · rw [List.length_nil]
    omega

theorem mem_stalled {room : Nat} {c : Char} (member : c ∈ stalled room value) :
    c ≠ '"' ∧ (c ∈ value ∨ c = '\\') := by
  rcases List.mem_append.mp member with copied | filled
  · have before := List.mem_of_mem_take copied
    have notQuote : c ≠ '"' := by simpa using List.mem_takeWhile_imp before
    exact ⟨notQuote, Or.inl ((List.takeWhile_prefix _).subset before)⟩
  · split_ifs at filled
    · have isFill := List.eq_of_mem_replicate filled
      exact ⟨by rw [isFill]; decide, Or.inr isFill⟩
    · cases filled

/-- The buffer holds what the loop wrote. -/
theorem mprofileGetAnnotation_eq (printable : Printable value) :
    mprofileGetAnnotation (some value) = stalled 511 value := by
  have short := length_stalled 511 value
  have noNul : forall c, c ∈ stalled 511 value -> c ≠ Char.ofNat 0 := by
    rintro c member rfl
    rcases (mem_stalled member).2 with own | isFill
    · exact absurd (printable _ own).1 (by decide)
    · exact absurd isFill (by decide)
  have tail : exists zeros, (List.replicate sizeofAnnotationBuf (Char.ofNat 0)).drop
      (stalled 511 value).length = Char.ofNat 0 :: zeros := by
    rw [List.drop_replicate]
    refine
      ⟨List.replicate (sizeofAnnotationBuf - (stalled 511 value).length - 1) (Char.ofNat 0), ?_⟩
    rw [← List.replicate_succ]
    congr 1
    unfold sizeofAnnotationBuf
    omega
  rcases tail with ⟨zeros, rest⟩
  unfold mprofileGetAnnotation
  have room : sizeofAnnotationBuf - 1 = 511 := rfl
  simp only [room, annotationLoop_eq, rest]
  rw [cString, List.takeWhile_append_of_pos (fun c member => decide_eq_true (noNul c member)),
    List.takeWhile_cons_of_neg (by simp), List.append_nil]

theorem noQuote_stalled (room : Nat) (value : List Char) : '"' ∉ stalled room value :=
  fun member => (mem_stalled member).1 rfl

/-- From the first quote on the buffer is filled with backslashes. -/
theorem stalled_quote {before rest : List Char} (noQuote : '"' ∉ before) (room : Nat) :
    stalled room (before ++ '"' :: rest) =
      before.take room ++ List.replicate (room - before.length) '\\' := by
  have others : forall c, c ∈ before -> decide (c ≠ '"') = true :=
    fun c member => decide_eq_true (fun same => noQuote (same ▸ member))
  have first : (before ++ '"' :: rest).takeWhile (fun c => c ≠ '"') = before := by
    rw [List.takeWhile_append_of_pos others, List.takeWhile_cons_of_neg (by simp), List.append_nil]
  have quoted : '"' ∈ before ++ '"' :: rest := List.mem_append_right _ List.mem_cons_self
  unfold stalled
  simp only [first, if_pos quoted]

/-- Up to its first quote a value is copied. -/
theorem stalled_of_noQuote {room : Nat} (noQuote : '"' ∉ value.take room) :
    stalled room value = value.take room := by
  by_cases quoted : '"' ∈ value
  · rcases List.eq_append_cons_of_mem quoted with ⟨before, rest, rfl, noneBefore⟩
    have far : room ≤ before.length := by
      by_contra near
      rcases Nat.exists_eq_succ_of_ne_zero (Nat.sub_ne_zero_of_lt (Nat.lt_of_not_le near)) with
        ⟨n, positive⟩
      apply noQuote
      rw [List.take_append, positive]
      exact List.mem_append_right _ List.mem_cons_self
    rw [stalled_quote noneBefore, Nat.sub_eq_zero_of_le far, List.replicate_zero, List.append_nil,
      List.take_append_of_le_length far]
  · have all : value.takeWhile (fun c => c ≠ '"') = value := by
      refine List.takeWhile_eq_self_iff.mpr (fun c member => ?_)
      have different : c ≠ '"' := fun same => quoted (same ▸ member)
      exact decide_eq_true different
    unfold stalled
    simp only [all, if_neg quoted, List.append_nil]

/-- A value with nothing to escape is a string literal as it is. -/
theorem scan_stalled_of_unescaped (printable : Printable value)
    (unescaped : Unescaped (value.take 511)) :
    Json.scan ('"' :: stalled 511 value ++ ['"']) =
      some [.string (Json.points (value.take 511))] := by
  have noQuote : '"' ∉ value.take 511 := fun member => (unescaped _ member).1 rfl
  have plain : Json.Plain (value.take 511) := fun c member =>
    ⟨(unescaped c member).1, (unescaped c member).2,
      (printable c ((List.take_subset 511 value) member)).1⟩
  rw [stalled_of_noQuote noQuote]
  exact (Json.Scans.string plain).whole

/-- The escaped form is at least as long as the text, and longer if something is escaped. -/
theorem length_escapedForm (text : List Char) :
    text.length ≤ (escapedForm text).length ∧
      ((escapedForm text).length = text.length -> Unescaped text) := by
  unfold escapedForm
  induction text with
  | nil => exact ⟨Nat.le_refl _, fun _ c member => absurd member List.not_mem_nil⟩
  | cons c rest inductionHypothesis =>
      rw [List.flatMap_cons, List.length_append, List.length_cons]
      split_ifs with special
      · refine ⟨?_, fun same => ?_⟩
        · simp only [List.length_cons, List.length_nil]
          omega
        · simp only [List.length_cons, List.length_nil] at same
          omega
      · simp only [List.length_singleton]
        refine ⟨by omega, fun same d member => ?_⟩
        rcases List.mem_cons.mp member with rfl | later
        · exact not_or.mp special
        · exact inductionHypothesis.2 (by omega) d later

/-- What is decoded is not the value, if something in the value needed an escape. -/
theorem scan_stalled_ne {decoded : List Nat} (special : ¬ Unescaped (value.take 511))
    (fits : value.length ≤ 511)
    (scanned : Json.scan ('"' :: stalled 511 value ++ ['"']) = some [.string decoded]) :
    decoded ≠ Json.points value := by
  have run := (Json.scan_literal (noQuote_stalled 511 value)).mp scanned
  have whole : value.take 511 = value := List.take_of_length_le fits
  rw [whole] at special
  rintro rfl
  by_cases quoted : '"' ∈ value
  · -- the position of the first quote holds one of the backslashes
    rcases List.eq_append_cons_of_mem quoted with ⟨before, rest, rfl, noneBefore⟩
    have room : before.length < 511 := by
      rw [List.length_append, List.length_cons] at fits
      omega
    rw [stalled_quote noneBefore, List.take_of_length_le (Nat.le_of_lt room),
      Json.scanRun_append] at run
    cases copied : Json.scanRun (.quoted []) before with
    | none => rw [copied] at run; cases run
    | some middle =>
        have start : Json.Scan.Inside (.quoted []) := trivial
        have open_ := Json.scanRun_inside noneBefore start copied
        rw [copied] at run
        rcases Option.map_eq_some_iff.mp run with ⟨last, filled, same⟩
        have isLast : last.1 = .quoted (Json.points (before ++ '"' :: rest)).reverse :=
          congrArg Prod.fst same
        rcases last with ⟨st, tokens⟩
        cases isLast
        rcases Json.scanRun_filled open_.1 (Nat.sub_pos_of_lt room) filled with
          ⟨pairs, held, decoded, short⟩
        have bound : held.length ≤ before.length := by
          have atMost := open_.2.2
          simp only [Json.Scan.held, List.length_nil] at atMost short
          omega
        have reversed := congrArg List.reverse decoded
        rw [List.reverse_reverse, List.reverse_append, List.reverse_replicate, Json.points,
          List.map_append, List.map_cons] at reversed
        have atQuote := congrArg (fun points => points[before.length]?) reversed
        rw [List.getElem?_append_right (by simp), List.getElem?_append_right (by simpa using bound),
          List.length_map, Nat.sub_self, List.getElem?_cons_zero,
            List.getElem?_replicate] at atQuote
        split_ifs at atQuote
        exact absurd atQuote (by decide)
  · have noQuote : '"' ∉ value.take 511 := by rwa [whole]
    rw [stalled_of_noQuote noQuote, whole] at run
    have escape : '\\' ∈ value := by
      by_contra absent
      exact special (fun c member =>
        ⟨fun same => quoted (same ▸ member), fun same => absent (same ▸ member)⟩)
    have shorter := Json.scanRun_shortens quoted escape run
    simp only [Json.Scan.held, List.length_reverse, Json.points, List.length_map,
      List.length_nil] at shorter
    omega

/-- The loop sees only what has room in the buffer. -/
theorem annotationLoop_take (room : Nat) (value : List Char) :
    annotationLoop room (value.take room) = annotationLoop room value := by
  induction room generalizing value with
  | zero => rfl
  | succ room inductionHypothesis =>
      cases value with
      | nil => rfl
      | cons c src =>
          rw [List.take_succ_cons, annotationLoop, annotationLoop]
          by_cases quote : c = '"'
          · -- the rest is not looked at
            subst quote
            have noneBefore : '"' ∉ ([] : List Char) := List.not_mem_nil
            have same : stalled room ('"' :: src.take room) = stalled room ('"' :: src) :=
              (stalled_quote noneBefore room).trans (stalled_quote noneBefore room).symm
            rw [if_pos rfl, if_pos rfl, annotationLoop_eq, annotationLoop_eq, same]
          · rw [if_neg quote, if_neg quote, inductionHypothesis]

/-- The loop copies characters other than quotes. -/
theorem annotationLoop_append {before : List Char} (noQuote : '"' ∉ before) {room : Nat}
    (fits : before.length ≤ room) (text : List Char) :
    annotationLoop room (before ++ text) = before ++ annotationLoop (room - before.length)
      text := by
  induction before generalizing room with
  | nil => rfl
  | cons c rest inductionHypothesis =>
      rcases Nat.exists_eq_add_of_lt (Nat.lt_of_lt_of_le (Nat.zero_lt_succ _) fits) with ⟨n, rfl⟩
      have here : c ≠ '"' := fun same => noQuote (same ▸ List.mem_cons_self)
      have later : '"' ∉ rest := fun member => noQuote (List.mem_cons_of_mem c member)
      rw [List.length_cons] at fits
      rw [List.cons_append, Nat.zero_add, annotationLoop, if_neg here,
        inductionHypothesis later (by omega), List.cons_append, List.length_cons,
          Nat.add_sub_add_right]

/-- A character other than a backslash was copied. -/
theorem annotationLoop_cons {room : Nat} {text copied : List Char} {c : Char}
    (wrote : annotationLoop room text = c :: copied) (notBackslash : c ≠ '\\') :
    Exists fun rest => Exists fun less => text = c :: rest ∧ annotationLoop less rest = copied := by
  cases room with
  | zero => cases wrote
  | succ room =>
      cases text with
      | nil => cases wrote
      | cons d rest =>
          rw [annotationLoop] at wrote
          split_ifs at wrote
          · exact absurd (List.cons.inj wrote).1.symm notBackslash
          · rcases List.cons.inj wrote with ⟨rfl, same⟩
            exact ⟨rest, room, rfl, same⟩

/-- What the loop writes behind a backslash makes an escape of a backslash only if the text does. -/
theorem spellsBackslash_of_escapeOf {room : Nat} {rest : List Char}
    (isBackslash : Json.escapeOf (annotationLoop room rest) = some 0x5c) :
    SpellsBackslash rest := by
  rcases Json.escapeOf_backslash isBackslash with ⟨more, wrote⟩ | ⟨c, more, wrote, isC⟩
  · left
    cases room with
    | zero => cases wrote
    | succ room =>
        cases rest with
        | nil => cases wrote
        | cons d rest =>
            rw [annotationLoop] at wrote
            split_ifs at wrote with quote
            · exact ⟨rest, Or.inr (by rw [quote])⟩
            · exact ⟨rest, Or.inl (by rw [(List.cons.inj wrote).1])⟩
  · right
    have notBackslash : c ≠ '\\' := by rcases isC with rfl | rfl <;> decide
    rcases annotationLoop_cons wrote (by decide) with ⟨rest1, room1, rfl, wrote1⟩
    rcases annotationLoop_cons wrote1 (by decide) with ⟨rest2, room2, rfl, wrote2⟩
    rcases annotationLoop_cons wrote2 (by decide) with ⟨rest3, room3, rfl, wrote3⟩
    rcases annotationLoop_cons wrote3 (by decide) with ⟨rest4, room4, rfl, wrote4⟩
    rcases annotationLoop_cons wrote4 notBackslash with ⟨rest5, room5, rfl, -⟩
    exact ⟨c, rest5, rfl, isC⟩

/-- Where a text stops being plain. -/
theorem split_special {text : List Char} (special : ¬ Unescaped text) :
    Exists fun before => Exists fun c => Exists fun rest =>
      text = before ++ c :: rest ∧ Unescaped before ∧ (c = '"' ∨ c = '\\') := by
  induction text with
  | nil => exact absurd (fun c member => absurd member List.not_mem_nil) special
  | cons c rest inductionHypothesis =>
      by_cases here : c = '"' ∨ c = '\\'
      · exact ⟨[], c, rest, rfl, fun _ member => absurd member List.not_mem_nil, here⟩
      · have later : ¬ Unescaped rest := by
          intro unescaped
          refine special (fun d member => ?_)
          rcases List.mem_cons.mp member with rfl | behind
          · exact not_or.mp here
          · exact unescaped d behind
        rcases inductionHypothesis later with ⟨before, d, rest', rfl, unescaped, isSpecial⟩
        refine ⟨c :: before, d, rest', rfl, fun e member => ?_, isSpecial⟩
        rcases List.mem_cons.mp member with rfl | inside
        · exact not_or.mp here
        · exact unescaped e inside

/-- If a value with characters to escape comes out right, the first of them is a backslash that
the raw characters spell. -/
theorem startsSpelling_of_escaped (printable : Printable value) (escaped : AnnotationEscaped value)
    (special : ¬ Unescaped (value.take 511)) : StartsSpelling (value.take 511) := by
  rcases escaped with ⟨decoded, scanned, right⟩
  have isPrefix : decoded <+: Json.points value := by
    split_ifs at right
    · exact right ▸ List.prefix_refl _
    · exact right
  rcases split_special special with ⟨before, c, rest, split, unescaped, isSpecial⟩
  have noQuote : '"' ∉ before := fun member => (unescaped _ member).1 rfl
  have room : before.length < 511 := by
    have within : (value.take 511).length ≤ 511 := List.length_take_le _ _
    rw [split, List.length_append, List.length_cons] at within
    omega
  rcases Nat.exists_eq_add_of_lt room with ⟨n, left⟩
  -- the special character gives a backslash, whichever it is
  have buffer : stalled 511 value =
      before ++ '\\' :: annotationLoop n (if c = '"' then c :: rest else rest) := by
    have remains : 511 - before.length = n + 1 := by omega
    rw [← annotationLoop_eq, ← annotationLoop_take, split,
      annotationLoop_append noQuote (Nat.le_of_lt room), remains, annotationLoop]
    split_ifs with quote
    · rfl
    · rw [isSpecial.resolve_left quote]
  have noneLeft : '"' ∉ annotationLoop n (if c = '"' then c :: rest else rest) := by
    rw [annotationLoop_eq]
    exact noQuote_stalled _ _
  have copied : forall d, d ∈ before -> 0x20 ≤ d.toNat ∧ d.toNat ≤ 0x7e := by
    intro d member
    refine printable d ((List.take_subset 511 value) ?_)
    rw [split]
    exact List.mem_append_left _ member
  have plain : Json.Plain before := fun d member =>
    ⟨(unescaped d member).1, (unescaped d member).2, (copied d member).1⟩
  rw [mprofileGetAnnotation_eq printable] at scanned
  have run := (Json.scan_literal (noQuote_stalled 511 value)).mp scanned
  rw [buffer, Json.scanRun_append, Json.scanRun_plain plain] at run
  rcases Option.map_eq_some_iff.mp run with ⟨⟨st, tokens⟩, onward, same⟩
  cases same
  have single : forall last, ((Json.points before).reverse ++ []).head? = some last ->
      last < 0xd800 := by
    intro last isLast
    have member : last ∈ Json.points before := by simpa using List.mem_of_mem_head? isLast
    rcases List.mem_map.mp member with ⟨d, inBefore, rfl⟩
    have small := (copied d inBefore).2
    omega
  rcases Json.scanRun_escape noneLeft single onward with
    ⟨unit, isUnit, point, ⟨above, reversed⟩, isPoint⟩
  -- the escape stands for the character that the value has at its place
  have isChar : unit = c.toNat := by
    have points : decoded = Json.points before ++ point :: above.reverse := by
      have forward := congrArg List.reverse reversed
      simpa [Json.Scan.known] using forward.symm
    have whole : value = before ++ c :: (rest ++ value.drop 511) := by
      rw [← List.cons_append, ← List.append_assoc, ← split, List.take_append_drop]
    rcases isPrefix with ⟨behind, same⟩
    rw [points, whole, Json.points, Json.points, List.map_append, List.map_cons,
      List.append_assoc] at same
    have isPointChar : point = c.toNat := (List.cons.inj (List.append_cancel_left same)).1
    have inValue : c ∈ value := by
      rw [whole]
      exact List.mem_append_right _ List.mem_cons_self
    have small := (printable c inValue).2
    omega
  rw [isChar] at isUnit
  rcases isSpecial with rfl | rfl
  · -- behind the backslash for a quote stands the next one
    rw [if_pos rfl] at isUnit
    cases n with
    | zero => cases isUnit
    | succ n =>
        rw [annotationLoop, if_pos rfl, Json.escapeOf, if_neg (by decide)] at isUnit
        exact absurd isUnit (by decide)
  · exact ⟨before, rest, split, unescaped, spellsBackslash_of_escapeOf isUnit⟩

/-- The annotation comes out right where nothing that reaches the buffer needs an escape.  Where
the escaped form would have fitted it comes out right only there.  Beyond that length it does so
otherwise only for values whose first backslash is, with what follows it, a spelling of itself. -/
theorem annotationEscaped_iff (value : List Char) (printable : Printable value) :
    (Unescaped (value.take 511) -> AnnotationEscaped value) ∧
      ((escapedForm value).length ≤ 511 -> (AnnotationEscaped value ↔ Unescaped (value.take 511))) ∧
      (¬ StartsSpelling (value.take 511) ->
        (AnnotationEscaped value ↔ Unescaped (value.take 511))) := by
  have lengths := length_escapedForm value
  have enough : Unescaped (value.take 511) -> AnnotationEscaped value := by
    intro unescaped
    refine ⟨Json.points (value.take 511), ?_, ?_⟩
    · rw [mprofileGetAnnotation_eq printable]
      exact scan_stalled_of_unescaped printable unescaped
    · split_ifs with fits
      · rw [List.take_of_length_le (Nat.le_trans lengths.1 fits)]
      · exact (List.take_prefix 511 value).map Char.toNat
  refine ⟨enough, fun fits => ⟨fun escaped => ?_, enough⟩,
    fun noSpelling => ⟨fun escaped => ?_, enough⟩⟩
  · by_contra special
    rcases escaped with ⟨decoded, scanned, right⟩
    rw [if_pos fits] at right
    rw [mprofileGetAnnotation_eq printable] at scanned
    exact scan_stalled_ne special (Nat.le_trans lengths.1 fits) scanned right
  · by_contra special
    exact noSpelling (startsSpelling_of_escaped printable escaped special)

theorem annotationEscaped_iff_values :
    AnnotationEscaped "a run".toList ∧ ¬ AnnotationEscaped "a \"run\"".toList := by
  have plain : Printable "a run".toList ∧ Unescaped ("a run".toList.take 511) := by decide +kernel
  have quoted : Printable "a \"run\"".toList ∧ (escapedForm "a \"run\"".toList).length ≤ 511 ∧
      ¬ Unescaped ("a \"run\"".toList.take 511) := by
    decide +kernel
  refine ⟨(annotationEscaped_iff _ plain.1).1 plain.2, fun escaped => ?_⟩
  exact quoted.2.2 (((annotationEscaped_iff _ quoted.1).2.1 quoted.2.1).mp escaped)

/-- Where the escaped form does not fit there are such accidents: the backslashes of an even
number of them read as half as many, which is a prefix. -/
theorem annotationEscaped_backslashes {count : Nat} (long : 511 < 4 * count)
    (room : 2 * count ≤ 511) :
    AnnotationEscaped (List.replicate (2 * count) '\\') := by
  have printable : Printable (List.replicate (2 * count) '\\') := by
    intro c member
    rw [List.eq_of_mem_replicate member]
    decide
  have noQuote : '"' ∉ List.replicate (2 * count) '\\' := fun member =>
    absurd (List.eq_of_mem_replicate member) (by decide)
  have lengths : (escapedForm (List.replicate (2 * count) '\\')).length = 4 * count := by
    unfold escapedForm
    rw [List.flatMap_replicate]
    simp
    omega
  have copied : stalled 511 (List.replicate (2 * count) '\\') =
      List.replicate (2 * count) '\\' := by
    rw [stalled_of_noQuote (fun member => noQuote (List.mem_of_mem_take member)),
      List.take_of_length_le (by rw [List.length_replicate]; exact room)]
  refine ⟨List.replicate count 0x5c, ?_, ?_⟩
  · rw [mprofileGetAnnotation_eq printable, copied, Json.scan_literal noQuote,
      Json.scanRun_backslashes,
      List.append_nil, List.reverse_replicate]
  · rw [if_neg (by omega), Json.points, List.map_replicate]
    exact ⟨List.replicate count 0x5c, by rw [← List.replicate_add, Nat.two_mul]; rfl⟩

/-- A value of one quote fills the buffer with backslashes, the last of which
takes the closing quote. -/
theorem annotationEscaped_not_quote : Printable ['"'] ∧ ¬ AnnotationEscaped ['"'] := by
  have unread : Json.scan ('"' :: mprofileGetAnnotation (some ['"']) ++ ['"']) = none := by
    decide +kernel
  refine ⟨by decide, ?_⟩
  rintro ⟨decoded, scanned, -⟩
  rw [unread] at scanned
  cases scanned

end Copy

end Mprofile
end OsslScripts
