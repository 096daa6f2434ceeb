import Mathlib.Algebra.Ring.Int.Defs
import Mathlib.Algebra.Ring.Nat
import Mathlib.Data.List.Basic
import Mathlib.Tactic.Common

namespace OsslScripts
namespace Base64

/-!
# Encoding a message

`base64Encode` of `base64.c` and `base64.cpp`.  The filter and the memory BIO
are behind function calls, so what each call answers is an argument, next to
what it did: a write takes a prefix of its input, a flush passes a prefix of the
encoded output on to the memory BIO, and a read takes bytes from there.  The
encoding itself is a function of the bytes that the filter took.

One variable carries the results of the calls up to the end, and all lengths
are narrowed to `int` on their way into the calls.
-/

/-- `(int)` of a `size_t` -/
def toInt (size : UInt64) : Int := size.toUInt32.toInt32.toInt

/-- The message `bufIn`, whose length is a `size_t`. -/
structure Message where
  bytes : List UInt8
  fits : bytes.length < 2 ^ 64

/-- `bufInSz` -/
def Message.bufInSz (message : Message) : UInt64 := UInt64.ofNat message.bytes.length

theorem Message.toNat_bufInSz (message : Message) :
    message.bufInSz.toNat = message.bytes.length := by
  rw [bufInSz, UInt64.toNat_ofNat', Nat.mod_eq_of_lt message.fits]

/-- What the calls of one run answer. -/
structure BioAnswers where
  /-- `BIO_new (BIO_f_base64 ())` and `BIO_new (BIO_s_mem ())` succeed. -/
  newBase64 : Bool
  newMem : Bool
  /-- `BIO_write (base64, bufIn, (int)bufInSz)` -/
  write : Int
  /-- How many bytes of encoded output `BIO_flush (base64)` leaves in the memory BIO. -/
  flushed : Nat
  /-- `BIO_read (mem, bufOut, bufOutSz)` -/
  read : Int
  /-- `BIO_read (mem, scratch, sizeof (scratch))` -/
  readScratch : Int
deriving DecidableEq, Repr

/-- The result of a run, the bytes that the filter took, and the bytes that were
written to `bufOut`. -/
structure Encoded where
  rv : Int
  accepted : List UInt8
  bufOut : List UInt8
deriving DecidableEq, Repr

section Encoding

variable (encode : List UInt8 -> List UInt8)

/-- What the memory BIO holds after the flush. -/
def memBio (message : Message) (answers : BioAnswers) : List UInt8 :=
  (encode (message.bytes.take answers.write.toNat)).take answers.flushed

/-- The body that both copies of `base64Encode` have. -/
def encodeThroughBio (message : Message) (answers : BioAnswers) : Encoded :=
  if answers.newBase64 = false ∨ answers.newMem = false then ⟨-1, [], []⟩
  else
    let accepted := message.bytes.take answers.write.toNat
    if answers.write < 0 ∨ answers.write < toInt message.bufInSz then ⟨answers.write, accepted, []⟩
    else
      let bufOut := (memBio encode message answers).take answers.read.toNat
      ⟨if 0 < answers.readScratch then -1 else answers.read, accepted, bufOut⟩

/-- `base64Encode` of `base64.c` -/
def base64Encode (message : Message) (answers : BioAnswers) : Encoded :=
  encodeThroughBio encode message answers

/-- `base64Encode` of `base64.cpp` -/
def base64EncodeDll (message : Message) (answers : BioAnswers) : Encoded :=
  encodeThroughBio encode message answers

/-- The answers are ones that the calls may give: a write takes no more than its
length, and a read returns no more than there is or than it asked for. -/
structure BioAnswers.Legal (answers : BioAnswers) (message : Message)
    (bufOutSz : UInt64) : Prop where
  write : answers.write ≤ max (toInt message.bufInSz) 0
  read : answers.read ≤ 0 ∨
    answers.read ≤ toInt bufOutSz ∧ answers.read ≤ (memBio encode message answers).length
  readScratch : answers.readScratch ≤ 0 ∨ answers.readScratch ≤ 20 ∧
    answers.readScratch + answers.read.toNat ≤ (memBio encode message answers).length

instance (answers : BioAnswers) (message : Message) (bufOutSz : UInt64) :
    Decidable (answers.Legal encode message bufOutSz) :=
  decidable_of_iff (_ ∧ _ ∧ _) ⟨fun h => ⟨h.1, h.2.1, h.2.2⟩, fun h => ⟨h.1, h.2, h.3⟩⟩

/-- A non-negative result is the length of the whole encoded message in `bufOut`,
and -1 is the only other result. -/
def Complete (message : Message) (result : Encoded) : Prop :=
  (0 ≤ result.rv -> result.accepted = message.bytes ∧ result.bufOut = encode message.bytes ∧
    (result.bufOut.length : Int) = result.rv) ∧
  (result.rv < 0 -> result.rv = -1)

/-- The run avoids the ways in which `rv` says something else: a write that is
short or fails otherwise than by -1, a length above `INT_MAX`, encoded output
that the flush leaves behind, and a read that fails otherwise than by -1. -/
def BioAnswers.Careful (answers : BioAnswers) (message : Message) : Prop :=
  answers.newBase64 = false ∨ answers.newMem = false ∨ answers.write = -1 ∨
    (0 ≤ answers.write ∧ toInt message.bufInSz ≤ answers.write ∧
      (0 < answers.readScratch ∨ answers.read = -1 ∨
        (message.bytes.length < 2 ^ 31 ∧ (encode message.bytes).length ≤ answers.flushed ∧
          answers.read = (encode message.bytes).length)))

end Encoding

/-! ## Narrowing -/

/-- Narrowing keeps the number modulo `2 ^ 32`, in the range of `int`. -/
theorem toInt_eq_bmod (size : UInt64) : toInt size = (size.toNat : Int).bmod (2 ^ 32) := by
  have word : toInt size = ((size.toUInt32.toNat : Nat) : Int).bmod (2 ^ 32) :=
    BitVec.toInt_eq_toNat_bmod size.toUInt32.toBitVec
  rw [word, UInt64.toNat_toUInt32, Int.natCast_emod]
  exact Int.emod_bmod _ (2 ^ 32)

theorem toInt_small {size : UInt64} (small : size.toNat < 2 ^ 31) : toInt size = size.toNat := by
  rw [toInt_eq_bmod, Int.bmod_def]
  omega

theorem toInt_le (size : UInt64) : toInt size ≤ size.toNat := by
  rw [toInt_eq_bmod, Int.bmod_def]
  omega

theorem toInt_lt (size : UInt64) : toInt size < 2 ^ 31 := by
  rw [toInt_eq_bmod, Int.bmod_def]
  omega

/-! ## The results -/

section Results

variable {encode : List UInt8 -> List UInt8} {message : Message} {answers : BioAnswers}

/-- A failed creation gives -1. -/
theorem complete_notCreated (failed : answers.newBase64 = false ∨ answers.newMem = false) :
    Complete encode message (encodeThroughBio encode message answers) := by
  rw [encodeThroughBio, if_pos failed]
  exact ⟨fun impossible => absurd impossible (by decide), fun _ => rfl⟩

/-- A write that fails or is short is returned as it is: only -1 is a failure to the caller. -/
theorem complete_writeRefused (created : ¬ (answers.newBase64 = false ∨ answers.newMem = false))
    (refused : answers.write < 0 ∨ answers.write < toInt message.bufInSz) :
    Complete encode message (encodeThroughBio encode message answers) ↔ answers.write = -1 := by
  rw [encodeThroughBio, if_neg created]
  simp only [if_pos refused]
  constructor
  · rintro ⟨nonnegative, negative⟩
    rcases Int.lt_or_le answers.write 0 with below | above
    · exact negative below
    · -- a short write takes less than the message
      have lengths := congrArg List.length (nonnegative above).1
      have narrowed := toInt_le message.bufInSz
      rw [List.length_take] at lengths
      rw [message.toNat_bufInSz] at narrowed
      omega
  · intro minusOne
    refine ⟨fun (impossible : 0 ≤ answers.write) => ?_, fun _ => minusOne⟩
    rw [minusOne] at impossible
    exact absurd impossible (by decide)

/-- After a full write the result is that of the reads. -/
theorem encodeThroughBio_written (created : ¬ (answers.newBase64 = false ∨ answers.newMem = false))
    (written : ¬ (answers.write < 0 ∨ answers.write < toInt message.bufInSz)) :
    encodeThroughBio encode message answers =
      ⟨if 0 < answers.readScratch then -1 else answers.read, message.bytes.take answers.write.toNat,
        (memBio encode message answers).take answers.read.toNat⟩ := by
  rw [encodeThroughBio, if_neg created]
  simp only [if_neg written]

/-- What was read is the whole encoded message exactly if the message fits an
`int`, its output was flushed, and all of it was read. -/
theorem readWhole_iff (written : ¬ (answers.write < 0 ∨ answers.write < toInt message.bufInSz))
    (atMost : answers.write ≤ max (toInt message.bufInSz) 0) (delivered : 0 ≤ answers.read) :
    (message.bytes.take answers.write.toNat = message.bytes ∧
        (memBio encode message answers).take answers.read.toNat = encode message.bytes ∧
        (((memBio encode message answers).take answers.read.toNat).length : Int) = answers.read) ↔
      message.bytes.length < 2 ^ 31 ∧ (encode message.bytes).length ≤ answers.flushed ∧
        answers.read = (encode message.bytes).length := by
  rw [memBio]
  constructor
  · rintro ⟨accepted, output, length⟩
    have taken := congrArg List.length accepted
    have outputLength := congrArg List.length output
    have narrowed := toInt_lt message.bufInSz
    rw [List.length_take] at taken
    rw [accepted] at outputLength length
    rw [List.length_take, List.length_take] at outputLength length
    exact ⟨by omega, by omega, by omega⟩
  · rintro ⟨small, flushed, whole⟩
    have narrowed := toInt_small (message.toNat_bufInSz ▸ small)
    rw [message.toNat_bufInSz] at narrowed
    have accepted : message.bytes.take answers.write.toNat = message.bytes :=
      List.take_of_length_le (by omega)
    have output : ((encode message.bytes).take answers.flushed).take answers.read.toNat =
        encode message.bytes := by
      rw [List.take_of_length_le flushed, List.take_of_length_le (by omega)]
    rw [accepted, output]
    exact ⟨rfl, rfl, whole.symm⟩

/-- The result says what it should exactly if the run is careful. -/
theorem complete_encodeThroughBio_iff {bufOutSz : UInt64}
    (legal : answers.Legal encode message bufOutSz) :
    Complete encode message (encodeThroughBio encode message answers) ↔
      answers.Careful encode message := by
  rw [BioAnswers.Careful]
  by_cases failed : answers.newBase64 = false ∨ answers.newMem = false
  · refine iff_of_true (complete_notCreated failed) ?_
    rw [← or_assoc]
    exact Or.inl failed
  · rw [← or_assoc, or_iff_right failed]
    by_cases refused : answers.write < 0 ∨ answers.write < toInt message.bufInSz
    · rw [complete_writeRefused failed refused]
      refine ⟨Or.inl, fun either => either.resolve_right (fun written => ?_)⟩
      omega
    · have proceeds : answers.write ≠ -1 := by omega
      rw [encodeThroughBio_written failed refused, or_iff_right proceeds]
      have bounds : 0 ≤ answers.write ∧ toInt message.bufInSz ≤ answers.write := by omega
      by_cases more : 0 < answers.readScratch
      · refine iff_of_true ?_ ⟨bounds.1, bounds.2, Or.inl more⟩
        rw [if_pos more]
        exact ⟨fun (impossible : (0 : Int) ≤ -1) => absurd impossible (by decide), fun _ => rfl⟩
      · rw [if_neg more]
        rcases Int.lt_or_le answers.read 0 with failure | delivered
        · constructor
          · exact fun complete => ⟨bounds.1, bounds.2, Or.inr (Or.inl (complete.2 failure))⟩
          · rintro ⟨-, -, more' | minusOne | ⟨-, -, whole⟩⟩
            · exact absurd more' more
            · exact ⟨fun impossible => absurd failure (Int.not_lt.mpr impossible),
                fun _ => minusOne⟩
            · omega
        · have whole := @readWhole_iff encode message answers refused legal.write delivered
          constructor
          · exact fun complete =>
              ⟨bounds.1, bounds.2, Or.inr (Or.inr (whole.mp (complete.1 delivered)))⟩
          · rintro ⟨-, -, more' | minusOne | all⟩
            · exact absurd more' more
            · omega
            · exact ⟨fun _ => whole.mpr all,
                fun impossible => absurd delivered (Int.not_le.mpr impossible)⟩

/-- Both copies of `base64Encode` say what they should exactly in careful runs. -/
theorem base64Encode_complete_iff (encode : List UInt8 -> List UInt8) (message : Message)
    (bufOutSz : UInt64) (answers : BioAnswers) (legal : answers.Legal encode message bufOutSz) :
    (Complete encode message (base64Encode encode message answers) ↔
        answers.Careful encode message) ∧
      (Complete encode message (base64EncodeDll encode message answers) ↔
        answers.Careful encode message) :=
  ⟨complete_encodeThroughBio_iff legal, complete_encodeThroughBio_iff legal⟩

end Results

/-- The message `Hi!`. -/
def greeting : Message := ⟨[72, 105, 33], by decide⟩

/-- The encoding of `Hi!`, which is `SGkh` and a line end. -/
def encodeGreeting (bytes : List UInt8) : List UInt8 :=
  if bytes = greeting.bytes then [83, 71, 107, 104, 10] else []

theorem base64Encode_complete_greeting :
    BioAnswers.Legal encodeGreeting ⟨true, true, 3, 5, 5, -1⟩ greeting 1024 ∧
      Complete encodeGreeting greeting
        (base64Encode encodeGreeting greeting ⟨true, true, 3, 5, 5, -1⟩) := by
  have legal : BioAnswers.Legal encodeGreeting ⟨true, true, 3, 5, 5, -1⟩ greeting 1024 := by decide
  refine ⟨legal, (base64Encode_complete_iff _ _ _ _ legal).1.mpr ?_⟩
  exact Or.inr (Or.inr
    (Or.inr ⟨by decide, by decide, Or.inr (Or.inr ⟨by decide, by decide, by decide⟩)⟩))

/-- A filter that takes one of three bytes: the result is 1, and nothing is in `bufOut`. -/
theorem base64Encode_not_complete :
    ¬ forall (encode : List UInt8 -> List UInt8) (message : Message) (bufOutSz : UInt64)
      (answers : BioAnswers), answers.Legal encode message bufOutSz ->
        Complete encode message (base64Encode encode message answers) := by
  intro always
  have legal : BioAnswers.Legal encodeGreeting ⟨true, true, 1, 0, 0, 0⟩ greeting 1024 := by decide
  have complete := always encodeGreeting greeting 1024 ⟨true, true, 1, 0, 0, 0⟩ legal
  exact absurd (complete.1 (by decide)).1 (by decide)

end Base64
end OsslScripts
