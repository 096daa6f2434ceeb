import OsslScripts.Foundation.Double
import OsslScripts.Foundation.Slices
import OsslScripts.Mprofile.Reader
import Mathlib.Data.Int.ConditionallyCompleteOrder
import Mathlib.Data.List.MinMax
import Mathlib.Data.List.NodupEquivFin

namespace OsslScripts
namespace Mprofile

open Foundation

/-!
# Sampling the log

`MProfile.samples` and the readers of what is plotted.  The plotted operations
are the whole log, or the highest record of each of its consecutive slices.
The slice size is a floating-point quotient which is cut to an integer.
-/

/-- `class MProfile` with its member `_samples`. -/
structure SampledProfile extends MProfile where
  samples : Option (List MemRecord)
deriving DecidableEq, Repr

/-- `time_to_float` -/
def timeToFloat (tr : Timespec) : ℚ :=
  double (double tr.tvSec + double (double (tr.tvNsec / 1000000000)))

/-- `get_timef` -/
def getTimef (mr : MemRecord) : ℚ := timeToFloat mr.mr.mprTs

/-- `max` with the key `get_mem_current`; the maximum of nothing is an error. -/
def maxCurrent : List MemRecord -> Option MemRecord
  | [] => none
  | mr :: rest => some (MProfile.firstMax mr rest)

/-- The maxima of all slices, if none of them is an error. -/
def maxEach : List (List MemRecord) -> Option (List MemRecord)
  | [] => some []
  | x :: rest =>
      match maxCurrent x, maxEach rest with
      | some mr, some samples => some (mr :: samples)
      | _, _ => none

namespace SampledProfile

/-- `__init__` -/
def ofDocument (doc : Document) : SampledProfile := ⟨MProfile.ofDocument doc, none⟩

/-- `slice_size` in `samples`: `int` of a quotient of two integers. -/
def sliceSize (records samplesCount : Nat) : Nat := ⌊double ((records : ℚ) / samplesCount)⌋.toNat

/-- `samples`; the errors of Python are `none`. -/
def takeSamples (self : SampledProfile) (samplesCount : Nat) : Option SampledProfile :=
  if samplesCount = 0 then none
  else if sliceSize self.memRecords.length samplesCount = 0 then some { self with samples := none }
  else
    (maxEach (slices (sliceSize self.memRecords.length samplesCount) self.memRecords)).map
      (fun samples => { self with samples := some samples })

/-- `all_ops` -/
def allOps (self : SampledProfile) : List MemRecord :=
  match self.samples with
  | some samples => samples
  | none => self.memRecords

/-- `get_profile` -/
def getProfile (self : SampledProfile) : List Int :=
  let memRecords := match self.samples with
    | none => self.memRecords
    | some samples => samples
  0 :: memRecords.map MemRecord.memCurrent

/-- `get_time` -/
def getTime (self : SampledProfile) (mr : MemRecord) : ℚ :=
  double (double (getTimef mr - timeToFloat self.startTime) * 1000000)

/-- `get_time_axis` -/
def getTimeAxis (self : SampledProfile) : List ℚ :=
  let memRecords := match self.samples with
    | none => self.memRecords
    | some samples => samples
  0 :: memRecords.map self.getTime

end SampledProfile

/-! ## Maxima -/

theorem firstMax_highest (best : MemRecord) (rest : List MemRecord) :
    best.memCurrent ≤ (MProfile.firstMax best rest).memCurrent ∧
      forall mr, mr ∈ rest -> mr.memCurrent ≤ (MProfile.firstMax best rest).memCurrent := by
  induction rest generalizing best with
  | nil => exact ⟨Int.le_refl _, fun mr member => by cases member⟩
  | cons mr rest inductionHypothesis =>
      rw [MProfile.firstMax]
      by_cases higher : best.memCurrent < mr.memCurrent
      · rw [if_pos higher]
        have holds := inductionHypothesis mr
        refine ⟨Int.le_trans (Int.le_of_lt higher) holds.1, fun other member => ?_⟩
        rcases List.mem_cons.mp member with here | later
        · exact here ▸ holds.1
        · exact holds.2 other later
      · rw [if_neg higher]
        have holds := inductionHypothesis best
        refine ⟨holds.1, fun other member => ?_⟩
        rcases List.mem_cons.mp member with here | later
        · exact here ▸ Int.le_trans (Int.not_lt.mp higher) holds.1
        · exact holds.2 other later

theorem firstMax_mem (best : MemRecord) (rest : List MemRecord) :
    MProfile.firstMax best rest ∈ best :: rest := by
  induction rest generalizing best with
  | nil => exact List.mem_cons_self
  | cons mr rest inductionHypothesis =>
      have found := inductionHypothesis (if best.memCurrent < mr.memCurrent then mr else best)
      rw [MProfile.firstMax]
      rcases List.mem_cons.mp found with here | later
      · rw [here]
        split
        · exact List.mem_cons_of_mem _ List.mem_cons_self
        · exact List.mem_cons_self
      · exact List.mem_cons_of_mem _ (List.mem_cons_of_mem _ later)

/-- The maximum is one of the elements, and none is higher. -/
theorem maxCurrent_spec {l : List MemRecord} {op : MemRecord} (found : maxCurrent l = some op) :
    op ∈ l ∧ forall mr, mr ∈ l -> mr.memCurrent ≤ op.memCurrent := by
  cases l with
  | nil => cases found
  | cons mr rest =>
      cases found
      refine ⟨firstMax_mem mr rest, fun other member => ?_⟩
      rcases List.mem_cons.mp member with here | later
      · exact here ▸ (firstMax_highest mr rest).1
      · exact (firstMax_highest mr rest).2 other later

theorem maxEach_spec (pieces : List (List MemRecord)) (nonempty : forall x, x ∈ pieces -> x ≠ []) :
    Exists fun ops : List MemRecord => maxEach pieces = some ops ∧ ops.length = pieces.length ∧
      forall (k : Nat) (x : List MemRecord) (op : MemRecord), pieces[k]? = some x ->
        ops[k]? = some op ->
        maxCurrent x = some op := by
  induction pieces with
  | nil => exact ⟨[], rfl, rfl, fun k x op atK => by rw [List.getElem?_nil] at atK; cases atK⟩
  | cons x rest inductionHypothesis =>
      rcases inductionHypothesis (fun y member => nonempty y (List.mem_cons_of_mem x member)) with
        ⟨ops, each, length, spec⟩
      cases x with
      | nil => exact absurd rfl (nonempty [] List.mem_cons_self)
      | cons mr more =>
          refine ⟨MProfile.firstMax mr more :: ops, ?_, ?_, fun k y op atK opK => ?_⟩
          · rw [maxEach, each]
            rfl
          · rw [List.length_cons, List.length_cons, length]
          · cases k with
            | zero =>
                cases atK
                exact opK
            | succ k => exact spec k y op atK opK

/-! ## What the samples stand for -/

/-- The operations are taken from the log in order, one from each slice of this
width, and none of a slice is higher than the one taken. -/
structure SampledFrom (log ops : List MemRecord) (width : Nat) (position : Nat -> Nat) : Prop where
  taken : forall k, k < ops.length -> position k < log.length ∧ ops[k]? = log[position k]?
  ordered : forall j k, j < k -> k < ops.length -> position j < position k
  covered : forall i, i < log.length -> ExistsUnique fun k => k < ops.length ∧ InSlice width k i
  own : forall k, k < ops.length -> InSlice width k (position k)
  highest : forall i k mr op, InSlice width k i -> log[i]? = some mr -> ops[k]? = some op ->
    mr.memCurrent ≤ op.memCurrent

/-- The whole log stands for itself. -/
theorem sampledFrom_self (log : List MemRecord) : SampledFrom log log 1 id where
  taken := fun k inside => ⟨inside, rfl⟩
  ordered := fun j k order _ => order
  covered := fun i inside => ⟨i, ⟨inside, (inSlice_iff Nat.one_pos).mpr (Nat.div_one i)⟩,
    fun k holds => by rw [← (inSlice_iff Nat.one_pos).mp holds.2, Nat.div_one]⟩
  own := fun k _ => (inSlice_iff Nat.one_pos).mpr (Nat.div_one k)
  highest := fun i k mr op inside atI atK => by
    have same := (inSlice_iff Nat.one_pos).mp inside
    rw [Nat.div_one] at same
    rw [same, atK] at atI
    cases atI
    exact Int.le_refl _

/-- The maxima of the slices stand for the log. -/
theorem sampledFrom_maxEach {log ops : List MemRecord} {width : Nat} (positive : 0 < width)
    (each : maxEach (slices width log) = some ops) :
    ops.length = (slices width log).length ∧
      Exists fun position => SampledFrom log ops width position := by
  rcases maxEach_spec (slices width log) (fun x member => slice_ne_nil positive member) with
    ⟨found, same, length, spec⟩
  rw [each] at same
  cases same
  -- the maximum of slice `k` stands at one of its positions
  have place : forall k, Exists fun i => k < ops.length ->
      InSlice width k i ∧ i < log.length ∧ ops[k]? = log[i]? := by
    intro k
    by_cases inside : k < ops.length
    · have atK := getElem?_slices (length ▸ inside)
      have opK := List.getElem?_eq_getElem inside
      rcases List.mem_iff_getElem?.mp (maxCurrent_spec (spec k _ _ atK opK)).1 with ⟨j, atJ⟩
      have within : j < width := by
        have bound := (List.getElem?_eq_some_iff.mp atJ).1
        rw [List.length_take] at bound
        omega
      rw [getElem?_slice log within] at atJ
      exact ⟨k * width + j, fun _ => ⟨inSlice_add within, (List.getElem?_eq_some_iff.mp atJ).1,
        opK.trans atJ.symm⟩⟩
    · exact ⟨0, fun impossible => absurd impossible inside⟩
  choose position holds using place
  refine ⟨length, position, ?_⟩
  exact {
    taken := fun k inside => (holds k inside).2
    ordered := fun j k order inside =>
      (holds j (Nat.lt_trans order inside)).1.lt (holds k inside).1 order
    covered := fun i inside => length ▸ existsUnique_slice positive inside
    own := fun k inside => (holds k inside).1
    highest := fun i k mr op within atI opK => by
      have inside : k < ops.length := (List.getElem?_eq_some_iff.mp opK).1
      have atK := getElem?_slices (length ▸ inside)
      have offset : i - k * width < width := by
        have bounds := within
        rw [InSlice, Nat.add_mul, Nat.one_mul] at bounds
        omega
      have member : mr ∈ (log.drop (k * width)).take width := by
        apply List.mem_iff_getElem?.mpr
        refine ⟨i - k * width, ?_⟩
        rw [getElem?_slice log offset, Nat.add_sub_cancel' within.1, atI]
      exact (maxCurrent_spec (spec k _ _ atK opK)).2 mr member }

namespace SampledProfile

/-- What `samples` leaves behind. -/
theorem takeSamples_spec (self : SampledProfile) {samplesCount : Nat}
    (positive : 1 ≤ samplesCount) :
    Exists fun sampled => self.takeSamples samplesCount = some sampled ∧
      sampled.toMProfile = self.toMProfile ∧
      ((sliceSize self.memRecords.length samplesCount = 0 ∧ sampled.samples = none) ∨
        (0 < sliceSize self.memRecords.length samplesCount ∧ Exists fun ops =>
          sampled.samples = some ops ∧
            maxEach (slices (sliceSize self.memRecords.length samplesCount) self.memRecords) =
              some ops)) := by
  rw [takeSamples, if_neg (by omega)]
  by_cases none : sliceSize self.memRecords.length samplesCount = 0
  · rw [if_pos none]
    exact ⟨_, rfl, rfl, Or.inl ⟨none, rfl⟩⟩
  · rw [if_neg none]
    have width : 0 < sliceSize self.memRecords.length samplesCount := Nat.pos_of_ne_zero none
    rcases maxEach_spec
      _ (fun x (member : x ∈ slices _ self.memRecords) => slice_ne_nil width member)
      with ⟨ops, each, -, -⟩
    rw [each]
    exact ⟨_, rfl, rfl, Or.inr ⟨width, ops, rfl, rfl⟩⟩

/-- The whole log is plotted if nothing is sampled. -/
theorem allOps_none {self : SampledProfile} (unsampled : self.samples = none) :
    self.allOps = self.memRecords := by rw [allOps, unsampled]

theorem allOps_some {self : SampledProfile} {ops : List MemRecord}
    (sampled : self.samples = some ops) :
    self.allOps = ops := by rw [allOps, sampled]

/-- The readers plot the same operations. -/
theorem readers_agree (self : SampledProfile) :
    self.getProfile = 0 :: self.allOps.map MemRecord.memCurrent ∧
      self.getTimeAxis = 0 :: self.allOps.map self.getTime := by
  rw [getProfile, getTimeAxis, allOps]
  cases self.samples with
  | none => exact ⟨rfl, rfl⟩
  | some ops => exact ⟨rfl, rfl⟩

/-- The plotted operations stand for the log, one for each slice or each record. -/
theorem takeSamples_represents (self : SampledProfile) {samplesCount : Nat}
    (positive : 1 ≤ samplesCount) :
    Exists fun sampled => self.takeSamples samplesCount = some sampled ∧
      sampled.toMProfile = self.toMProfile ∧
      Exists fun width => Exists fun position => 0 < width ∧
        (sampled.samples = none -> width = 1) ∧
        SampledFrom self.memRecords sampled.allOps width position := by
  rcases self.takeSamples_spec positive with
    ⟨sampled, taken, same, ⟨-, unsampled⟩ | ⟨wide, ops, chosen, each⟩⟩
  · refine ⟨sampled, taken, same, 1, id, Nat.one_pos, fun _ => rfl, ?_⟩
    rw [allOps_none unsampled, same]
    exact sampledFrom_self self.memRecords
  · rcases (sampledFrom_maxEach wide each).2 with ⟨position, sampledFrom⟩
    refine ⟨sampled, taken, same, _, position, wide, fun impossible => ?_, ?_⟩
    · rw [chosen] at impossible
      cases impossible
    · rw [allOps_some chosen]
      exact sampledFrom

/-- How many operations are plotted. -/
theorem length_allOps_le (self : SampledProfile) {samplesCount : Nat} (positive : 1 ≤ samplesCount)
    {sampled : SampledProfile} (taken : self.takeSamples samplesCount = some sampled) :
    sampled.allOps.length ≤ samplesCount ↔
      self.memRecords.length ≤ samplesCount ∨
        self.memRecords.length ≤ samplesCount * sliceSize self.memRecords.length samplesCount := by
  rcases self.takeSamples_spec positive with
    ⟨other, same, kept, ⟨zero, unsampled⟩ | ⟨wide, ops, chosen, each⟩⟩
  · rw [taken] at same
    cases same
    rw [allOps_none unsampled, kept, zero, Nat.mul_zero]
    omega
  · rw [taken] at same
    cases same
    rw [allOps_some chosen, (sampledFrom_maxEach wide each).1, length_slices_le wide]
    have : samplesCount ≤ samplesCount * sliceSize self.memRecords.length samplesCount :=
      Nat.le_mul_of_pos_right samplesCount wide
    omega

/-- The slice size of a log that a machine can hold. -/
theorem sliceSize_small {records samplesCount : Nat} (positive : 1 ≤ samplesCount)
    (small : records < 2 ^ 52) : sliceSize records samplesCount = records / samplesCount := by
  rw [sliceSize, floor_double_div positive small, Int.toNat_natCast]

end SampledProfile

/-- The highest of the operations that stand for a log is the highest of the log. -/
theorem SampledFrom.maximum {log ops : List MemRecord} {width : Nat} {position : Nat -> Nat}
    (sampledFrom : SampledFrom log ops width position) {peak : MemRecord}
    (found : maxCurrent log = some peak) :
    (ops.map MemRecord.memCurrent).maximum = peak.memCurrent := by
  have spec := maxCurrent_spec found
  rw [List.maximum_eq_coe_iff]
  constructor
  · -- the slice of the peak has an operation as high as the peak, taken from the log
    rcases List.mem_iff_getElem?.mp spec.1 with ⟨i, atI⟩
    rcases sampledFrom.covered i (List.getElem?_eq_some_iff.mp atI).1 with ⟨k, ⟨inside, within⟩, -⟩
    have opK := List.getElem?_eq_getElem inside
    have fromLog := (sampledFrom.taken k inside).2.symm.trans opK
    have same : peak.memCurrent = (ops[k]).memCurrent := by
      apply Int.le_antisymm
      · exact sampledFrom.highest i k peak _ within atI opK
      · exact spec.2 _ (List.mem_iff_getElem?.mpr ⟨position k, fromLog⟩)
    exact List.mem_map.mpr ⟨ops[k], List.getElem_mem inside, same.symm⟩
  · intro current member
    rcases List.mem_map.mp member with ⟨op, opMember, rfl⟩
    rcases List.mem_iff_getElem?.mp opMember with ⟨k, opK⟩
    have inside : k < ops.length := (List.getElem?_eq_some_iff.mp opK).1
    have fromLog := (sampledFrom.taken k inside).2.symm.trans opK
    exact spec.2 op (List.mem_iff_getElem?.mpr ⟨position k, fromLog⟩)

/-- The operations are a subsequence of the log. -/
theorem SampledFrom.sublist {log ops : List MemRecord} {width : Nat} {position : Nat -> Nat}
    (sampledFrom : SampledFrom log ops width position) : ops.Sublist log := by
  rw [List.sublist_iff_exists_fin_orderEmbedding_get_eq]
  refine ⟨OrderEmbedding.ofStrictMono
    (fun k => ⟨position k, (sampledFrom.taken k k.isLt).1⟩) (fun j k order => ?_), fun k => ?_⟩
  · exact sampledFrom.ordered j k order k.isLt
  · have fromLog := (sampledFrom.taken k k.isLt).2
    rw [List.getElem?_eq_getElem k.isLt,
      List.getElem?_eq_getElem (sampledFrom.taken k k.isLt).1] at fromLog
    exact Option.some.inj fromLog

namespace SampledProfile

theorem getMemPeak_eq (profile : MProfile) :
    profile.getMemPeak = maxCurrent profile.memRecords := by
  rw [MProfile.getMemPeak]
  cases profile.memRecords with
  | nil => rfl
  | cons mr rest => rfl

/-- Sampling a log keeps the shape of its curve: the plotted operations stand
for the log in order, with its peak among them, and both axes follow them. -/
theorem samples_keep_shape (self : SampledProfile) (nonempty : self.memRecords ≠ [])
    {samplesCount : Nat} (positive : 1 ≤ samplesCount) :
    Exists fun sampled => self.takeSamples samplesCount = some sampled ∧
      sampled.toMProfile = self.toMProfile ∧
      sampled.allOps.Sublist self.memRecords ∧
      (Exists fun width => Exists fun position => 0 < width ∧
        (sampled.samples = none -> width = 1) ∧
        SampledFrom self.memRecords sampled.allOps width position) ∧
      (Exists fun peak => sampled.getMemPeak = some peak ∧
        (sampled.allOps.map MemRecord.memCurrent).maximum = peak.memCurrent) ∧
      sampled.getProfile.length = sampled.allOps.length + 1 ∧
      sampled.getTimeAxis.length = sampled.allOps.length + 1 ∧
      forall (j : Nat) (op : MemRecord), sampled.allOps[j]? = some op ->
        sampled.getProfile[j + 1]? = some op.memCurrent ∧
          sampled.getTimeAxis[j + 1]? = some (sampled.getTime op) := by
  rcases self.takeSamples_represents positive with
    ⟨sampled, taken, same, width, position, wide, single, sampledFrom⟩
  have axes := sampled.readers_agree
  refine ⟨sampled, taken, same, sampledFrom.sublist, ⟨width, position, wide, single, sampledFrom⟩,
    ?_, ?_, ?_, fun j op atJ => ⟨?_, ?_⟩⟩
  · rw [getMemPeak_eq, same]
    cases log : self.memRecords with
    | nil => exact absurd log nonempty
    | cons mr rest => exact ⟨_, rfl, sampledFrom.maximum (by rw [log]; rfl)⟩
  · rw [axes.1, List.length_cons, List.length_map]
  · rw [axes.2, List.length_cons, List.length_map]
  · rw [axes.1, List.getElem?_cons_succ, List.getElem?_map, atJ, Option.map_some]
  · rw [axes.2, List.getElem?_cons_succ, List.getElem?_map, atJ, Option.map_some]

/-- A log of allocations of these sizes. -/
def allocationLog (sizes : List Int) : Document where
  startTime := ⟨1, 0⟩
  allocations := sizes.zipIdx.map (fun (size, i) =>
    { (default : MprofileRecord) with mprId := i + 1, mprDelta := size, mprTs := ⟨1, i⟩ })
  stackList := []

/-- Two slices of two records, and one of the last record alone. -/
theorem samples_keep_shape_ragged : Exists fun sampled => Exists fun peak =>
    (ofDocument (allocationLog [48, -16, 32, -8, 4])).takeSamples 2 = some sampled ∧
      sampled.allOps.map MemRecord.memCurrent = [48, 64, 60] ∧
      sampled.getMemPeak = some peak ∧ peak.memCurrent = 64 ∧
      sampled.getProfile.length = 4 ∧ sampled.getTimeAxis.length = 4 := by
  have nonempty : (ofDocument (allocationLog [48, -16, 32, -8, 4])).memRecords ≠ [] := by decide
  have positive : 1 ≤ 2 := by decide
  rcases samples_keep_shape (ofDocument (allocationLog [48, -16, 32, -8, 4])) nonempty positive with
    ⟨sampled, taken, -, -, -, ⟨peak, isPeak, highest⟩, profile, axis, -⟩
  have currents : sampled.allOps.map MemRecord.memCurrent = [48, 64, 60] := by
    rcases (ofDocument (allocationLog [48, -16, 32, -8, 4])).takeSamples_spec positive with
      ⟨sampled', taken', -, width⟩
    cases taken.symm.trans taken'
    rw [sliceSize_small positive (by decide)] at width
    rcases width with ⟨none, -⟩ | ⟨-, ops, isSampled, each⟩
    · exact absurd none (by decide)
    · have isMap :
        (maxEach (slices 2 (ofDocument (allocationLog [48, -16, 32, -8, 4])).memRecords)).map
          (fun ops => ops.map MemRecord.memCurrent) = some [48, 64, 60] := by decide
      have same := congrArg (fun ops => ops.map (fun ops => ops.map MemRecord.memCurrent)) each
      rw [allOps, isSampled]
      exact Option.some.inj (same.symm.trans isMap)
  have length : sampled.allOps.length = 3 := by
    have mapped := congrArg List.length currents
    rwa [List.length_map] at mapped
  rw [currents] at highest
  rw [length] at profile axis
  exact ⟨sampled, peak, taken, currents, isPeak, (WithBot.coe_inj.mp highest).symm, profile, axis⟩

/-- The number of plotted operations respects the requested count exactly if
the log is not longer than the count or the slices fill it. -/
theorem samples_bounded_iff (self : SampledProfile) {samplesCount : Nat}
    (positive : 1 ≤ samplesCount) :
    Exists fun sampled => self.takeSamples samplesCount = some sampled ∧
      (sampled.allOps.length ≤ samplesCount ↔
        self.memRecords.length ≤ samplesCount ∨
          self.memRecords.length ≤
            samplesCount * ⌊double ((self.memRecords.length : ℚ) / samplesCount)⌋.toNat) ∧
      (self.memRecords.length < 2 ^ 52 ->
        (sampled.allOps.length ≤ samplesCount ↔
          self.memRecords.length < samplesCount ∨ samplesCount ∣ self.memRecords.length)) := by
  rcases self.takeSamples_spec positive with ⟨sampled, taken, -, -⟩
  have exact := self.length_allOps_le positive taken
  refine ⟨sampled, taken, exact, fun small => ?_⟩
  rw [exact, sliceSize_small positive small]
  have whole := Nat.mul_div_le self.memRecords.length samplesCount
  constructor
  · rintro (short | filled)
    · rcases Nat.lt_or_eq_of_le short with less | same
      · exact Or.inl less
      · exact Or.inr (same ▸ Nat.dvd_refl _)
    · exact Or.inr ⟨_, Nat.le_antisymm filled whole⟩
  · rintro (short | divides)
    · exact Or.inl (Nat.le_of_lt short)
    · exact Or.inr (Nat.le_of_eq (Nat.mul_div_cancel' divides).symm)

theorem samples_bounded_iff_five : 1 ≤ 3 ∧ Exists fun sampled =>
    (ofDocument (allocationLog [1, 2, 3, 4, 5])).takeSamples 3 = some sampled ∧
      ¬ sampled.allOps.length ≤ 3 := by
  have positive : 1 ≤ 3 := by decide
  rcases samples_bounded_iff (ofDocument (allocationLog [1, 2, 3, 4, 5])) positive with
    ⟨sampled, taken, -, bounded⟩
  exact ⟨positive, sampled, taken,
    fun within => absurd ((bounded (by decide)).mp within) (by decide)⟩

/-- Five records and a request for three samples: the slices have one record each. -/
theorem samples_not_bounded :
    ¬ forall (self : SampledProfile) (samplesCount : Nat), 1 ≤ samplesCount ->
    forall sampled, self.takeSamples samplesCount = some sampled ->
      sampled.allOps.length ≤ samplesCount := by
  intro always
  have positive : 1 ≤ 3 := by decide
  rcases (ofDocument (allocationLog [1, 2, 3, 4, 5])).takeSamples_spec positive with
    ⟨sampled, taken, -, -⟩
  have within := (length_allOps_le _ positive taken).mp (always _ 3 positive sampled taken)
  rw [sliceSize_small positive (by decide)] at within
  revert within
  decide

end SampledProfile

end Mprofile
end OsslScripts
