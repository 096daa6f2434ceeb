import OsslScripts.Mprofile.Sampling

namespace OsslScripts
namespace Mprofile

open Foundation

/-!
# The time axis

`get_time_axis` turns each time stamp into a float, seconds and nanoseconds
added up, and plots its distance from the start.  Every rounding on the way is
monotone, and the fraction of a second does not reach the next second, so the
axis follows the order of the stamps.  Seconds below `-2 ^ 53` are rounded up,
where a fraction can pass the next second.
-/

/-- The order of clock readings. -/
def Timespec.NotAfter (a b : Timespec) : Prop :=
  a.tvSec < b.tvSec ∨ a.tvSec = b.tvSec ∧ a.tvNsec ≤ b.tvNsec

instance (a b : Timespec) : Decidable (a.NotAfter b) := inferInstanceAs (Decidable (_ ∨ _))

/-- What a clock may show: less than a second of nanoseconds, and seconds that
are exact as a float when they are negative. -/
def Timespec.Readable (a : Timespec) : Prop := -2 ^ 53 ≤ a.tvSec ∧ a.tvNsec < 1000000000

instance (a : Timespec) : Decidable a.Readable := inferInstanceAs (Decidable (_ ∧ _))

theorem Timespec.NotAfter.refl (a : Timespec) : a.NotAfter a := Or.inr ⟨rfl, Nat.le_refl _⟩

theorem Timespec.NotAfter.trans {a b c : Timespec} (first : a.NotAfter b) (second : b.NotAfter c) :
    a.NotAfter c := by
  unfold Timespec.NotAfter at *
  omega

/-! ## Stamps as floats -/

/-- The fraction of a second as a float. -/
def fraction (tvNsec : Nat) : ℚ := double (double (tvNsec / 1000000000))

theorem fraction_mono {m n : Nat} (order : m ≤ n) : fraction m ≤ fraction n := by
  have orderQ : (m : ℚ) ≤ n := by exact_mod_cast order
  exact double_mono (double_mono (div_le_div_of_nonneg_right orderQ (by norm_num)))

theorem fraction_nonneg (n : Nat) : 0 ≤ fraction n :=
  double_nonneg (double_nonneg (div_nonneg (Nat.cast_nonneg n) (by norm_num)))

/-- Less than a second of nanoseconds is less than a second. -/
theorem fraction_lt_one {n : Nat} (inside : n < 1000000000) : fraction n < 1 := by
  have first : double (n / 1000000000) ≤ 999999999 / 1000000000 + 1 / 2 ^ 53 := by
    have bound : (n : ℚ) ≤ 999999999 := by exact_mod_cast Nat.le_of_lt_succ inside
    have mono := double_mono (div_le_div_of_nonneg_right bound (by norm_num : (0 : ℚ) ≤ 1000000000))
    have near := double_le (x := 999999999 / 1000000000) (by norm_num)
    have small : (999999999 / 1000000000 : ℚ) / 2 ^ 53 ≤ 1 / 2 ^ 53 := by norm_num
    linarith
  have second := double_mono first
  have near := double_le (x := 999999999 / 1000000000 + 1 / 2 ^ 53) (by norm_num)
  have small : (999999999 / 1000000000 + 1 / 2 ^ 53 : ℚ) / 2 ^ 53 ≤ 2 / 2 ^ 53 := by norm_num
  have sum : (999999999 / 1000000000 + 1 / 2 ^ 53 + 2 / 2 ^ 53 : ℚ) < 1 := by norm_num
  unfold fraction
  linarith

theorem timeToFloat_eq (tr : Timespec) :
    timeToFloat tr = double (double tr.tvSec + fraction tr.tvNsec) := rfl

/-- A stamp is at most the next second. -/
theorem timeToFloat_mono {a b : Timespec} (readable : a.Readable) (readable' : b.Readable)
    (order : a.NotAfter b) : timeToFloat a ≤ timeToFloat b := by
  rw [timeToFloat_eq, timeToFloat_eq]
  have below := fraction_lt_one readable.2
  have nonneg := fraction_nonneg b.tvNsec
  rcases order with earlier | ⟨same, order⟩
  · have next : (a.tvSec : ℚ) + 1 ≤ b.tvSec := by exact_mod_cast earlier
    rcases Int.lt_or_le a.tvSec (2 ^ 53) with small | large
    · have exact : double (a.tvSec : ℚ) = a.tvSec := double_intCast (le_of_lt small) readable.1
      have after : double ((a.tvSec + 1 : ℤ) : ℚ) = (a.tvSec + 1 : ℤ) := by
        apply double_intCast (by omega)
        have := readable.1
        omega
      have mono := double_mono next
      push_cast at after
      rw [after] at mono
      apply double_mono
      rw [exact]
      linarith
    · have largeQ : (2 : ℚ) ^ 53 ≤ a.tvSec := by exact_mod_cast large
      have largeQ' : (2 : ℚ) ^ 53 ≤ b.tvSec := by linarith
      rw [double_add_fraction largeQ (fraction_nonneg _) below,
        double_add_fraction largeQ' nonneg (fraction_lt_one readable'.2)]
      exact double_mono (by linarith)
  · rw [same]
    exact double_mono (add_le_add_right (fraction_mono order) _)

/-! ## The axis -/

/-- The records are in the order of their stamps, none before the start. -/
structure Chronological (start : Timespec) (log : List MprofileRecord) : Prop where
  sorted : log.Pairwise (fun earlier later => earlier.mprTs.NotAfter later.mprTs)
  readable : forall mr, mr ∈ log -> mr.mprTs.Readable
  started : forall mr, mr ∈ log -> start.Readable ∧ start.NotAfter mr.mprTs

theorem Chronological.sublist {start : Timespec} {log ops : List MprofileRecord}
    (chronological : Chronological start log)
    (part : ops.Sublist log) : Chronological start ops where
  sorted := chronological.sorted.sublist part
  readable := fun mr member => chronological.readable mr (part.subset member)
  started := fun mr member => chronological.started mr (part.subset member)

namespace SampledProfile

/-- The axis of a chronological log ascends from 0. -/
theorem getTimeAxis_sorted {self : SampledProfile}
    (chronological : Chronological self.startTime (self.allOps.map MemRecord.mr)) :
    self.getTimeAxis.Pairwise (fun earlier later => earlier ≤ later) := by
  rw [self.readers_agree.2, List.pairwise_cons]
  constructor
  · intro time member
    rcases List.mem_map.mp member with ⟨mr, plotted, rfl⟩
    have inLog := List.mem_map_of_mem (f := MemRecord.mr) plotted
    rcases chronological.started mr.mr inLog with ⟨readable, order⟩
    have distance := timeToFloat_mono readable (chronological.readable mr.mr inLog) order
    apply double_nonneg
    apply mul_nonneg _ (by norm_num)
    apply double_nonneg
    rw [getTimef]
    linarith
  · rw [List.pairwise_map]
    apply List.Pairwise.imp_of_mem _ (List.pairwise_map.mp chronological.sorted)
    intro earlier later inOps inOps' order
    have readable := chronological.readable _ (List.mem_map_of_mem (f := MemRecord.mr) inOps)
    have readable' := chronological.readable _ (List.mem_map_of_mem (f := MemRecord.mr) inOps')
    have mono := timeToFloat_mono readable readable' order
    apply double_mono
    apply mul_le_mul_of_nonneg_right _ (by norm_num)
    apply double_mono
    rw [getTimef, getTimef]
    linarith

/-- With and without sampling. -/
theorem timeAxes_sorted {doc : Document}
    (chronological : Chronological doc.startTime doc.allocations) :
    (ofDocument doc).getTimeAxis.Pairwise (fun earlier later => earlier ≤ later) ∧
      forall samplesCount, 1 ≤ samplesCount -> Exists fun sampled =>
        (ofDocument doc).takeSamples samplesCount = some sampled ∧
          sampled.getTimeAxis.Pairwise (fun earlier later => earlier ≤ later) := by
  have records : (ofDocument doc).memRecords.map MemRecord.mr = doc.allocations :=
    MProfile.map_mr_calcCurrent 0 doc.allocations
  constructor
  · apply getTimeAxis_sorted
    rw [allOps_none rfl, records]
    exact chronological
  · intro samplesCount positive
    rcases (ofDocument doc).takeSamples_represents positive with
      ⟨sampled, taken, same, width, position, -, -, sampledFrom⟩
    refine ⟨sampled, taken, getTimeAxis_sorted ?_⟩
    rw [same]
    apply chronological.sublist
    rw [← records]
    exact sampledFrom.sublist.map MemRecord.mr

end SampledProfile

end Mprofile
end OsslScripts
