import Mathlib.Data.Int.Log
import Mathlib.Data.Nat.Cast.Order.Field
import Mathlib.Data.Rat.Floor
import Mathlib.Tactic.Linarith
import Mathlib.Tactic.Positivity
import Mathlib.Tactic.Ring

namespace OsslScripts
namespace Foundation

/-!
# Rounding to double precision

The value of a floating-point operation is the exact rational result rounded to
the nearest multiple of the unit in the last place, ties going to the even
multiple.  The unit depends on the binade of the result, with 53 significant
bits and the unit `2 ^ -1074` at the bottom.  Overflow to infinity is left out.

An order-preserving computation stays one in floating point because rounding is
monotone and keeps the integers up to `2 ^ 53`.
-/

/-- The nearest integer, a tie going to the even one. -/
def roundHalfEven (x : ℚ) : ℤ :=
  if x - ⌊x⌋ < 1 / 2 then ⌊x⌋
  else if 1 / 2 < x - ⌊x⌋ then ⌊x⌋ + 1
  else if ⌊x⌋ % 2 = 0 then ⌊x⌋ else ⌊x⌋ + 1

/-- The exponent of the unit in the last place. -/
def ulpExponent (x : ℚ) : ℤ := max (Int.log 2 |x| - 52) (-1074)

/-- The unit in the last place. -/
def ulp (x : ℚ) : ℚ := 2 ^ ulpExponent x

/-- The double nearest to a rational number. -/
def double (x : ℚ) : ℚ := roundHalfEven (x / ulp x) * ulp x

/-! ## Rounding to an integer -/

theorem roundHalfEven_intCast (k : ℤ) : roundHalfEven (k : ℚ) = k := by
  rw [roundHalfEven, Int.floor_intCast, sub_self, if_pos (by norm_num)]

/-- Rounding moves a number by at most one half. -/
theorem roundHalfEven_near (x : ℚ) : |(roundHalfEven x : ℚ) - x| ≤ 1 / 2 := by
  have below := Int.floor_le x
  have above := Int.lt_floor_add_one x
  unfold roundHalfEven
  split_ifs <;> rw [abs_le] <;> push_cast <;> constructor <;> linarith

/-- Rounding does not leave an interval which ends at an integer. -/
theorem le_roundHalfEven {x : ℚ} {k : ℤ} (above : (k : ℚ) ≤ x) : k ≤ roundHalfEven x := by
  have : k ≤ ⌊x⌋ := Int.le_floor.mpr above
  unfold roundHalfEven
  split_ifs <;> omega

theorem roundHalfEven_le {x : ℚ} {k : ℤ} (below : x ≤ k) : roundHalfEven x ≤ k := by
  rcases eq_or_lt_of_le below with same | less
  · rw [same, roundHalfEven_intCast]
  · have : ⌊x⌋ < k := Int.floor_lt.mpr less
    unfold roundHalfEven
    split_ifs <;> omega

theorem roundHalfEven_mono {x y : ℚ} (order : x ≤ y) : roundHalfEven x ≤ roundHalfEven y := by
  rcases eq_or_lt_of_le (Int.floor_mono order) with same | apart
  · -- in one unit interval the outcome depends on the distance to its lower end
    have belowX := Int.floor_le x
    unfold roundHalfEven
    rw [same]
    split_ifs <;> first | omega | (exfalso; linarith)
  · -- an integer lies between
    have middle : x ≤ (⌊y⌋ : ℚ) :=
      le_trans (le_of_lt (Int.lt_floor_add_one x)) (by exact_mod_cast apart)
    exact le_trans (roundHalfEven_le middle) (le_roundHalfEven (Int.floor_le y))

theorem roundHalfEven_neg (x : ℚ) : roundHalfEven (-x) = -roundHalfEven x := by
  have below := Int.floor_le x
  have above := Int.lt_floor_add_one x
  rcases eq_or_lt_of_le below with whole | inside
  · rw [← whole, ← Int.cast_neg, roundHalfEven_intCast, roundHalfEven_intCast]
  · have floorNeg : ⌊-x⌋ = -⌊x⌋ - 1 := by
      rw [Int.floor_eq_iff]
      push_cast
      constructor <;> linarith
    unfold roundHalfEven
    rw [floorNeg]
    push_cast
    split_ifs <;> first | omega | (exfalso; linarith)

/-! ## The unit in the last place -/

theorem ulp_pos (x : ℚ) : 0 < ulp x := zpow_pos (by norm_num) _

theorem ulp_neg (x : ℚ) : ulp (-x) = ulp x := by rw [ulp, ulpExponent, abs_neg, ulp, ulpExponent]

/-- A number is below `2 ^ 53` units. -/
theorem div_ulp_lt {x : ℚ} (positive : 0 < x) : x / ulp x < 2 ^ 53 := by
  have top : x < (2 : ℚ) ^ (Int.log 2 x + 1) := by
    exact_mod_cast Int.lt_zpow_succ_log_self (R := ℚ) (b := 2) (by norm_num) x
  rw [div_lt_iff₀ (ulp_pos x), ulp, ulpExponent, abs_of_pos positive, ← zpow_natCast,
    ← zpow_add₀ (by norm_num)]
  refine lt_of_lt_of_le top (zpow_le_zpow_right₀ (by norm_num) ?_)
  push_cast
  omega

/-- Above the bottom binade a number has at least `2 ^ 52` units. -/
theorem le_div_ulp {x : ℚ} (positive : 0 < x) (normal : -1074 < ulpExponent x) :
    2 ^ 52 ≤ x / ulp x := by
  have bottom : (2 : ℚ) ^ Int.log 2 x ≤ x := by
    exact_mod_cast Int.zpow_log_le_self (R := ℚ) (b := 2) (by norm_num) positive
  rw [le_div_iff₀ (ulp_pos x), ulp, ulpExponent, abs_of_pos positive, ← zpow_natCast,
    ← zpow_add₀ (by norm_num)]
  rw [ulpExponent, abs_of_pos positive] at normal
  refine le_trans (zpow_le_zpow_right₀ (by norm_num) ?_) bottom
  push_cast
  omega

theorem ulpExponent_mono {x y : ℚ} (positive : 0 < x) (order : x ≤ y) :
    ulpExponent x ≤ ulpExponent y := by
  rw [ulpExponent, ulpExponent, abs_of_pos positive, abs_of_pos (lt_of_lt_of_le positive order)]
  have := Int.log_mono_right (b := 2) positive order
  omega

/-- The exponent of a number between two powers of two. -/
theorem ulpExponent_eq {x : ℚ} {e : ℤ} (above : -1074 ≤ e) (atLeast : (2 : ℚ) ^ (e + 52) ≤ x)
    (below : x < (2 : ℚ) ^ (e + 53)) : ulpExponent x = e := by
  have positive : 0 < x := lt_of_lt_of_le (zpow_pos (by norm_num) _) atLeast
  have low := (Int.zpow_le_iff_le_log (b := 2) (by norm_num) (x := e + 52) positive).mp
    (by exact_mod_cast atLeast)
  have high := (Int.lt_zpow_iff_log_lt (b := 2) (by norm_num) (x := e + 53) positive).mp
    (by exact_mod_cast below)
  rw [ulpExponent, abs_of_pos positive]
  omega

/-! ## Doubles -/

@[simp] theorem double_zero : double 0 = 0 := by
  rw [double, zero_div, show (0 : ℚ) = ((0 : ℤ) : ℚ) from rfl, roundHalfEven_intCast]
  push_cast
  rw [zero_mul]

theorem double_neg (x : ℚ) : double (-x) = -double x := by
  rw [double, ulp_neg, neg_div, roundHalfEven_neg, double]
  push_cast
  rw [neg_mul]

theorem double_nonneg {x : ℚ} (nonneg : 0 ≤ x) : 0 ≤ double x := by
  have scaled : ((0 : ℤ) : ℚ) ≤ x / ulp x := by
    rw [Int.cast_zero]
    exact div_nonneg nonneg (le_of_lt (ulp_pos x))
  have rounded : ((0 : ℤ) : ℚ) ≤ roundHalfEven (x / ulp x) := by
    exact_mod_cast le_roundHalfEven scaled
  exact mul_nonneg (by rwa [Int.cast_zero] at rounded) (le_of_lt (ulp_pos x))

theorem double_mono_pos {x y : ℚ} (positive : 0 < x) (order : x ≤ y) : double x ≤ double y := by
  have positiveY := lt_of_lt_of_le positive order
  rcases eq_or_lt_of_le (ulpExponent_mono positive order) with same | apart
  · have units : ulp x = ulp y := by rw [ulp, ulp, same]
    have scaled : x / ulp y ≤ y / ulp y := div_le_div_of_nonneg_right order (le_of_lt (ulp_pos y))
    rw [double, double, units]
    exact mul_le_mul_of_nonneg_right (by exact_mod_cast roundHalfEven_mono scaled)
      (le_of_lt (ulp_pos y))
  · -- a power of two separates the two binades
    have upper : roundHalfEven (x / ulp x) ≤ 2 ^ 53 := by
      apply roundHalfEven_le
      push_cast
      exact le_of_lt (div_ulp_lt positive)
    have lower : 2 ^ 52 ≤ roundHalfEven (y / ulp y) := by
      apply le_roundHalfEven
      push_cast
      exact le_div_ulp positiveY (lt_of_le_of_lt (le_max_right _ _) apart)
    have doubled : 2 * ulp x ≤ ulp y := by
      rw [ulp, ulp, ← zpow_one_add₀ (by norm_num)]
      exact zpow_le_zpow_right₀ (by norm_num) (by omega)
    calc double x = roundHalfEven (x / ulp x) * ulp x := rfl
      _ ≤ 2 ^ 53 * ulp x :=
        mul_le_mul_of_nonneg_right (by exact_mod_cast upper) (le_of_lt (ulp_pos x))
      _ = 2 ^ 52 * (2 * ulp x) := by ring
      _ ≤ 2 ^ 52 * ulp y := mul_le_mul_of_nonneg_left doubled (by norm_num)
      _ ≤ double y := mul_le_mul_of_nonneg_right (by exact_mod_cast lower) (le_of_lt (ulp_pos y))

/-- Rounding keeps the order. -/
theorem double_mono {x y : ℚ} (order : x ≤ y) : double x ≤ double y := by
  rcases lt_trichotomy x 0 with negative | zero | positive
  · rcases le_or_gt 0 y with nonneg | negativeY
    · have flipped := double_nonneg (x := -x) (by linarith)
      rw [double_neg] at flipped
      exact le_trans (by linarith) (double_nonneg nonneg)
    · have flipped := double_mono_pos (x := -y) (y := -x) (by linarith) (by linarith)
      rw [double_neg, double_neg] at flipped
      linarith
  · rw [zero, double_zero]
    exact double_nonneg (by linarith)
  · exact double_mono_pos positive order

/-- A multiple of its unit is a double. -/
theorem double_eq_self {x : ℚ} {k : ℤ} (multiple : x = k * ulp x) : double x = x := by
  have scaled : x / ulp x = k := by
    rw [div_eq_iff (ne_of_gt (ulp_pos x))]
    exact multiple
  rw [double, scaled, roundHalfEven_intCast, ← multiple]

/-- The integers up to `2 ^ 53` are doubles. -/
theorem double_natCast {n : Nat} (small : n ≤ 2 ^ 53) : double (n : ℚ) = n := by
  rcases Nat.eq_zero_or_pos n with zero | positive
  · rw [zero, Nat.cast_zero, double_zero]
  · have positiveQ : (0 : ℚ) < n := by exact_mod_cast positive
    rcases Nat.eq_or_lt_of_le small with top | less
    · have exponent : ulpExponent (n : ℚ) = 1 := by
        apply ulpExponent_eq (by norm_num) <;> rw [top] <;> norm_num
      apply double_eq_self (k := 2 ^ 52)
      rw [ulp, exponent, top]
      norm_num
    · -- the unit is `2 ^ -m`, and the number is `n * 2 ^ m` units
      have atMost : ulpExponent (n : ℚ) ≤ 0 := by
        have power := (Int.lt_zpow_iff_log_lt (b := 2) (by norm_num) (x := 53) positiveQ).mp
          (by exact_mod_cast less)
        rw [ulpExponent, abs_of_pos positiveQ]
        omega
      apply double_eq_self (k := n * 2 ^ (-ulpExponent (n : ℚ)).toNat)
      have cancel : (2 : ℚ) ^ (-ulpExponent (n : ℚ)).toNat * ulp (n : ℚ) = 1 := by
        rw [ulp, ← zpow_natCast, ← zpow_add₀ (by norm_num), Int.toNat_of_nonneg (by omega),
          neg_add_cancel, zpow_zero]
      push_cast
      rw [mul_assoc, cancel, mul_one]

/-- Rounding moves a number that is not tiny by a factor of at most `1 + 2 ^ -53`. -/
theorem double_le {x : ℚ} (atLeast : 1 / 2 ≤ x) : double x ≤ x + x / 2 ^ 53 := by
  have positive : 0 < x := by linarith
  have logged := (Int.zpow_le_iff_le_log (b := 2) (by norm_num) (x := -1) positive).mp
    (by norm_num; linarith)
  have normal : -1074 < ulpExponent x := by
    rw [ulpExponent, abs_of_pos positive]
    omega
  have units := le_div_ulp positive normal
  rw [le_div_iff₀ (ulp_pos x)] at units
  have near := (abs_le.mp (roundHalfEven_near (x / ulp x))).2
  have scaled : x / ulp x * ulp x = x := div_mul_cancel₀ x (ne_of_gt (ulp_pos x))
  calc double x = roundHalfEven (x / ulp x) * ulp x := rfl
    _ ≤ (x / ulp x + 1 / 2) * ulp x :=
        mul_le_mul_of_nonneg_right (by linarith) (le_of_lt (ulp_pos x))
    _ = x + ulp x / 2 := by rw [add_mul, scaled]; ring
    _ ≤ x + x / 2 ^ 53 := by
        have : 2 ^ 53 * (ulp x / 2) ≤ x := by linarith
        rw [add_le_add_iff_left, le_div_iff₀ (by norm_num)]
        linarith

/-- The integers from `-2 ^ 53` to `2 ^ 53` are doubles. -/
theorem double_intCast {n : ℤ} (below : n ≤ 2 ^ 53) (above : -2 ^ 53 ≤ n) : double (n : ℚ) = n := by
  obtain ⟨m, rfl | rfl⟩ := n.eq_nat_or_neg
  · rw [Int.cast_natCast]
    exact double_natCast (by omega)
  · rw [Int.cast_neg, Int.cast_natCast, double_neg, double_natCast (by omega)]

/-- A double from `2 ^ 53` on is a multiple of an even unit with 53 bits. -/
theorem double_units {x : ℚ} (large : 2 ^ 53 ≤ x) :
    Exists fun k : ℤ => Exists fun e : ℤ =>
      1 ≤ e ∧ 2 ^ 52 ≤ k ∧ k < 2 ^ 53 ∧ double x = k * 2 ^ e := by
  have positive : 0 < x := lt_of_lt_of_le (by norm_num) large
  have logged := (Int.zpow_le_iff_le_log (b := 2) (by norm_num) (x := 53) positive).mp
    (by exact_mod_cast large)
  have exponent : 1 ≤ ulpExponent x := by
    rw [ulpExponent, abs_of_pos positive]
    omega
  have lower : 2 ^ 52 ≤ roundHalfEven (x / ulp x) := by
    apply le_roundHalfEven
    push_cast
    exact le_div_ulp positive (by omega)
  have upper : roundHalfEven (x / ulp x) ≤ 2 ^ 53 := by
    apply roundHalfEven_le
    push_cast
    exact le_of_lt (div_ulp_lt positive)
  rcases eq_or_lt_of_le upper with top | inside
  · -- rounded up to the next power of two
    refine ⟨2 ^ 52, ulpExponent x + 1, by omega, le_refl _, by norm_num, ?_⟩
    rw [double, top, ulp, zpow_add_one₀ (by norm_num)]
    push_cast
    ring
  · exact ⟨roundHalfEven (x / ulp x), ulpExponent x, exponent, lower, inside, rfl⟩

/-- From `2 ^ 53` on a fraction is lost when it is added. -/
theorem double_add_fraction {x f : ℚ} (large : 2 ^ 53 ≤ x) (nonneg : 0 ≤ f) (fraction : f < 1) :
    double (double x + f) = double x := by
  rcases double_units large with ⟨k, e, even, lower, upper, units⟩
  have unit : (2 : ℚ) ≤ 2 ^ e := by
    have mono := zpow_le_zpow_right₀ (a := (2 : ℚ)) (by norm_num) even
    rwa [zpow_one] at mono
  have lowerQ : (2 : ℚ) ^ 52 ≤ k := by exact_mod_cast lower
  have upperQ : (k : ℚ) + 1 ≤ 2 ^ 53 := by exact_mod_cast upper
  have exponent : ulpExponent (double x + f) = e := by
    rw [units]
    apply ulpExponent_eq (by omega)
    · have scaled :=
        mul_le_mul_of_nonneg_right lowerQ (le_of_lt (lt_of_lt_of_le (by norm_num) unit))
      rw [zpow_add₀ (by norm_num), mul_comm]
      norm_cast at scaled ⊢
      linarith
    · have scaled :=
        mul_le_mul_of_nonneg_right upperQ (le_of_lt (lt_of_lt_of_le (by norm_num) unit))
      rw [zpow_add₀ (by norm_num), mul_comm]
      rw [add_mul, one_mul] at scaled
      norm_cast at scaled ⊢
      linarith
  have rounded : roundHalfEven ((double x + f) / ulp (double x + f)) = k := by
    have half : f / 2 ^ e < 1 / 2 := by
      rw [div_lt_iff₀ (by linarith)]
      linarith
    have quotient : (double x + f) / ulp (double x + f) = k + f / 2 ^ e := by
      rw [ulp, exponent, units, add_div, mul_div_cancel_right₀ _ (by linarith)]
    have floor : ⌊(k : ℚ) + f / 2 ^ e⌋ = k := by
      rw [Int.floor_eq_iff]
      constructor
      · have := div_nonneg nonneg (by linarith : (0 : ℚ) ≤ 2 ^ e)
        linarith
      · linarith
    rw [quotient, roundHalfEven, floor, if_pos (by linarith)]
  rw [double, rounded, ulp, exponent, units]

/-- Between an integer and the next one the quotient of two numbers stays
where it is, while the numerator is below `2 ^ 52`. -/
theorem floor_double_div {n d : Nat} (positive : 0 < d) (small : n < 2 ^ 52) :
    ⌊double ((n : ℚ) / d)⌋ = ((n / d : Nat) : ℤ) := by
  have positiveQ : (0 : ℚ) < d := by exact_mod_cast positive
  have quotient : ((n / d : Nat) : ℚ) ≤ (n : ℚ) / d := Nat.cast_div_le
  have next : (n : ℚ) + 1 ≤ ((n / d : Nat) + 1) * d := by
    have : n + 1 ≤ (n / d + 1) * d := by
      have := Nat.lt_div_mul_add positive (a := n)
      rw [Nat.add_mul, one_mul]
      omega
    exact_mod_cast this
  rw [Int.floor_eq_iff]
  constructor
  · have exact := double_natCast (n := n / d) (le_trans (Nat.div_le_self n d) (by omega))
    have mono := double_mono quotient
    rw [exact] at mono
    exact_mod_cast mono
  · rcases le_or_gt (1 / 2) ((n : ℚ) / d) with large | tiny
    · refine lt_of_le_of_lt (double_le large) ?_
      have smallQ : (n : ℚ) / 2 ^ 53 < 1 := by
        rw [div_lt_one (by norm_num)]
        have : (n : ℚ) < 2 ^ 52 := by exact_mod_cast small
        linarith
      have sum : (n : ℚ) / d + (n : ℚ) / d / 2 ^ 53 = (n + n / 2 ^ 53) / d := by ring
      rw [sum, div_lt_iff₀ positiveQ, Int.cast_natCast]
      linarith
    · have half : double (1 / 2) = 1 / 2 := by
        have exponent : ulpExponent (1 / 2) = -53 := by apply ulpExponent_eq <;> norm_num
        apply double_eq_self (k := 2 ^ 52)
        rw [ulp, exponent]
        norm_num
      have mono := double_mono (le_of_lt tiny)
      rw [half] at mono
      have nonneg : (0 : ℚ) ≤ ((n / d : Nat) : ℤ) := by positivity
      linarith

end Foundation
end OsslScripts
