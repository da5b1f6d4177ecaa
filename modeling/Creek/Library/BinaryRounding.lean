import Mathlib

/-! Rounding to a binary significand of fixed precision, ties to even.
The exponent is unbounded: this is the arithmetic of a binary floating-point format away from the
ends of its range.
-/

namespace Creek.Library

-- Integers

/-- The nearest integer; a tie goes to the even neighbour. -/
def roundEven (value : ℚ) : ℤ :=
  if Int.fract value < 1 / 2 then ⌊value⌋
  else if 1 / 2 < Int.fract value then ⌊value⌋ + 1
  else if Even ⌊value⌋ then ⌊value⌋
  else ⌊value⌋ + 1

theorem floor_le_roundEven (value : ℚ) : ⌊value⌋ ≤ roundEven value := by
  unfold roundEven
  split_ifs <;> omega

theorem roundEven_le_floor_add_one (value : ℚ) : roundEven value ≤ ⌊value⌋ + 1 := by
  unfold roundEven
  split_ifs <;> omega

@[simp] theorem roundEven_intCast (value : ℤ) : roundEven value = value := by
  simp [roundEven]

/-- The order is kept; values with one floor are told apart by their fractions. -/
theorem roundEven_mono {left right : ℚ} (le : left ≤ right) : roundEven left ≤ roundEven right := by
  rcases (Int.floor_le_floor le).lt_or_eq with lower | same
  · calc
      roundEven left ≤ ⌊left⌋ + 1 := roundEven_le_floor_add_one left
      _ ≤ ⌊right⌋ := lower
      _ ≤ roundEven right := floor_le_roundEven right
  · have fractions : Int.fract left ≤ Int.fract right := by
      rw [Int.fract, Int.fract, same]
      linarith
    unfold roundEven
    rw [same]
    split_ifs <;> first | omega | linarith

/-- Rounding moves a value by one half at most. -/
theorem abs_roundEven_sub_le (value : ℚ) : |roundEven value - value| ≤ 1 / 2 := by
  have split : (⌊value⌋ : ℚ) + Int.fract value = value := Int.floor_add_fract value
  have nonneg := Int.fract_nonneg value
  have small := Int.fract_lt_one value
  rw [abs_le]
  unfold roundEven
  split_ifs <;> push_cast <;> constructor <;> linarith

-- Significands

/-- The unit in the last place of a value. -/
def ulp (precision : Nat) (value : ℚ) : ℚ := 2 ^ (Int.log 2 |value| + 1 - precision)

/-- The nearest value with a significand of this precision. -/
def nearest (precision : Nat) (value : ℚ) : ℚ :=
  roundEven (value / ulp precision value) * ulp precision value

variable {precision : Nat} {value left right : ℚ}

theorem ulp_pos (precision : Nat) (value : ℚ) : 0 < ulp precision value :=
  zpow_pos two_pos _

/-- Rounding moves a value by half a unit at most. -/
theorem abs_nearest_sub_le (precision : Nat) (value : ℚ)
    : |nearest precision value - value| ≤ ulp precision value / 2 := by
  have positive := ulp_pos precision value
  have scaled : nearest precision value - value
      = (roundEven (value / ulp precision value) - value / ulp precision value)
        * ulp precision value := by
    rw [sub_mul, div_mul_cancel₀ _ positive.ne', nearest]
  rw [scaled, abs_mul, abs_of_pos positive]
  have half := abs_roundEven_sub_le (value / ulp precision value)
  calc
    |(roundEven (value / ulp precision value) : ℚ) - value / ulp precision value|
          * ulp precision value
        ≤ 1 / 2 * ulp precision value := mul_le_mul_of_nonneg_right half positive.le
    _ = ulp precision value / 2 := by ring

/-- The unit of a positive value is small against it. -/
theorem ulp_le (positive : 0 < value) : ulp precision value ≤ value * 2 / 2 ^ precision := by
  have magnitude : (2 : ℚ) ^ Int.log 2 |value| ≤ value := by
    rw [abs_of_pos positive]
    exact_mod_cast Int.zpow_log_le_self Nat.one_lt_two positive
  rw [ulp, zpow_sub₀ two_ne_zero, zpow_add₀ two_ne_zero, zpow_one, zpow_natCast]
  gcongr

/-- The relative error of rounding. -/
theorem nearest_error (nonneg : 0 ≤ value)
    : |nearest precision value - value| ≤ value / 2 ^ precision := by
  rcases nonneg.eq_or_lt with rfl | positive
  · simp [nearest, roundEven]
  · have unit : ulp precision value ≤ value * 2 / 2 ^ precision := ulp_le positive
    calc
      |nearest precision value - value| ≤ ulp precision value / 2 :=
        abs_nearest_sub_le precision value
      _ ≤ value * 2 / 2 ^ precision / 2 := by linarith
      _ = value / 2 ^ precision := by ring

theorem nearest_nonneg (nonneg : 0 ≤ value) : 0 ≤ nearest precision value := by
  have positive := ulp_pos precision value
  have rounded : roundEven ((0 : ℤ) : ℚ) ≤ roundEven (value / ulp precision value) := by
    refine roundEven_mono ?_
    rw [Int.cast_zero]
    positivity
  rw [roundEven_intCast] at rounded
  exact mul_nonneg (Int.cast_nonneg rounded) positive.le

/-- A value below a power of two is not rounded beyond it. -/
theorem nearest_le_pow (positive : 0 < value)
    : nearest precision value ≤ 2 ^ (Int.log 2 |value| + 1) := by
  have below : value / ulp precision value ≤ ((2 ^ precision : ℤ) : ℚ) := by
    rw [div_le_iff₀ (ulp_pos precision value), ulp]
    push_cast
    rw [← zpow_natCast, ← zpow_add₀ two_ne_zero, add_sub_cancel, abs_of_pos positive]
    exact_mod_cast (Int.lt_zpow_succ_log_self Nat.one_lt_two value).le
  have rounded := roundEven_mono below
  rw [roundEven_intCast] at rounded
  have positiveUnit := ulp_pos precision value
  calc
    nearest precision value ≤ ((2 ^ precision : ℤ) : ℚ) * ulp precision value := by
      refine mul_le_mul_of_nonneg_right ?_ positiveUnit.le
      exact_mod_cast rounded
    _ = 2 ^ (Int.log 2 |value| + 1) := by
      rw [ulp]
      push_cast
      rw [← zpow_natCast, ← zpow_add₀ two_ne_zero, add_sub_cancel]

/-- Nor is a value above a power of two rounded below it. -/
theorem pow_le_nearest (precise : 0 < precision) (positive : 0 < value)
    : 2 ^ Int.log 2 |value| ≤ nearest precision value := by
  have unit : (2 : ℚ) ^ Int.log 2 |value| = ((2 ^ (precision - 1) : ℤ) : ℚ) * ulp precision value := by
    rw [ulp]
    push_cast
    rw [← zpow_natCast, ← zpow_add₀ two_ne_zero, Nat.cast_sub precise]
    congr 1
    push_cast
    ring
  have above : ((2 ^ (precision - 1) : ℤ) : ℚ) ≤ value / ulp precision value := by
    rw [le_div_iff₀ (ulp_pos precision value), ← unit, abs_of_pos positive]
    exact_mod_cast Int.zpow_log_le_self Nat.one_lt_two positive
  have rounded := roundEven_mono above
  rw [roundEven_intCast] at rounded
  rw [unit]
  refine mul_le_mul_of_nonneg_right ?_ (ulp_pos precision value).le
  exact_mod_cast rounded

/-- The order is kept: within one binade the unit is the same, and a power of two parts two
binades.
-/
theorem nearest_mono (precise : 0 < precision) (nonneg : 0 ≤ left) (le : left ≤ right)
    : nearest precision left ≤ nearest precision right := by
  rcases nonneg.eq_or_lt with rfl | positive
  · have zero : nearest precision 0 = 0 := by simp [nearest, roundEven]
    rw [zero]
    exact nearest_nonneg le
  · have positiveRight : 0 < right := positive.trans_le le
    have logs : Int.log 2 |left| ≤ Int.log 2 |right| := by
      rw [abs_of_pos positive, abs_of_pos positiveRight]
      exact Int.log_mono_right positive le
    rcases logs.eq_or_lt with same | lower
    · have units : ulp precision left = ulp precision right := by rw [ulp, ulp, same]
      rw [nearest, nearest, units]
      have positiveUnit := ulp_pos precision right
      refine mul_le_mul_of_nonneg_right ?_ positiveUnit.le
      exact_mod_cast roundEven_mono (div_le_div_of_nonneg_right le positiveUnit.le)
    · calc
        nearest precision left ≤ 2 ^ (Int.log 2 |left| + 1) := nearest_le_pow positive
        _ ≤ 2 ^ Int.log 2 |right| := zpow_le_zpow_right₀ one_le_two lower
        _ ≤ nearest precision right := pow_le_nearest precise positiveRight

/-- A multiple of its own unit is not rounded. -/
theorem nearest_eq_self (count : ℤ) (whole : value / ulp precision value = count)
    : nearest precision value = value := by
  rw [nearest, whole, roundEven_intCast, ← whole, div_mul_cancel₀]
  exact (ulp_pos precision value).ne'

/-- A natural number that the precision holds is not rounded. -/
theorem nearest_natCast {number : Nat} (held : number < 2 ^ precision)
    : nearest precision number = number := by
  rcases Nat.eq_zero_or_pos number with rfl | positive
  · simp [nearest, roundEven]
  · have digits : Nat.log 2 number < precision := Nat.log_lt_of_lt_pow positive.ne' held
    have unit : ulp precision number = 1 / 2 ^ (precision - 1 - Nat.log 2 number) := by
      rw [ulp, abs_of_nonneg (Nat.cast_nonneg number), Int.log_natCast, one_div, ← zpow_natCast,
        ← zpow_neg]
      congr 1
      omega
    refine nearest_eq_self (number * 2 ^ (precision - 1 - Nat.log 2 number)) ?_
    rw [unit]
    push_cast
    field_simp

/-- What is rounded is not rounded again: it stays in its binade, or is the next power of two. -/
theorem nearest_nearest (precise : 0 < precision) (nonneg : 0 ≤ value)
    : nearest precision (nearest precision value) = nearest precision value := by
  rcases nonneg.eq_or_lt with rfl | positive
  · simp [nearest, roundEven]
  · have above := pow_le_nearest precise positive
    have below : nearest precision value ≤ 2 ^ (Int.log 2 |value| + 1) := nearest_le_pow positive
    have result : 0 < nearest precision value := lt_of_lt_of_le (zpow_pos two_pos _) above
    rcases below.lt_or_eq with inside | top
    · have log : Int.log 2 |nearest precision value| = Int.log 2 |value| := by
        rw [abs_of_pos result]
        refine le_antisymm ?_ ?_
        · refine Int.lt_add_one_iff.mp ((Int.lt_zpow_iff_log_lt Nat.one_lt_two result).mp ?_)
          exact_mod_cast inside
        · refine (Int.zpow_le_iff_le_log Nat.one_lt_two result).mp ?_
          exact_mod_cast above
      have unit : ulp precision (nearest precision value) = ulp precision value := by
        rw [ulp, ulp, log]
      refine nearest_eq_self (roundEven (value / ulp precision value)) ?_
      rw [unit, nearest, mul_div_cancel_right₀]
      exact (ulp_pos precision value).ne'
    · have log : Int.log 2 |nearest precision value| = Int.log 2 |value| + 1 := by
        rw [top, abs_of_pos (zpow_pos two_pos _)]
        exact_mod_cast Int.log_zpow (R := ℚ) Nat.one_lt_two (Int.log 2 |value| + 1)
      refine nearest_eq_self (2 ^ (precision - 1)) ?_
      rw [ulp, log, top, ← zpow_sub₀ two_ne_zero]
      push_cast
      rw [← zpow_natCast, Nat.cast_sub precise]
      congr 1
      push_cast
      ring

/-- Rounding does not go below a number that the precision holds. -/
theorem le_nearest {number : Nat} (held : number < 2 ^ precision) (le : (number : ℚ) ≤ value)
    : (number : ℚ) ≤ nearest precision value := by
  rcases Nat.eq_zero_or_pos number with rfl | positive
  · rw [Nat.cast_zero] at le ⊢
    exact nearest_nonneg le
  · have precise : 0 < precision := by
      by_contra none_
      rw [Nat.eq_zero_of_not_pos none_] at held
      omega
    rw [← nearest_natCast held]
    exact nearest_mono precise (Nat.cast_nonneg number) le

end Creek.Library
