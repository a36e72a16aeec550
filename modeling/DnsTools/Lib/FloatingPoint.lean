import Mathlib.Algebra.Order.Round
import Mathlib.Data.Int.Log
import Mathlib.Tactic.FieldSimp
import Mathlib.Tactic.Linarith
import Mathlib.Tactic.Ring

/-!
# Binary floating point

The numbers with a given number of bits are the multiples of a unit in the last place, a power of
two that depends on the binary logarithm of the number. `roundTo p` rounds to the nearest of those
with `p` bits, and to the even multiple where there are two. The exponent has no limits, so nothing
overflows and there are no subnormal numbers; rounding is for numbers that are not negative.

## What holds

* `FloatingPoint.abs_roundEven_sub_le`, `FloatingPoint.roundEven_eq` — rounding to an integer
* `FloatingPoint.roundTo_natCast` — an integer with no more bits is as it was
* `FloatingPoint.abs_roundTo_sub_le` — any number moves by at most half a unit
-/

namespace FloatingPoint

variable {K : Type*} [Field K] [LinearOrder K] [IsStrictOrderedRing K] [FloorRing K]

/-! ### Rounding to an integer -/

/-- The nearest integer, and the even one of two. -/
def roundEven (x : K) : ℤ :=
  if Int.fract x < 1 / 2 then ⌊x⌋
  else if 1 / 2 < Int.fract x then ⌊x⌋ + 1
  else if Even ⌊x⌋ then ⌊x⌋
  else ⌊x⌋ + 1

variable {x : K} {n : ℤ} {p : ℕ}

theorem abs_roundEven_sub_le (x : K) : |(roundEven x : K) - x| ≤ 1 / 2 := by
  have hfract : x = ⌊x⌋ + Int.fract x := (Int.floor_add_fract x).symm
  have hnonneg := Int.fract_nonneg x
  have hlt := Int.fract_lt_one x
  rw [roundEven, abs_le]
  split_ifs <;> push_cast <;> constructor <;> linarith

theorem roundEven_eq (h : |x - n| < 1 / 2) : roundEven x = n := by
  have hround := abs_le.mp (abs_roundEven_sub_le x)
  have hx := abs_lt.mp h
  have hupper : (roundEven x : K) < n + 1 := by linarith
  have hlower : (n : K) < roundEven x + 1 := by linarith
  have hupper' : roundEven x < n + 1 := by exact_mod_cast hupper
  have hlower' : n < roundEven x + 1 := by exact_mod_cast hlower
  omega

theorem roundEven_intCast (n : ℤ) : roundEven (n : K) = n :=
  roundEven_eq (by rw [sub_self, abs_zero]; norm_num)

/-! ### Rounding to a number of bits -/

/-- The unit in the last place of a number with `p` bits. -/
def ulp (p : ℕ) (x : K) : K := 2 ^ (Int.log 2 x + 1 - p)

theorem ulp_pos (p : ℕ) (x : K) : 0 < ulp p x := zpow_pos two_pos _

/-- The nearest number with `p` bits. -/
def roundTo (p : ℕ) (x : K) : K := roundEven (x / ulp p x) * ulp p x

theorem abs_roundTo_sub_le (p : ℕ) (x : K) : |roundTo p x - x| ≤ ulp p x / 2 := by
  have hpos := ulp_pos p x
  have hscaled : roundTo p x - x = (roundEven (x / ulp p x) - x / ulp p x) * ulp p x := by
    rw [roundTo, sub_mul, div_mul_cancel₀ x hpos.ne']
  rw [hscaled, abs_mul, abs_of_pos hpos]
  calc |(roundEven (x / ulp p x) : K) - x / ulp p x| * ulp p x
      ≤ 1 / 2 * ulp p x := mul_le_mul_of_nonneg_right (abs_roundEven_sub_le _) hpos.le
    _ = ulp p x / 2 := by ring

/-- A bound of the number is one of its unit. -/
theorem ulp_le {m : ℤ} (hpos : 0 < x) (hlt : x < 2 ^ m) : ulp p x ≤ 2 ^ (m - p) := by
  have hlog : Int.log 2 x < m :=
    (Int.lt_zpow_iff_log_lt Nat.one_lt_two hpos).mp (by exact_mod_cast hlt)
  exact zpow_le_zpow_right₀ one_le_two (by omega)

/-- An integer with no more than `p` bits is one of the numbers. -/
theorem roundTo_natCast {n : ℕ} (h : n < 2 ^ p) : roundTo p (n : K) = n := by
  rcases Nat.eq_zero_or_pos n with rfl | hpos
  · have hzero : roundEven (0 : K) = 0 := by exact_mod_cast roundEven_intCast (K := K) 0
    rw [Nat.cast_zero, roundTo, zero_div, hzero, Int.cast_zero, zero_mul]
  -- the unit is a whole part of one, so the number is a multiple of it
  have hlog : Int.log 2 (n : K) < p :=
    (Int.lt_zpow_iff_log_lt Nat.one_lt_two (Nat.cast_pos.mpr hpos)).mp (by exact_mod_cast h)
  obtain ⟨k, hk⟩ := Int.eq_ofNat_of_zero_le (show 0 ≤ -(Int.log 2 (n : K) + 1 - p) by omega)
  have hulp : ulp p (n : K) = (2 ^ k)⁻¹ := by
    rw [ulp, ← neg_neg (Int.log 2 (n : K) + 1 - p), hk, zpow_neg, zpow_natCast]
  have hpow : (2 : K) ^ k ≠ 0 := pow_ne_zero k two_ne_zero
  have hmultiple : (n : K) / ulp p (n : K) = ((n * 2 ^ k : ℤ) : K) := by
    rw [hulp, div_inv_eq_mul]
    push_cast
    rfl
  rw [roundTo, hmultiple, roundEven_intCast, hulp]
  push_cast
  rw [mul_assoc, mul_inv_cancel₀ hpow, mul_one]

end FloatingPoint
