import Mathlib.Algebra.Order.Ring.Abs
import Mathlib.Algebra.Order.Ring.Int
import Mathlib.Tactic.Linarith
import Mathlib.Tactic.Ring

/-!
# Truncated division

`Int.tdiv` and the division of `Int64` round towards zero. `IsRemainder a b r` says that `r` is
what such a division of `a` by `b` may leave: `b` is larger, and `r` has not the other sign of `a`.
A quotient is then the right one exactly if what it leaves is a remainder (`tdiv_eq_iff`), so one
can tell what happens to a quotient when the dividend or the divisor is a little off.
-/

namespace Truncation

/-- `r` may be left of `a` by a division by `b` that rounds towards zero. -/
def IsRemainder (a b r : ℤ) : Prop := |r| < |b| ∧ 0 ≤ a * r

instance (a b r : ℤ) : Decidable (IsRemainder a b r) := inferInstanceAs (Decidable (_ ∧ _))

variable {a b q r : ℤ}

theorem isRemainder_tmod (hb : b ≠ 0) : IsRemainder a b (a.tmod b) := by
  constructor
  · rw [Int.abs_eq_natAbs, Int.abs_eq_natAbs, Int.natAbs_tmod]
    have := Nat.mod_lt a.natAbs (Int.natAbs_pos.mpr hb)
    omega
  · rcases le_total 0 a with ha | ha
    · exact mul_nonneg ha (Int.tmod_nonneg b ha)
    · have hneg : (-a).tmod b = -a.tmod b := Int.neg_tmod a b
      have := Int.tmod_nonneg b (neg_nonneg.mpr ha)
      exact mul_nonneg_of_nonpos_of_nonpos ha (by omega)

theorem eq_zero_of_abs_mul_lt (h : |q * b| < |b|) : q = 0 := by
  by_contra hq
  have hone : 1 ≤ |q| := Int.one_le_abs hq
  rw [abs_mul] at h
  have := mul_le_mul_of_nonneg_right hone (abs_nonneg b)
  omega

/-- A dividend does not leave two remainders. -/
theorem IsRemainder.unique {q' r' : ℤ} (h : IsRemainder a b r) (h' : IsRemainder a b r')
    (hq : a = q * b + r) (hq' : a = q' * b + r') : q = q' := by
  obtain ⟨hlt, hsign⟩ := h
  obtain ⟨hlt', hsign'⟩ := h'
  rw [abs_lt] at hlt hlt'
  rcases lt_trichotomy a 0 with ha | rfl | ha
  · -- Both remainders lie in `(-|b|, 0]`.
    have hr : r ≤ 0 := nonpos_of_mul_nonneg_right hsign ha
    have hr' : r' ≤ 0 := nonpos_of_mul_nonneg_right hsign' ha
    have hdiff : (q - q') * b = r' - r := by linarith
    refine sub_eq_zero.mp (eq_zero_of_abs_mul_lt (b := b) ?_)
    rw [hdiff, abs_lt]
    omega
  · have hzero : q * b = -r := by linarith
    have hzero' : q' * b = -r' := by linarith
    rw [eq_zero_of_abs_mul_lt (b := b) (q := q) (by rw [hzero, abs_lt]; omega),
      eq_zero_of_abs_mul_lt (b := b) (q := q') (by rw [hzero', abs_lt]; omega)]
  · -- Both remainders lie in `[0, |b|)`.
    have hr : 0 ≤ r := nonneg_of_mul_nonneg_right hsign ha
    have hr' : 0 ≤ r' := nonneg_of_mul_nonneg_right hsign' ha
    have hdiff : (q - q') * b = r' - r := by linarith
    refine sub_eq_zero.mp (eq_zero_of_abs_mul_lt (b := b) ?_)
    rw [hdiff, abs_lt]
    omega

/-- A quotient is right exactly if what it leaves is a remainder. -/
theorem tdiv_eq_iff (hb : b ≠ 0) : a.tdiv b = q ↔ IsRemainder a b (a - q * b) := by
  have htmod := isRemainder_tmod (a := a) hb
  have hsum := Int.tmod_add_tdiv_mul a b
  constructor
  · rintro rfl
    rwa [show a - a.tdiv b * b = a.tmod b by omega]
  · intro h
    exact htmod.unique h (by omega) (by omega)

/-- The same for machine integers. -/
theorem toInt_div_eq_iff_of_ne {x y : Int64} (hy : y ≠ 0) (hone : x ≠ Int64.minValue ∨ y ≠ -1) :
    (x / y).toInt = q ↔ IsRemainder x.toInt y.toInt (x.toInt - q * y.toInt) := by
  have hy' : y.toInt ≠ 0 := fun h => hy (Int64.toInt_inj.mp h)
  rw [← tdiv_eq_iff hy']
  rcases hone with hx | hy
  · rw [Int64.toInt_div_of_ne_left _ _ hx]
  · rw [Int64.toInt_div_of_ne_right _ _ hy]

/-- The one quotient that does not fit is also not the one it is taken for. -/
theorem toInt_div_eq_iff {x y : Int64} (hy : y ≠ 0) (hq : 0 ≤ q) (hq' : q < 2 ^ 63) :
    (x / y).toInt = q ↔ IsRemainder x.toInt y.toInt (x.toInt - q * y.toInt) := by
  by_cases hmin : x = Int64.minValue ∧ y = -1
  · obtain ⟨rfl, rfl⟩ := hmin
    have hmin : Int64.minValue.toInt = -2 ^ 63 := by decide
    have hone : (-1 : Int64).toInt = -1 := by decide
    rw [Int64.minValue_div_neg_one, hmin, hone]
    constructor
    · intro h
      omega
    · rintro ⟨hlt, -⟩
      rw [abs_lt, abs_neg, abs_one] at hlt
      omega
  · exact toInt_div_eq_iff_of_ne hy (not_and_or.mp hmin)

end Truncation
