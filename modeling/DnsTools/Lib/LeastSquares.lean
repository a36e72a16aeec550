import Mathlib.Algebra.BigOperators.Fin
import Mathlib.Algebra.BigOperators.Ring.List
import Mathlib.Algebra.Group.Prod
import Mathlib.Algebra.Order.BigOperators.Group.List
import Mathlib.Algebra.Order.Chebyshev
import Mathlib.Algebra.Order.Field.Basic
import Mathlib.Tactic.FieldSimp
import Mathlib.Tactic.Linarith
import Mathlib.Tactic.LinearCombination
import Mathlib.Tactic.Ring

/-!
# Least squares

The line through points of the plane for which the sum of the squares of the residuals is least. It
is characterised by the normal equations, which say that the residuals sum to zero, and so do their
products with the first coordinates. So what is added to the data leaves the line as it is if and
only if its residuals meet the same equations.

## What holds

* `LeastSquares.isBest_iff` — the normal equations
* `LeastSquares.IsBest.eq` — the line is unique, if not all points stand above each other
* `LeastSquares.isBest_append_iff` — when it stays the same for more data
* `LeastSquares.isBest_fitLine` — there is one
* `LeastSquares.IsBest.slope_le` — it is no steeper than the points are
-/

namespace LeastSquares

variable {K : Type*} [Field K]

/-- The residual of a point: the height of the line above it. A line is its height at zero and its
slope. -/
def residualOf (line point : K × K) : K := line.1 + line.2 * point.1 - point.2

/-- The sum of the squares. -/
def sumSquares (line : K × K) (data : List (K × K)) : K :=
  (data.map fun point => residualOf line point ^ 2).sum

/-- The residuals are balanced. -/
structure NormalEquations (line : K × K) (data : List (K × K)) : Prop where
  /-- Their sum is zero. -/
  sum : (data.map (residualOf line)).sum = 0
  /-- So is that of their products with the first coordinates. -/
  moment : (data.map fun point => residualOf line point * point.1).sum = 0

/-- No line has a smaller sum of squares. -/
def IsBest [LE K] (line : K × K) (data : List (K × K)) : Prop :=
  ∀ other, sumSquares line data ≤ sumSquares other data

variable {line other d : K × K} {data data' : List (K × K)} {p q : K × K}

/-! ### The normal equations -/

theorem isBest_perm [LE K] (h : data.Perm data') : IsBest line data ↔ IsBest line data' := by
  have hsum (other : K × K) : sumSquares other data = sumSquares other data' := (h.map _).sum_eq
  rw [IsBest, IsBest]
  simp only [hsum]

theorem normalEquations_append (h : NormalEquations line data) :
    NormalEquations line (data ++ data') ↔ NormalEquations line data' := by
  have hsum (f : K × K → K) :
      ((data ++ data').map f).sum = (data.map f).sum + (data'.map f).sum := by
    rw [List.map_append, List.sum_append]
  constructor
  · rintro ⟨hs, hm⟩
    rw [hsum, h.sum, zero_add] at hs
    rw [hsum, h.moment, zero_add] at hm
    exact ⟨hs, hm⟩
  · rintro ⟨hs, hm⟩
    exact ⟨by rw [hsum, h.sum, hs, zero_add], by rw [hsum, h.moment, hm, zero_add]⟩

/-- The sum of squares of another line. -/
theorem sumSquares_add (line d : K × K) (data : List (K × K)) :
    sumSquares (line + d) data = sumSquares line data +
      2 * (d.1 * (data.map (residualOf line)).sum +
        d.2 * (data.map fun point => residualOf line point * point.1).sum) +
      (data.map fun point => (d.1 + d.2 * point.1) ^ 2).sum := by
  induction data with
  | nil => simp [sumSquares]
  | cons p data ih =>
    simp only [sumSquares, List.map_cons, List.sum_cons] at ih ⊢
    rw [ih]
    simp only [residualOf, Prod.fst_add, Prod.snd_add]
    ring

/-! ### Sums -/

theorem sum_residualOf (line : K × K) (data : List (K × K)) :
    (data.map (residualOf line)).sum = data.length * line.1
      + line.2 * (data.map fun p => p.1).sum - (data.map fun p => p.2).sum := by
  induction data with
  | nil => simp
  | cons p data ih =>
    simp only [List.map_cons, List.sum_cons, List.length_cons, ih, residualOf]
    push_cast
    ring

theorem sum_residualOf_mul (line : K × K) (data : List (K × K)) :
    (data.map fun p => residualOf line p * p.1).sum
      = line.1 * (data.map fun p => p.1).sum + line.2 * (data.map fun p => p.1 ^ 2).sum -
        (data.map fun p => p.1 * p.2).sum := by
  induction data with
  | nil => simp
  | cons p data ih =>
    rw [List.map_cons, List.sum_cons, ih]
    simp only [List.map_cons, List.sum_cons, residualOf]
    ring

/-- The determinant. -/
theorem sum_sub_sq (n s : K) (data : List (K × K)) :
    (data.map fun p => (n * p.1 - s) ^ 2).sum = n ^ 2 * (data.map fun p => p.1 ^ 2).sum -
      2 * n * s * (data.map fun p => p.1).sum + data.length * s ^ 2 := by
  induction data with
  | nil => simp
  | cons p data ih =>
    simp only [List.map_cons, List.sum_cons, List.length_cons, ih]
    push_cast
    ring

section Ordered

variable [LinearOrder K] [IsStrictOrderedRing K]

theorem sum_sq_nonneg (f : K × K → K) (data : List (K × K)) :
    0 ≤ (data.map fun point => f point ^ 2).sum := by
  refine List.sum_nonneg fun x hx => ?_
  obtain ⟨p, -, rfl⟩ := List.mem_map.mp hx
  exact sq_nonneg _

theorem eq_zero_of_sum_sq_eq_zero {f : K × K → K}
    (h : (data.map fun point => f point ^ 2).sum = 0) : ∀ p ∈ data, f p = 0 := by
  induction data with
  | nil => exact List.forall_mem_nil _
  | cons p data ih =>
    rw [List.map_cons, List.sum_cons] at h
    have hp := sq_nonneg (f p)
    have hdata := sum_sq_nonneg f data
    have hzero : f p ^ 2 = 0 := by linarith
    exact List.forall_mem_cons.mpr ⟨pow_eq_zero_iff two_ne_zero |>.mp hzero, ih (by linarith)⟩

/-- A parabola that is nowhere below its value at zero has its minimum there. -/
theorem eq_zero_of_parabola {a b : K} (ha : 0 ≤ a) (h : ∀ x, 0 ≤ 2 * (x * b) + x ^ 2 * a) :
    b = 0 := by
  have hpos : 0 < a + 1 := by linarith
  have hx := h (-b / (a + 1))
  have hvalue : 2 * (-b / (a + 1) * b) + (-b / (a + 1)) ^ 2 * a
      = -(b ^ 2 * (a + 2)) / (a + 1) ^ 2 := by
    field_simp
    ring
  rw [hvalue] at hx
  by_contra hb
  have hneg : -(b ^ 2 * (a + 2)) / (a + 1) ^ 2 < 0 :=
    div_neg_of_neg_of_pos (neg_lt_zero.mpr (by positivity)) (by positivity)
  exact absurd hx hneg.not_ge

/-- A line is best if and only if its residuals are balanced. -/
theorem isBest_iff : IsBest line data ↔ NormalEquations line data := by
  constructor
  · intro h
    have hline (d : K × K) : 0 ≤ 2 * (d.1 * (data.map (residualOf line)).sum +
        d.2 * (data.map fun point => residualOf line point * point.1).sum) +
        (data.map fun point => (d.1 + d.2 * point.1) ^ 2).sum := by
      have hle := h (line + d)
      rw [sumSquares_add] at hle
      linarith
    constructor
    · -- Move the line up and down.
      refine eq_zero_of_parabola (sum_sq_nonneg (fun _ => 1) data) fun x => ?_
      have hmove := hline (x, 0)
      simpa [mul_comm] using hmove
    · -- Turn it.
      refine eq_zero_of_parabola (sum_sq_nonneg Prod.fst data) fun x => ?_
      have hturn := hline (0, x)
      simp only [zero_mul, zero_add, mul_pow, List.sum_map_mul_left] at hturn
      exact hturn
  · intro h other
    have hadd := sumSquares_add line (other - line) data
    have hother : line + (other - line) = other := add_sub_cancel line other
    rw [hother, h.sum, h.moment, mul_zero, mul_zero, add_zero, mul_zero, add_zero] at hadd
    rw [hadd]
    exact le_add_of_nonneg_right (sum_sq_nonneg _ data)

/-- The best line through points that do not all stand above each other is unique. -/
theorem IsBest.eq (h : IsBest line data) (hother : IsBest other data) (hp : p ∈ data)
    (hq : q ∈ data) (hne : p.1 ≠ q.1) : other = line := by
  obtain ⟨hsum, hmoment⟩ := isBest_iff.mp h
  have hadd := sumSquares_add line (other - line) data
  have heq : line + (other - line) = other := add_sub_cancel line other
  rw [heq, hsum, hmoment, mul_zero, mul_zero, add_zero, mul_zero, add_zero] at hadd
  have hzero :
      (data.map fun point => ((other - line).1 + (other - line).2 * point.1) ^ 2).sum = 0 := by
    have hle := hother line
    have hge := sum_sq_nonneg (fun point => (other - line).1 + (other - line).2 * point.1) data
    linarith
  -- The difference of the two lines is zero at two places.
  have hdiff := eq_zero_of_sum_sq_eq_zero hzero
  have hslope : (other - line).2 = 0 := by
    have hmul : (other - line).2 * (p.1 - q.1) = 0 := by
      have hzerop := hdiff p hp
      have hzeroq := hdiff q hq
      linarith
    exact (mul_eq_zero.mp hmul).resolve_right (sub_ne_zero.mpr hne)
  have hconst : (other - line).1 = 0 := by
    have hzerop := hdiff p hp
    rwa [hslope, zero_mul, add_zero] at hzerop
  exact sub_eq_zero.mp (Prod.ext hconst hslope)

/-- The best line stays the best one if and only if the residuals of the new points are balanced. -/
theorem isBest_append_iff (h : IsBest line data) :
    IsBest line (data ++ data') ↔ NormalEquations line data' := by
  rw [isBest_iff, normalEquations_append (isBest_iff.mp h)]

/-! ### A best line -/

/-- A best line, by the rule of Cramer. It is horizontal if all points stand above each other. -/
def fitLine (data : List (K × K)) : K × K :=
  let n : K := data.length
  let su := (data.map fun p => p.1).sum
  let sc := (data.map fun p => p.2).sum
  let suu := (data.map fun p => p.1 ^ 2).sum
  let suc := (data.map fun p => p.1 * p.2).sum
  let slope := (n * suc - su * sc) / (n * suu - su ^ 2)
  ((sc - slope * su) / n, slope)

/-- If the determinant is zero the points stand above each other. -/
theorem mul_eq_of_det_eq_zero
    (hdet : data.length * (data.map fun p => p.1 ^ 2).sum - (data.map fun p => p.1).sum ^ 2 = 0)
    (hp : p ∈ data) : (data.length : K) * p.1 = (data.map fun p => p.1).sum := by
  have hsum := sum_sub_sq (data.length : K) (data.map fun p => p.1).sum data
  have hzero : (data.map fun p => ((data.length : K) * p.1 - (data.map fun p => p.1).sum) ^ 2).sum
      = 0 := by
    rw [hsum]
    linear_combination (data.length : K) * hdet
  exact sub_eq_zero.mp (eq_zero_of_sum_sq_eq_zero hzero p hp)

theorem normalEquations_fitLine (data : List (K × K)) : NormalEquations (fitLine data) data := by
  by_cases hnil : data = []
  · rw [hnil]
    exact ⟨rfl, rfl⟩
  have hn : (data.length : K) ≠ 0 := Nat.cast_ne_zero.mpr (List.length_pos_of_ne_nil hnil).ne'
  constructor
  · rw [sum_residualOf, fitLine]
    field_simp
    ring
  · rw [sum_residualOf_mul]
    by_cases hdet :
        data.length * (data.map fun p => p.1 ^ 2).sum - (data.map fun p => p.1).sum ^ 2 = 0
    · have hprod : data.length * (data.map fun p => p.1 * p.2).sum
          = (data.map fun p => p.1).sum * (data.map fun p => p.2).sum := by
        rw [← List.sum_map_mul_left, ← List.sum_map_mul_left]
        refine congrArg List.sum (List.map_congr_left fun p hp => ?_)
        rw [← mul_assoc, mul_eq_of_det_eq_zero hdet hp]
      simp only [fitLine, hdet, div_zero, zero_mul, sub_zero, add_zero]
      field_simp
      linear_combination -hprod
    · simp only [fitLine]
      field_simp
      ring

theorem isBest_fitLine (data : List (K × K)) : IsBest (fitLine data) data :=
  isBest_iff.mpr (normalEquations_fitLine data)

/-! ### How steep it is -/

/-- Chebyshev's inequality for two functions that go up along the data. -/
theorem sum_mul_sum_le {f g : K × K → K} (hf : data.Pairwise fun p q => f p ≤ f q)
    (hg : data.Pairwise fun p q => g p ≤ g q) :
    (data.map f).sum * (data.map g).sum ≤ data.length * (data.map fun p => f p * g p).sum := by
  have hmono {h : K × K → K} (hh : data.Pairwise fun p q => h p ≤ h q) :
      Monotone fun i : Fin data.length => h data[i] :=
    monotone_iff_forall_lt.mpr fun i j hij => List.pairwise_iff_getElem.mp hh i j i.2 j.2 hij
  have hsum := ((hmono hf).monovary (hmono hg)).sum_mul_sum_le_card_mul_sum
  simpa only [Fin.getElem_fin, Fin.sum_univ_fun_getElem, Fintype.card_fin,
    Fin.sum_univ_fun_getElem data fun p => f p * g p] using hsum

/-- The determinant is not zero if not all points stand above each other. -/
theorem det_pos (hsorted : data.Pairwise fun p q => p.1 ≤ q.1) (hp : p ∈ data) (hq : q ∈ data)
    (hne : p.1 ≠ q.1) :
    0 < data.length * (data.map fun p => p.1 ^ 2).sum - (data.map fun p => p.1).sum ^ 2 := by
  have hnonneg := sum_mul_sum_le hsorted hsorted
  simp only [← sq] at hnonneg
  refine lt_of_le_of_ne (sub_nonneg.mpr hnonneg) fun hdet => hne ?_
  have hn : (data.length : K) ≠ 0 := Nat.cast_ne_zero.mpr (List.length_pos_of_mem hp).ne'
  refine mul_left_cancel₀ hn ?_
  rw [mul_eq_of_det_eq_zero hdet.symm hp, mul_eq_of_det_eq_zero hdet.symm hq]

/-- **The best line is no steeper than the points are.** If the points go to the right, and up by at
most `c` for each step to the right, the slope of their best line is at most `c`. -/
theorem IsBest.slope_le {c : K} (h : IsBest line data)
    (hsorted : data.Pairwise fun p q => p.1 ≤ q.1)
    (hsteep : data.Pairwise fun p q => q.2 - p.2 ≤ c * (q.1 - p.1)) (hp : p ∈ data)
    (hq : q ∈ data) (hne : p.1 ≠ q.1) : line.2 ≤ c := by
  obtain ⟨hsum, hmoment⟩ := isBest_iff.mp h
  rw [sum_residualOf] at hsum
  rw [sum_residualOf_mul] at hmoment
  have hdet := det_pos hsorted hp hq hne
  -- The residuals from the line of slope `c` through the origin go up as well.
  have habove : data.Pairwise fun p q => residualOf (0, c) p ≤ residualOf (0, c) q := by
    refine hsteep.imp fun {p q} hle => ?_
    rw [residualOf, residualOf]
    linarith
  have hcheb := sum_mul_sum_le habove hsorted
  rw [sum_residualOf, sum_residualOf_mul] at hcheb
  refine le_of_mul_le_mul_right ?_ hdet
  linear_combination hcheb + data.length * hmoment - (data.map fun p => p.1).sum * hsum

end Ordered

end LeastSquares
