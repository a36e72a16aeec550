import DnsTools.Analyser.Completes
import DnsTools.Lib.LeastSquares
import Mathlib.Algebra.Order.Archimedean.Basic

/-!
# The window of a fit

`calculate_fit` selects the messages in the window, each with its number, and then overwrites the
two arrays that it has made of them with all messages. So it fits the line to all of them, and
whatever is outside of the window takes part.

The window is not without any effect. `zip(*points)` of an empty list cannot be unpacked, so a
window without a message in it raises; with a message in it, the window is forgotten.

## What `leastsq` is

`leastsq` minimises the sum of the squares of the residuals, starting from `x0`. It is a parameter,
and `Leastsq.Exact` is what is assumed of it here: for two parameters and two entries of data or
more it returns, and no line has a smaller sum than what it returns. Nothing is assumed about which
of several best lines it is, so where all messages have one time, and the best lines are many, the
proofs have to do without it. `lineSolver` shows that the assumption can be met: it computes the
best line from the residuals of two lines, as these are linear in the parameters.

## When the window does restrict

By the normal equations a line is best if and only if its residuals, and their products with the
times, sum to zero. The line fitted to the window has balanced residuals there. So it is the best
line for all messages exactly if its residuals outside are balanced as well, which is a condition on
the messages and the window alone: `BalancedOutside`. It is met if nothing is outside, or if what is
outside lies on the line, and hardly ever otherwise.

That two lists agree in the window does not help. The second part of `windowRestricts_iff` says that
any list, however balanced, gets another line when one more message comes late enough: if it did
not, the line would have to pass through that message whenever it comes, so it would be horizontal
at the height of the last message, above all the others, and that is not the best line.

## Main results

* `Grinder.fitsWindow_iff` — exactly when the line is that through the messages in the window
* `Grinder.exists_fit_ne` — one more message outside of the window changes the line
* `Grinder.windowRestricts_iff` — and when two lists that agree in the window get the same line
-/

namespace DnsTools

namespace Grinder

open Python LeastSquares

/-! ### What `leastsq` minimises -/

/-- The sum of the squares of the residuals. -/
def sumOfSquares (residual : List ℚ → ℤ → ℕ → ℚ) (x : List ℚ) (timestamps : List ℤ)
    (counts : List ℕ) : ℚ :=
  ((timestamps.zip counts).map fun point => residual x point.1 point.2 ^ 2).sum

/-- `leastsq` finds a line with the least sum of squares through two points or more. -/
structure Leastsq.Exact (leastsq : Leastsq) : Prop where
  /-- It takes the two parameters of a line. -/
  takes : ∀ entries, 2 ≤ entries → leastsq.takes 2 entries = true
  /-- No line has a smaller sum of squares. -/
  least : ∀ start x₀ timestamps counts, x₀.length = 2 → 2 ≤ timestamps.length →
    timestamps.length = counts.length → ∀ x : List ℚ, x.length = 2 →
      sumOfSquares (linearCountResiduals start)
          (leastsq.run (linearCountResiduals start) x₀ timestamps counts) timestamps counts ≤
        sumOfSquares (linearCountResiduals start) x timestamps counts

/-- The messages, each with its number. -/
def numbered (timestamps : List ℤ) : List (ℤ × ℕ) :=
  timestamps.zipIdx.map fun (timestamp, i) => (timestamp, i + 1)

/-- The messages that are not in the window. -/
def pointsOutside (timestamps : List ℤ) (start : ℤ) (window : ℚ × ℚ) : List (ℤ × ℕ) :=
  (numbered timestamps).filter fun point =>
    ¬(window.1 ≤ (point.1 - start : ℤ) ∧ ((point.1 - start : ℤ) : ℚ) ≤ window.2)

/-- `x0`. -/
def startParams (params : List (List ℚ)) : List ℚ := params.getD 1 [0, 1]

/-- The fit of the messages in the window. -/
def windowFit (leastsq : Leastsq) (timestamps : List ℤ) (start : ℤ) (window : ℚ × ℚ)
    (x₀ : List ℚ) : List ℚ :=
  leastsq.run (linearCountResiduals start) x₀ ((fitPointsIn timestamps start window).map Prod.fst)
    ((fitPointsIn timestamps start window).map Prod.snd)

/-- The residuals of some messages sum to zero, and so do their products with the times. -/
def Balanced (start : ℤ) (x : List ℚ) (points : List (ℤ × ℕ)) : Prop :=
  (points.map fun point => linearCountResiduals start x point.1 point.2).sum = 0 ∧
    (points.map fun point =>
      linearCountResiduals start x point.1 point.2 * (point.1 - start : ℤ)).sum = 0

/-- What is outside of the window does not matter to the line fitted to the window. -/
def BalancedOutside (leastsq : Leastsq) (timestamps : List ℤ) (start : ℤ) (left right : ℚ)
    (rest : List (List ℚ)) : Prop :=
  Balanced start (windowFit leastsq timestamps start (left, right)
    (startParams ([left, right] :: rest))) (pointsOutside timestamps start (left, right))

/-- The window restricts the fit: it is that of the messages in the window, and what another list
has outside of it makes no difference. -/
structure WindowRestricts (leastsq : Leastsq) (timestamps timestamps' : List ℤ) (start : ℤ)
    (left right : ℚ) (rest : List (List ℚ)) : Prop where
  /-- The messages in the window. -/
  fits : calculateFit leastsq timestamps start ([left, right] :: rest)
    = .ok (windowFit leastsq timestamps start (left, right) (startParams ([left, right] :: rest)))
  /-- The other list. -/
  agrees : calculateFit leastsq timestamps' start ([left, right] :: rest)
    = calculateFit leastsq timestamps start ([left, right] :: rest)

/-! ### Lines -/

/-- The line of two parameters. -/
def asLine (x : List ℚ) : ℚ × ℚ := (x.getD 0 0, x.getD 1 0)

/-- The messages as points of the plane, in seconds. -/
def asData (start : ℤ) (points : List (ℤ × ℕ)) : List (ℚ × ℚ) :=
  points.map fun point => (((point.1 - start : ℤ) : ℚ) / nanoseconds, (point.2 : ℚ))

variable {leastsq : Leastsq} {timestamps timestamps' : List ℤ} {start t : ℤ} {left right : ℚ}
  {window : ℚ × ℚ} {x x' x₀ : List ℚ} {rest : List (List ℚ)} {points : List (ℤ × ℕ)}

theorem asLine_injective (hx : x.length = 2) (hx' : x'.length = 2) (h : asLine x = asLine x') :
    x = x' := by
  obtain ⟨a, b, rfl⟩ := List.length_eq_two.mp hx
  obtain ⟨c, d, rfl⟩ := List.length_eq_two.mp hx'
  obtain ⟨rfl, rfl⟩ := Prod.mk.inj h
  rfl

theorem nanoseconds_ne_zero : (nanoseconds : ℚ) ≠ 0 := by norm_num [nanoseconds]

theorem seconds_injective {t t' : ℤ}
    (h : ((t - start : ℤ) : ℚ) / nanoseconds = ((t' - start : ℤ) : ℚ) / nanoseconds) : t = t' := by
  rw [div_left_inj' nanoseconds_ne_zero, Int.cast_inj] at h
  omega

theorem linearCountResiduals_eq (start : ℤ) (x : List ℚ) (point : ℤ × ℕ) :
    linearCountResiduals start x point.1 point.2
      = residualOf (asLine x) (((point.1 - start : ℤ) : ℚ) / nanoseconds, (point.2 : ℚ)) := by
  rw [linearCountResiduals, linearCount, residualOf, mul_div_assoc]
  rfl

theorem sumOfSquares_eq (start : ℤ) (x : List ℚ) (points : List (ℤ × ℕ)) :
    sumOfSquares (linearCountResiduals start) x (points.map Prod.fst) (points.map Prod.snd)
      = sumSquares (asLine x) (asData start points) := by
  rw [sumOfSquares, ← List.zip_of_prod rfl rfl, sumSquares, asData, List.map_map]
  refine congrArg List.sum (List.map_congr_left fun point _ => ?_)
  rw [linearCountResiduals_eq]
  rfl

theorem balanced_iff : Balanced start x points ↔
    NormalEquations (asLine x) (asData start points) := by
  have hns := nanoseconds_ne_zero
  have hsum : (points.map fun point => linearCountResiduals start x point.1 point.2).sum
      = ((asData start points).map (residualOf (asLine x))).sum := by
    rw [asData, List.map_map]
    exact congrArg List.sum
      (List.map_congr_left fun point _ => linearCountResiduals_eq start x point)
  have hmoment : (points.map fun point =>
      linearCountResiduals start x point.1 point.2 * (point.1 - start : ℤ)).sum
      = nanoseconds * ((asData start points).map fun p => residualOf (asLine x) p * p.1).sum := by
    rw [asData, List.map_map, ← List.sum_map_mul_left]
    refine congrArg List.sum (List.map_congr_left fun point _ => ?_)
    rw [linearCountResiduals_eq, Function.comp_apply]
    field_simp
  rw [Balanced, hsum, hmoment, mul_eq_zero, or_iff_right hns]
  exact ⟨fun ⟨hs, hm⟩ => ⟨hs, hm⟩, fun ⟨hs, hm⟩ => ⟨hs, hm⟩⟩

/-- `leastsq` finds the best line. -/
theorem Leastsq.Exact.isBest (h : leastsq.Exact) (start : ℤ) (points : List (ℤ × ℕ))
    (hx₀ : x₀.length = 2) (hpoints : 2 ≤ points.length) :
    IsBest (asLine (leastsq.run (linearCountResiduals start) x₀ (points.map Prod.fst)
      (points.map Prod.snd))) (asData start points) := by
  intro other
  have hle := h.least start x₀ (points.map Prod.fst) (points.map Prod.snd) hx₀
    (by simpa using hpoints)
    (by simp) [other.1, other.2] rfl
  rwa [sumOfSquares_eq, sumOfSquares_eq] at hle

/-! ### The messages -/

theorem fitPointsIn_eq (timestamps : List ℤ) (start : ℤ) (window : ℚ × ℚ) :
    fitPointsIn timestamps start window = (numbered timestamps).filter fun point =>
      window.1 ≤ (point.1 - start : ℤ) ∧ ((point.1 - start : ℤ) : ℚ) ≤ window.2 := rfl

/-- A message is in the window or outside. -/
theorem perm_numbered (timestamps : List ℤ) (start : ℤ) (window : ℚ × ℚ) :
    (fitPointsIn timestamps start window ++ pointsOutside timestamps start window).Perm
      (numbered timestamps) := by
  have h := List.filter_append_perm (fun point : ℤ × ℕ =>
    decide (window.1 ≤ (point.1 - start : ℤ) ∧ ((point.1 - start : ℤ) : ℚ) ≤ window.2))
    (numbered timestamps)
  simp only [← decide_not] at h
  exact h

theorem length_fitPointsIn_le (timestamps : List ℤ) (start : ℤ) (window : ℚ × ℚ) :
    (fitPointsIn timestamps start window).length ≤ (numbered timestamps).length :=
  List.length_filter_le _ _

theorem numbered_fst (timestamps : List ℤ) : (numbered timestamps).map Prod.fst = timestamps := by
  rw [numbered, List.map_map]
  exact List.zipIdx_map_fst 0 timestamps

theorem numbered_snd (timestamps : List ℤ) :
    (numbered timestamps).map Prod.snd = (List.range timestamps.length).map (· + 1) := by
  have hcomp : Prod.snd ∘ (fun (timestamp, i) => (timestamp, i + 1) : ℤ × ℕ → ℤ × ℕ)
      = (· + 1) ∘ Prod.snd := rfl
  rw [numbered, List.map_map, hcomp, ← List.map_map, List.zipIdx_map_snd, List.range_eq_range']

theorem length_numbered (timestamps : List ℤ) :
    (numbered timestamps).length = timestamps.length := by
  rw [numbered, List.length_map, List.length_zipIdx]

/-- `calculate_fit` fits all messages. -/
theorem calculateFit_eq (rest : List (List ℚ))
    (htakes : leastsq.takes (startParams ([left, right] :: rest)).length timestamps.length = true)
    (hin : fitPointsIn timestamps start (left, right) ≠ []) :
    calculateFit leastsq timestamps start ([left, right] :: rest)
      = .ok (leastsq.run (linearCountResiduals start) (startParams ([left, right] :: rest))
          ((numbered timestamps).map Prod.fst) ((numbered timestamps).map Prod.snd)) := by
  rw [numbered_fst, numbered_snd, calculateFit, fitWindow, unpack, ok_bind, unzip,
    List.isEmpty_eq_false_iff.mpr hin]
  exact if_pos htakes

/-! ### One list -/

/-- If all messages are at one time, they are all in the window of some of them. -/
theorem fitPointsIn_eq_numbered (hne : fitPointsIn timestamps start window ≠ [])
    (hsame : ∀ p ∈ numbered timestamps, ∀ q ∈ numbered timestamps, p.1 = q.1) :
    fitPointsIn timestamps start window = numbered timestamps := by
  obtain ⟨p, hp⟩ := List.exists_mem_of_ne_nil _ hne
  rw [fitPointsIn_eq, List.mem_filter, decide_eq_true_eq] at hp
  rw [fitPointsIn_eq, List.filter_eq_self]
  intro q hq
  rw [decide_eq_true_eq, hsame q hq p hp.1]
  exact hp.2

/-- The result is the fit of the messages in the window if and only if those outside of it do not
matter: their residuals, from the line fitted to the window, are balanced. -/
theorem fitsWindow_iff (hexact : leastsq.Exact)
    (hx₀ : (startParams ([left, right] :: rest)).length = 2)
    (hin : 2 ≤ (fitPointsIn timestamps start (left, right)).length) :
    calculateFit leastsq timestamps start ([left, right] :: rest)
        = .ok (windowFit leastsq timestamps start (left, right)
          (startParams ([left, right] :: rest))) ↔
      Balanced start (windowFit leastsq timestamps start (left, right)
        (startParams ([left, right] :: rest))) (pointsOutside timestamps start (left, right)) := by
  have hne : fitPointsIn timestamps start (left, right) ≠ [] :=
    List.ne_nil_of_length_pos (by omega)
  have hperm := perm_numbered timestamps start (left, right)
  have hlength := hin.trans (length_fitPointsIn_le timestamps start (left, right))
  have htakes := hexact.takes timestamps.length (length_numbered timestamps ▸ hlength)
  rw [← hx₀] at htakes
  rw [calculateFit_eq rest htakes hne, Except.ok.injEq, balanced_iff, windowFit]
  generalize startParams ([left, right] :: rest) = x₀ at *
  have hwindow := hexact.isBest start _ hx₀ hin
  have hall := hexact.isBest start _ hx₀ hlength
  rw [← isBest_append_iff hwindow]
  have hdata : (asData start (fitPointsIn timestamps start (left, right)) ++
      asData start (pointsOutside timestamps start (left, right))).Perm
        (asData start (numbered timestamps)) := by
    rw [asData, asData, ← List.map_append]
    exact hperm.map _
  rw [isBest_perm hdata]
  constructor
  · intro heq
    rwa [heq] at hall
  · intro hwindow'
    by_cases hsame : ∀ p ∈ numbered timestamps, ∀ q ∈ numbered timestamps, p.1 = q.1
    · rw [fitPointsIn_eq_numbered hne hsame]
    · simp only [not_forall] at hsame
      obtain ⟨p, hp, q, hq, hpq⟩ := hsame
      refine asLine_injective ?_ ?_ (hwindow'.eq hall (List.mem_map_of_mem hp)
        (List.mem_map_of_mem hq) ?_)
      · rw [leastsq.length_run, hx₀]
      · rw [leastsq.length_run, hx₀]
      · exact fun hseconds => hpq (seconds_injective hseconds)

/-! ### Two lists -/

theorem numbered_concat (timestamps : List ℤ) (t : ℤ) :
    numbered (timestamps ++ [t]) = numbered timestamps ++ [(t, timestamps.length + 1)] := by
  rw [numbered, List.zipIdx_append, List.map_append, numbered, List.zipIdx_singleton,
    List.map_singleton, Nat.zero_add]

theorem fitPointsIn_concat (ht : right < (t - start : ℤ)) :
    fitPointsIn (timestamps ++ [t]) start (left, right)
      = fitPointsIn timestamps start (left, right) := by
  rw [fitPointsIn_eq, numbered_concat, List.filter_append, List.filter_cons_of_neg, List.filter_nil,
    List.append_nil, fitPointsIn_eq]
  rw [decide_eq_true_eq]
  exact fun h => ht.not_ge h.2

theorem le_length_of_mem_numbered {point : ℤ × ℕ} (h : point ∈ numbered timestamps) :
    point.2 ≤ timestamps.length := by
  obtain ⟨⟨t, i⟩, hi, rfl⟩ := List.mem_map.mp h
  obtain ⟨hlt, -⟩ := List.getElem?_eq_some_iff.mp (List.mem_zipIdx_iff_getElem?.mp hi)
  exact hlt

/-- One more message leaves the fit as it is only if it lies on the line. -/
theorem residual_eq_zero_of_fit_eq (point : ℤ × ℕ) (hexact : leastsq.Exact) (hx₀ : x₀.length = 2)
    (hpoints : 2 ≤ points.length)
    (hx : leastsq.run (linearCountResiduals start) x₀ (points.map Prod.fst)
      (points.map Prod.snd) = x)
    (hx' : leastsq.run (linearCountResiduals start) x₀ ((points ++ [point]).map Prod.fst)
      ((points ++ [point]).map Prod.snd) = x) :
    linearCountResiduals start x point.1 point.2 = 0 := by
  have hbest := hexact.isBest start points hx₀ hpoints
  have hbest' := hexact.isBest start (points ++ [point]) hx₀ (by simp; omega)
  rw [hx] at hbest
  rw [hx', asData, List.map_append] at hbest'
  have hsum := ((isBest_append_iff hbest).mp hbest').sum
  rw [linearCountResiduals_eq]
  simpa using hsum

/-- There is a time behind all messages and behind the window. -/
theorem exists_late (timestamps : List ℤ) (start : ℤ) (right : ℚ) :
    ∃ t, (∀ s ∈ timestamps, s ≤ t) ∧ right < (t - start : ℤ) := by
  induction timestamps with
  | nil =>
    obtain ⟨n, hn⟩ := exists_int_gt right
    exact ⟨n + start, List.forall_mem_nil _, by rwa [Int.add_sub_cancel]⟩
  | cons s timestamps ih =>
    obtain ⟨t, hle, hlt⟩ := ih
    refine ⟨Max.max s t, List.forall_mem_cons.mpr ⟨le_max_left _ _, fun u hu => ?_⟩, ?_⟩
    · exact (hle u hu).trans (le_max_right _ _)
    · refine hlt.trans_le (Int.cast_le.mpr ?_)
      exact Int.sub_le_sub_right (le_max_right _ _) _

/-- A line that has the same height at two times is horizontal. -/
theorem horizontal_of_residuals {n : ℕ} (h : linearCountResiduals start x t n = 0)
    (h' : linearCountResiduals start x (t + 1) n = 0) : x.getD 1 0 = 0 ∧ x.getD 0 0 = n := by
  simp only [linearCountResiduals, linearCount] at h h'
  have hslope : x.getD 1 0 = 0 := by
    have hdiv : x.getD 1 0 / nanoseconds = 0 := by
      push_cast at h h'
      linear_combination h' - h
    exact (div_eq_zero_iff.mp hdiv).resolve_right nanoseconds_ne_zero
  refine ⟨hslope, ?_⟩
  rw [hslope, zero_mul, zero_div, add_zero, sub_eq_zero] at h
  exact h

/-- A horizontal line above all messages is not the best one. -/
theorem not_isBest_above (hne : numbered timestamps ≠ []) (hslope : x.getD 1 0 = 0)
    (hconst : x.getD 0 0 = (timestamps.length + 1 : ℕ)) :
    ¬IsBest (asLine x) (asData start (numbered timestamps)) := by
  intro hbest
  have hsum := (balanced_iff.mpr (isBest_iff.mp hbest)).1
  refine absurd hsum (List.sum_pos _ ?_ ?_).ne'
  · intro r hr
    obtain ⟨point, hpoint, rfl⟩ := List.mem_map.mp hr
    have hle := le_length_of_mem_numbered hpoint
    rw [linearCountResiduals, linearCount, hslope, hconst, zero_mul, zero_div, add_zero, sub_pos,
      Nat.cast_lt]
    omega
  · exact fun hnil => hne (List.map_eq_nil_iff.mp hnil)

/-- Whatever the messages are, there is a later one outside of the window that changes the fit. -/
theorem exists_fit_ne (hexact : leastsq.Exact)
    (hx₀ : (startParams ([left, right] :: rest)).length = 2)
    (hin : 2 ≤ (fitPointsIn timestamps start (left, right)).length)
    (hsorted : timestamps.Pairwise (· ≤ ·)) :
    ∃ t, (timestamps ++ [t]).Pairwise (· ≤ ·) ∧
      fitPointsIn (timestamps ++ [t]) start (left, right)
        = fitPointsIn timestamps start (left, right) ∧
      calculateFit leastsq (timestamps ++ [t]) start ([left, right] :: rest)
        ≠ calculateFit leastsq timestamps start ([left, right] :: rest) := by
  have hne : fitPointsIn timestamps start (left, right) ≠ [] :=
    List.ne_nil_of_length_pos (by omega)
  have hlength := hin.trans (length_fitPointsIn_le timestamps start (left, right))
  obtain ⟨late, hlate, hright⟩ := exists_late timestamps start right
  by_contra hsame
  simp only [not_exists, not_and, not_not] at hsame
  have hbest := hexact.isBest start (numbered timestamps) hx₀ hlength
  generalize hx : leastsq.run (linearCountResiduals start) (startParams ([left, right] :: rest))
    ((numbered timestamps).map Prod.fst) ((numbered timestamps).map Prod.snd) = x at hbest
  -- The line goes through the next message at whatever late time it comes.
  have hzero (t : ℤ) (ht : late ≤ t) :
      linearCountResiduals start x t (timestamps.length + 1) = 0 := by
    have hpairwise : (timestamps ++ [t]).Pairwise (· ≤ ·) := by
      refine List.pairwise_append.mpr ⟨hsorted, List.pairwise_singleton _ _, ?_⟩
      intro s hs u hu
      obtain rfl := List.mem_singleton.mp hu
      exact (hlate s hs).trans ht
    have hinside : fitPointsIn (timestamps ++ [t]) start (left, right)
        = fitPointsIn timestamps start (left, right) :=
      fitPointsIn_concat (hright.trans_le (Int.cast_le.mpr (Int.sub_le_sub_right ht _)))
    have heq := hsame t hpairwise hinside
    have htakes := hexact.takes timestamps.length (length_numbered timestamps ▸ hlength)
    have htakes' := hexact.takes (timestamps ++ [t]).length
      (by rw [List.length_append, ← length_numbered]; omega)
    rw [← hx₀] at htakes htakes'
    rw [calculateFit_eq rest htakes hne, calculateFit_eq rest htakes' (hinside ▸ hne),
      numbered_concat, Except.ok.injEq] at heq
    exact residual_eq_zero_of_fit_eq (t, timestamps.length + 1) hexact hx₀ hlength hx (heq.trans hx)
  -- So it is horizontal, above all messages.
  obtain ⟨hslope, hconst⟩ := horizontal_of_residuals (hzero late le_rfl)
    (hzero (late + 1) (Int.le_add_one le_rfl))
  exact not_isBest_above (List.ne_nil_of_length_pos (Nat.zero_lt_of_lt hlength)) hslope hconst hbest

/-- **Exactly when a window restricts the fit.** For two lists that agree in the window the result
is the fit of the messages in it, for both of them, if and only if in both lists the messages
outside of the window are balanced; and every list gets another result with one more message
outside of the window. -/
theorem windowRestricts_iff (hexact : leastsq.Exact)
    (hx₀ : (startParams ([left, right] :: rest)).length = 2)
    (hin : 2 ≤ (fitPointsIn timestamps start (left, right)).length)
    (hsorted : timestamps.Pairwise (· ≤ ·))
    (hagree : fitPointsIn timestamps' start (left, right)
      = fitPointsIn timestamps start (left, right)) :
    (WindowRestricts leastsq timestamps timestamps' start left right rest ↔
      BalancedOutside leastsq timestamps start left right rest ∧
        BalancedOutside leastsq timestamps' start left right rest) ∧
      ∃ t, (timestamps ++ [t]).Pairwise (· ≤ ·) ∧
        fitPointsIn (timestamps ++ [t]) start (left, right)
          = fitPointsIn timestamps start (left, right) ∧
        ¬WindowRestricts leastsq timestamps (timestamps ++ [t]) start left right rest := by
  have hfits := fitsWindow_iff hexact hx₀ hin
  have hfits' := fitsWindow_iff hexact hx₀ (hagree ▸ hin)
  have hsame : windowFit leastsq timestamps' start (left, right)
        (startParams ([left, right] :: rest))
      = windowFit leastsq timestamps start (left, right)
        (startParams ([left, right] :: rest)) := by
    rw [windowFit, hagree, windowFit]
  constructor
  · rw [BalancedOutside, BalancedOutside, ← hfits, ← hfits', hsame]
    exact ⟨fun h => ⟨h.fits, h.agrees.trans h.fits⟩, fun ⟨h, h'⟩ => ⟨h, h'.trans h.symm⟩⟩
  · obtain ⟨t, hpairwise, hinside, hne⟩ := exists_fit_ne hexact hx₀ hin hsorted
    exact ⟨t, hpairwise, hinside, fun h => hne h.agrees⟩

/-! ### An exact solver -/

/-- `leastsq` for residuals that are linear in two parameters, the first of which is a constant. -/
def lineSolver : Leastsq where
  takes parameters entries := decide (parameters ≤ entries)
  run residual x₀ timestamps counts :=
    if x₀.length = 2 then
      let line := fitLine ((timestamps.zip counts).map fun (timestamp, count) =>
        (residual [0, 1] timestamp count - residual [0, 0] timestamp count,
          -residual [0, 0] timestamp count))
      [line.1, line.2]
    else x₀
  length_run residual x₀ timestamps counts := by
    split_ifs with h
    · exact h.symm
    · rfl

theorem lineSolver_documented : lineSolver.Documented := fun _ _ => rfl

theorem lineSolver_exact : lineSolver.Exact := by
  refine ⟨fun entries h => decide_eq_true h, ?_⟩
  intro start x₀ timestamps counts hx₀ hlength heq x hx
  obtain ⟨points, rfl, rfl⟩ : ∃ points : List (ℤ × ℕ),
      timestamps = points.map Prod.fst ∧ counts = points.map Prod.snd :=
    ⟨timestamps.zip counts, (List.map_fst_zip heq.le).symm, (List.map_snd_zip heq.ge).symm⟩
  have hdata : ((points.map Prod.fst).zip (points.map Prod.snd)).map (fun (timestamp, count) =>
      (linearCountResiduals start [0, 1] timestamp count -
        linearCountResiduals start [0, 0] timestamp count,
          -linearCountResiduals start [0, 0] timestamp count)) = asData start points := by
    rw [← List.zip_of_prod rfl rfl, asData]
    refine List.map_congr_left fun point _ => ?_
    simp [linearCountResiduals, linearCount]
  rw [sumOfSquares_eq, sumOfSquares_eq, lineSolver]
  simp only [if_pos hx₀, hdata]
  exact isBest_fitLine (asData start points) (asLine x)

/-- Two messages. -/
def twoMessages : List ℤ := [0, 1000000000]

/-- The same with a third one outside of the window that ends at the second. -/
def threeMessages : List ℤ := [0, 1000000000, 5000000000]

theorem windowRestricts_iff_two :
    (WindowRestricts lineSolver twoMessages threeMessages 0 0 1000000000 [] ↔
      BalancedOutside lineSolver twoMessages 0 0 1000000000 [] ∧
        BalancedOutside lineSolver threeMessages 0 0 1000000000 []) ∧
      ∃ t, (twoMessages ++ [t]).Pairwise (· ≤ ·) ∧
        fitPointsIn (twoMessages ++ [t]) 0 (0, 1000000000)
          = fitPointsIn twoMessages 0 (0, 1000000000) ∧
        ¬WindowRestricts lineSolver twoMessages (twoMessages ++ [t]) 0 0 1000000000 [] :=
  windowRestricts_iff lineSolver_exact rfl (by decide) (by decide) (by decide)

/-- The third message changes the line. -/
theorem threeMessages_not_restricted : lineSolver.Exact ∧
    fitPointsIn threeMessages 0 (0, 1000000000) = fitPointsIn twoMessages 0 (0, 1000000000) ∧
    ¬WindowRestricts lineSolver twoMessages threeMessages 0 0 1000000000 [] := by
  refine ⟨lineSolver_exact, by decide, fun h => ?_⟩
  have htwo : calculateFit lineSolver twoMessages 0 [[0, 1000000000]] = .ok [1, 1] := by
    decide +kernel
  have hthree : calculateFit lineSolver threeMessages 0 [[0, 1000000000]]
      = .ok [9 / 7, 5 / 14] := by
    decide +kernel
  have hagrees := h.agrees
  rw [htwo, hthree] at hagrees
  exact absurd (Except.ok.inj hagrees) (by norm_num)

end Grinder

end DnsTools
