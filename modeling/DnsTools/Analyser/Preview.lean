import DnsTools.Analyser.Completes

/-!
# The next limit

`preview.py` prints the next limit of a binary search, rounded to two digits. `rate_round` divides
by ten until it is at most a hundred, and so every rate is a value up to a hundred times a power of
ten (`Decade`). A rounded value may be a hundred times a power of ten, or ten times one, which is
the same value a decade below.

## Main results

* `Preview.rateRound_eq` — what `rate_round` makes of a rate in its decade
* `Preview.rateRound_sound` — it is accurate, monotone and idempotent, and the next limit stays
  within the bracket
-/

namespace DnsTools

namespace Preview

open Python

/-- A division by ten makes a rate smaller that is greater than a hundred. -/
theorem floor_div_ten_lt {r : ℚ} (h : 100 < r) : ⌊r / 10⌋.toNat < ⌊r⌋.toNat := by
  have hle : (⌊r / 10⌋ : ℚ) ≤ r / 10 := Int.floor_le _
  have hlt : r < ⌊r⌋ + 1 := Int.lt_floor_add_one r
  have hfloor : ⌊r / 10⌋ < ⌊r⌋ := by
    rw [← Int.cast_lt (R := ℚ)]
    linarith
  have hpos : 0 < ⌊r⌋ := Int.floor_pos.mpr (by linarith)
  omega

/-- The loop of `rate_round`. -/
def divide (r : ℚ) (i : ℕ) : ℚ × ℕ := if 100 < r then divide (r / 10) (i + 1) else (r, i)
termination_by ⌊r⌋.toNat
decreasing_by exact floor_div_ten_lt ‹_›

/-- `rate_round`. -/
def rateRound (r : ℚ) : ℤ :=
  let (r, i) := divide r 0
  int (Python.round r * 10 ^ i)

/-- What `main` prints. -/
structure Output where
  /-- `rate`. -/
  rate : ℤ
  /-- `lost`. -/
  lost : ℤ
  /-- `next`. -/
  next : ℤ
deriving DecidableEq, Repr

/-- `next_rate`. -/
def nextRate (rate : ℚ) (lost low high test : ℤ) : ℚ :=
  let high : ℚ := if high < 0 then rate else high
  let prevRate : ℚ := if 0 < lost then low else high
  1 / 2 * (prevRate + test)

/-- `jload`, which raises an exception for a text that is not that of a report. -/
def load (text : List Char) : Py Analyser.Data :=
  match Analyser.jload text with
  | some data => .ok data
  | none => .error .valueError

/-- `main`, for the text of the file. Its `calculate_fit` is that of `grinder.py`. -/
def main (leastsq : Grinder.Leastsq) (text : List Char) (low high test : ℤ) : Py Output := do
  let data ← load text
  let first ← index data.sends 0
  let x ← Grinder.calculateFit leastsq data.sends first []
  let rate ← index x 1
  let lost : ℤ := data.sends.length - data.receives.length
  return { rate := rateRound rate, lost, next := rateRound (nextRate rate lost low high test) }

/-! ### Decades -/

/-- A rate is a value up to a hundred, and if it takes a power of ten more than ten, times that
power of ten. -/
structure Decade (r x : ℚ) (k : ℕ) : Prop where
  /-- The rate. -/
  eq : r = x * 10 ^ k
  /-- There are not too few digits in the power. -/
  le : x ≤ 100
  /-- And not too many. -/
  lt : k = 0 ∨ 10 < x

variable {r r' x x' : ℚ} {k k' : ℕ}

theorem exists_decade (r : ℚ) : ∃ x k, Decade r x k := by
  induction r, 0 using divide.induct with
  | case1 r i h ih =>
    obtain ⟨x, k, hdecade⟩ := ih
    refine ⟨x, k + 1, ?_, hdecade.le, Or.inr ?_⟩
    · rw [pow_succ, ← mul_assoc, ← hdecade.eq]
      ring
    · rcases hdecade.lt with rfl | hlt
      · have heq := hdecade.eq
        rw [pow_zero, mul_one] at heq
        linarith
      · exact hlt
  | case2 r i h => exact ⟨r, 0, by rw [pow_zero, mul_one], not_lt.mp h, Or.inl rfl⟩

/-- The loop finds the decade. -/
theorem divide_eq (hle : x ≤ 100) (hlt : k = 0 ∨ 10 < x) (i : ℕ) :
    divide (x * 10 ^ k) i = (x, i + k) := by
  induction k generalizing i with
  | zero => rw [pow_zero, mul_one, divide, if_neg hle.not_gt, Nat.add_zero]
  | succ k ih =>
    have hx : 10 < x := hlt.resolve_left k.succ_ne_zero
    have hpow : (1 : ℚ) ≤ 10 ^ k := one_le_pow₀ (by norm_num)
    have hgt : 100 < x * 10 ^ (k + 1) := by
      rw [pow_succ]
      nlinarith
    have hdiv : x * 10 ^ (k + 1) / 10 = x * 10 ^ k := by
      rw [pow_succ, ← mul_assoc, mul_div_cancel_right₀ _ (by norm_num)]
    rw [divide, if_pos hgt, hdiv, ih (Or.inr hx), Nat.add_right_comm, Nat.add_assoc]

theorem Decade.divide_eq (h : Decade r x k) : divide r 0 = (x, k) := by
  rw [h.eq, Preview.divide_eq h.le h.lt, Nat.zero_add]

/-- What `rate_round` makes of a rate. -/
theorem rateRound_eq (h : Decade r x k) : rateRound r = Python.round x * 10 ^ k := by
  rw [rateRound, h.divide_eq]
  have hcast : ((Python.round x : ℚ) * 10 ^ k) = (Python.round x * 10 ^ k : ℤ) := by push_cast; rfl
  show int ((Python.round x : ℚ) * 10 ^ k) = _
  rw [hcast, int_intCast]

/-- The value stays in its bounds when it is rounded. -/
theorem Decade.round_le (h : Decade r x k) : Python.round x ≤ 100 := by
  have hle := round_mono h.le
  rwa [show (100 : ℚ) = (100 : ℤ) by norm_num, round_intCast] at hle

theorem Decade.le_round (h : Decade r x k) (hk : k ≠ 0) : 10 ≤ Python.round x := by
  have hle := round_mono (h.lt.resolve_left hk).le
  rwa [show (10 : ℚ) = (10 : ℤ) by norm_num, round_intCast] at hle

/-- A greater rate is not in a lower decade. -/
theorem Decade.le_of_le (h : Decade r x k) (h' : Decade r' x' k') (hle : r ≤ r') : k ≤ k' := by
  by_contra hlt
  rw [not_le] at hlt
  have hx : 10 < x := h.lt.resolve_left (by omega)
  have hpow : (0 : ℚ) < 10 ^ k' := by positivity
  have hpow' : (10 : ℚ) * 10 ^ k' ≤ 10 ^ k := by
    rw [← pow_succ']
    exact pow_le_pow_right₀ (by norm_num) hlt
  have hx' := h'.le
  rw [h.eq, h'.eq] at hle
  nlinarith

theorem rateRound_mono (hle : r ≤ r') : rateRound r ≤ rateRound r' := by
  obtain ⟨x, k, h⟩ := exists_decade r
  obtain ⟨x', k', h'⟩ := exists_decade r'
  rw [rateRound_eq h, rateRound_eq h']
  rcases (h.le_of_le h' hle).eq_or_lt with rfl | hlt
  · have hxx : x ≤ x' := by
      have hpow : (0 : ℚ) < 10 ^ k := by positivity
      rw [h.eq, h'.eq] at hle
      exact le_of_mul_le_mul_right hle hpow
    exact mul_le_mul_of_nonneg_right (round_mono hxx) (by positivity)
  · -- Between two decades there is ten times the power of the higher one.
    calc Python.round x * 10 ^ k ≤ 100 * 10 ^ k :=
          mul_le_mul_of_nonneg_right h.round_le (by positivity)
      _ = 10 * 10 ^ (k + 1) := by rw [pow_succ]; ring
      _ ≤ 10 * 10 ^ k' :=
          mul_le_mul_of_nonneg_left (pow_le_pow_right₀ (by norm_num) hlt) (by norm_num)
      _ ≤ Python.round x' * 10 ^ k' :=
          mul_le_mul_of_nonneg_right (h'.le_round (by omega)) (by positivity)

/-- A rounded rate is an integer in its decade. -/
theorem exists_decade_rateRound (r : ℚ) : ∃ (n : ℤ) (k : ℕ), Decade (rateRound r) n k := by
  obtain ⟨x, k, h⟩ := exists_decade r
  rw [rateRound_eq h]
  rcases Nat.eq_zero_or_pos k with rfl | hk
  · exact ⟨Python.round x, 0, by push_cast; ring, by exact_mod_cast h.round_le, Or.inl rfl⟩
  · rcases (h.le_round hk.ne').eq_or_lt with hten | hten
    · -- Ten times a power of ten is a hundred times the one below it.
      obtain ⟨m, rfl⟩ := Nat.exists_eq_succ_of_ne_zero hk.ne'
      refine ⟨100, m, ?_, by norm_num, Or.inr (by norm_num)⟩
      rw [← hten, Nat.succ_eq_add_one, pow_succ]
      push_cast
      ring
    · exact ⟨Python.round x, k, by push_cast; ring, by exact_mod_cast h.round_le,
        Or.inr (by exact_mod_cast hten)⟩

theorem rateRound_rateRound (r : ℚ) : rateRound (rateRound r) = rateRound r := by
  obtain ⟨n, k, h⟩ := exists_decade_rateRound r
  rw [rateRound_eq h, round_intCast]
  exact_mod_cast h.eq.symm

/-- The rounded rate is at most half a unit of its power of ten away. -/
theorem abs_rateRound_sub_le (h : Decade r x k) : |(rateRound r : ℚ) - r| ≤ 10 ^ k / 2 := by
  have hpow : (0 : ℚ) < 10 ^ k := by positivity
  rw [rateRound_eq h, h.eq]
  push_cast
  rw [← sub_mul, abs_mul, abs_of_pos hpow]
  have hround := mul_le_mul_of_nonneg_right (abs_round_sub_le x) hpow.le
  linarith

/-! ### The search -/

/-- The next limit before it is rounded. -/
theorem nextRate_bounds {low high test : ℤ} (rate : ℚ) (lost : ℤ) (hlow : 0 ≤ low)
    (htest : low ≤ test) (hhigh : test ≤ high) :
    (low : ℚ) ≤ nextRate rate lost low high test ∧ nextRate rate lost low high test ≤ high ∧
      (0 < lost → nextRate rate lost low high test ≤ test) ∧
        (¬0 < lost → (test : ℚ) ≤ nextRate rate lost low high test) := by
  have hlowtest : (low : ℚ) ≤ test := Int.cast_le.mpr htest
  have htesthigh : (test : ℚ) ≤ high := Int.cast_le.mpr hhigh
  have hhigh0 : ¬high < 0 := by omega
  by_cases hlost : 0 < lost
  · simp only [nextRate, if_pos hlost]
    refine ⟨by linarith, by linarith, fun _ => by linarith, fun h => absurd hlost h⟩
  · simp only [nextRate, if_neg hlost, if_neg hhigh0]
    refine ⟨by linarith, by linarith, fun h => absurd h hlost, fun _ => by linarith⟩

/-- The step of the search. -/
structure Bracketed (low high test : ℤ) (output : Output) : Prop where
  /-- It does not go below the lower limit. -/
  low_le : rateRound low ≤ output.next
  /-- Nor above the higher one. -/
  le_high : output.next ≤ rateRound high
  /-- After a test with losses it goes down. -/
  le_test : 0 < output.lost → output.next ≤ rateRound test
  /-- After one without it goes up. -/
  test_le : ¬0 < output.lost → rateRound test ≤ output.next

/-- What `main` prints for a file from which it can compute a rate. -/
theorem next_of_main {leastsq : Grinder.Leastsq} {text : List Char} {low high test : ℤ}
    {output : Output} (h : main leastsq text low high test = .ok output) :
    ∃ rate, output.next = rateRound (nextRate rate output.lost low high test) := by
  rw [main] at h
  obtain ⟨data, -, h⟩ := exists_of_bind_eq_ok h
  obtain ⟨first, -, h⟩ := exists_of_bind_eq_ok h
  obtain ⟨x, -, h⟩ := exists_of_bind_eq_ok h
  obtain ⟨rate, -, h⟩ := exists_of_bind_eq_ok h
  obtain rfl := Except.ok.inj h
  exact ⟨rate, rfl⟩

theorem main_bracketed {leastsq : Grinder.Leastsq} {text : List Char} {low high test : ℤ}
    {output : Output} (hmain : main leastsq text low high test = .ok output) (hlow : 0 ≤ low)
    (htest : low ≤ test) (hhigh : test ≤ high) : Bracketed low high test output := by
  obtain ⟨rate, hnext⟩ := next_of_main hmain
  obtain ⟨hl, hh, hdown, hup⟩ := nextRate_bounds rate output.lost hlow htest hhigh
  constructor
  · exact hnext ▸ rateRound_mono hl
  · exact hnext ▸ rateRound_mono hh
  · exact fun hlost => hnext ▸ rateRound_mono (hdown hlost)
  · exact fun hlost => hnext ▸ rateRound_mono (hup hlost)

/-- It prints something for a report of messages in the order of time, if `leastsq` takes two
parameters for as many of them. -/
theorem completes_main {leastsq : Grinder.Leastsq} {text : List Char} {low high test : ℤ}
    {data : Analyser.Data} (hload : load text = .ok data) (hsends : Grinder.Spans data.sends)
    (htakes : leastsq.takes 2 data.sends.length = true) :
    Completes (main leastsq text low high test) := by
  rw [main, hload, ok_bind, index_zero hsends.1, ok_bind]
  refine (Grinder.returns_calculateFit hsends htakes).bind fun x hx => ?_
  exact (completes_index.mpr (by rw [hx]; exact Nat.one_lt_two)).bind fun _ => completes_pure

/-- What `rate_round` and the search that uses it are expected to do. -/
structure RateRoundSound : Prop where
  /-- The loop ends, and the result is the multiple of the power of ten it has divided by that is
  nearest. -/
  nearest : ∀ r : ℚ, 0 ≤ r → ∃ i, divide r 0 = (r / 10 ^ i, i) ∧ r / 10 ^ i ≤ 100 ∧
    (10 : ℤ) ^ i ∣ rateRound r ∧ |(rateRound r : ℚ) - r| ≤ 10 ^ i / 2
  /-- Within five percent. -/
  close : ∀ r : ℚ, 100 < r → |(rateRound r : ℚ) - r| ≤ 5 / 100 * r
  /-- It is monotone. -/
  monotone : ∀ r r' : ℚ, r ≤ r' → rateRound r ≤ rateRound r'
  /-- It is idempotent. -/
  idempotent : ∀ r : ℚ, rateRound (rateRound r) = rateRound r
  /-- The next limit is printed, for two messages or more: a line through a single one is not
  fitted. -/
  prints : ∀ (leastsq : Grinder.Leastsq) (text : List Char) (low high test : ℤ)
    (data : Analyser.Data), leastsq.Documented → load text = .ok data → 2 ≤ data.sends.length →
      data.sends.Pairwise (· ≤ ·) → Completes (main leastsq text low high test)
  /-- The next limit is in the bracket, on the right side of the tested one. -/
  bracketed : ∀ (leastsq : Grinder.Leastsq) (text : List Char) (low high test : ℤ)
    (output : Output), 0 ≤ low → low ≤ test → test ≤ high →
      main leastsq text low high test = .ok output →
      Bracketed low high test output

theorem Decade.div_pow_eq (h : Decade r x k) : r / 10 ^ k = x := by
  rw [h.eq, mul_div_cancel_right₀ _ (pow_ne_zero k (by norm_num))]

/-- **The search stays in its bracket.** The loop of `rate_round` ends, and its result is accurate,
monotone and idempotent; so the next limit lies between the rounded limits, and on the right side of
the rounded test. -/
theorem rateRound_sound : RateRoundSound where
  nearest r _ := by
    obtain ⟨x, k, h⟩ := exists_decade r
    refine ⟨k, ?_, ?_, ?_, abs_rateRound_sub_le h⟩
    · rw [h.divide_eq, h.div_pow_eq]
    · rw [h.div_pow_eq]
      exact h.le
    · rw [rateRound_eq h]
      exact Dvd.intro_left _ rfl
  close r hr := by
    obtain ⟨x, k, h⟩ := exists_decade r
    have hle := abs_rateRound_sub_le h
    -- A rate of more than a hundred is divided, so it is more than ten times its power.
    have hpow : (0 : ℚ) < 10 ^ k := by positivity
    have hk : k ≠ 0 := by
      rintro rfl
      have heq := h.eq
      rw [pow_zero, mul_one] at heq
      exact absurd h.le (heq ▸ hr).not_ge
    have hlt := mul_lt_mul_of_pos_right (h.lt.resolve_left hk) hpow
    rw [← h.eq] at hlt
    linarith
  monotone _ _ := rateRound_mono
  idempotent := rateRound_rateRound
  prints leastsq _ _ _ _ data hdocumented hload hlength hsorted := by
    have hne : data.sends ≠ [] := List.ne_nil_of_length_pos (by omega)
    have htakes : leastsq.takes 2 data.sends.length = true :=
      (hdocumented ..).trans (decide_eq_true hlength)
    exact completes_main hload (Grinder.spans_of_sorted hne hsorted) htakes
  bracketed _ _ _ _ _ _ hlow htest hhigh hmain := main_bracketed hmain hlow htest hhigh

end Preview

end DnsTools
