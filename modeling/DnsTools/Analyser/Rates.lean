import DnsTools.Analyser.Fit
import DnsTools.Analyser.Preview

/-!
# The rates of a report

`fit.py` prints the rates of sending and receiving of a report, which are slopes of lines through
its times. Without answers it prints zero for their rate. `preview.py` prints the rate of sending,
rounded.

## Main results

* `Fit.rateOf_eq_ok` — a rate is the slope of the best line
* `Fit.rateOf_le` — it is no greater than the times allow
* `Fit.preview_of_fit` — the two programs agree
-/

namespace DnsTools

namespace Fit

open Python LeastSquares

/-- What `main` prints. -/
structure Output where
  /-- `send`. -/
  send : ℚ
  /-- `recv`. -/
  recv : ℚ
  /-- `lost`. -/
  lost : ℤ
deriving DecidableEq, Repr

/-- `calculate_fit(timestamps, start, [])[1]`. -/
def rateOf (leastsq : Grinder.Leastsq) (timestamps : List ℤ) (start : ℤ) : Py ℚ := do
  let x ← Grinder.calculateFit leastsq timestamps start []
  index x 1

/-- `recv`, which is zero if there are no answers. -/
def recvRate (leastsq : Grinder.Leastsq) (receives : List ℤ) (start : ℤ) : Py ℚ :=
  if receives.isEmpty then .ok 0 else rateOf leastsq receives start

/-- `main` of `fit.py`, for the text of the file. Its `jload` and its `calculate_fit` are those of
`preview.py`. -/
def main (leastsq : Grinder.Leastsq) (text : List Char) : Py Output := do
  let data ← Preview.load text
  let first ← index data.sends 0
  let send ← rateOf leastsq data.sends first
  let recv ← recvRate leastsq data.receives first
  return { send, recv, lost := data.sends.length - data.receives.length }

/-! ### The line of a rate -/

variable {leastsq : Grinder.Leastsq} {timestamps : List ℤ} {start : ℤ}

/-- The line that `leastsq` finds through all messages. -/
def lineOf (leastsq : Grinder.Leastsq) (timestamps : List ℤ) (start : ℤ) : List ℚ :=
  leastsq.run (Grinder.linearCountResiduals start) [0, 1]
    ((Grinder.numbered timestamps).map Prod.fst) ((Grinder.numbered timestamps).map Prod.snd)

/-- Without a window, times in order are all given to `leastsq`. -/
theorem calculateFit_nil (h : Grinder.Spans timestamps) :
    Grinder.calculateFit leastsq timestamps start [] =
      if leastsq.takes 2 timestamps.length then .ok (lineOf leastsq timestamps start)
      else .error .typeError := by
  obtain ⟨hne, hle⟩ := h
  have hpoints := (Grinder.fitPointsIn_ne_nil start).mpr
    ⟨timestamps.head hne, List.head_mem hne, le_refl _, hle⟩
  obtain ⟨trained, htrained, -⟩ := completes_unzip.mpr hpoints
  rw [Grinder.calculateFit, Grinder.fitWindow_nil hne, ok_bind, htrained, ok_bind, lineOf,
    Grinder.numbered_fst, Grinder.numbered_snd]
  rfl

/-- The rate is the slope of the line, if there is one. -/
theorem rateOf_eq_ok {rate : ℚ} :
    rateOf leastsq timestamps start = .ok rate ↔
      (Grinder.Spans timestamps ∧ leastsq.takes 2 timestamps.length = true) ∧
        (Grinder.asLine (lineOf leastsq timestamps start)).2 = rate := by
  have hline : Grinder.Spans timestamps ∧ leastsq.takes 2 timestamps.length = true →
      rateOf leastsq timestamps start =
        .ok (Grinder.asLine (lineOf leastsq timestamps start)).2 := by
    rintro ⟨hspans, htakes⟩
    obtain ⟨a, b, hline⟩ : ∃ a b, lineOf leastsq timestamps start = [a, b] :=
      List.length_eq_two.mp (leastsq.length_run ..)
    rw [rateOf, calculateFit_nil hspans, if_pos htakes, ok_bind, hline]
    rfl
  constructor
  · intro h
    obtain ⟨x, hx, -⟩ := exists_of_bind_eq_ok h
    have hspans := Grinder.spans_of_calculateFit ⟨x, hx, trivial⟩
    rw [hline hspans] at h
    exact ⟨hspans, Except.ok.inj h⟩
  · rintro ⟨hspans, rfl⟩
    exact hline hspans

theorem exists_rateOf (h : Grinder.Spans timestamps)
    (htakes : leastsq.takes 2 timestamps.length = true) (start : ℤ) :
    ∃ rate, rateOf leastsq timestamps start = .ok rate :=
  ⟨_, rateOf_eq_ok.mpr ⟨⟨h, htakes⟩, rfl⟩⟩

/-- A line is not fitted to fewer messages than `leastsq` takes. -/
theorem rateOf_eq_error (h : Grinder.Spans timestamps)
    (htakes : leastsq.takes 2 timestamps.length = false) :
    rateOf leastsq timestamps start = .error .typeError := by
  rw [rateOf, calculateFit_nil h, if_neg (Bool.eq_false_iff.mp htakes)]
  rfl

/-- With an exact solver it is the best line through the messages. -/
theorem isBest_lineOf (hexact : leastsq.Exact) (hlength : 2 ≤ timestamps.length) (start : ℤ) :
    IsBest (Grinder.asLine (lineOf leastsq timestamps start))
      (Grinder.asData start (Grinder.numbered timestamps)) := by
  refine hexact.isBest start (Grinder.numbered timestamps) rfl ?_
  rwa [← List.length_map (f := Prod.fst), Grinder.numbered_fst]

/-- A later message, at least `gap` nanoseconds later for each message it comes behind. -/
def Later (gap : ℕ) (p q : ℤ × ℕ) : Prop := p.2 < q.2 ∧ p.1 + gap * ((q.2 : ℤ) - p.2) ≤ q.1

instance later_isTrans (gap : ℕ) : IsTrans (ℤ × ℕ) (Later gap) where
  trans := by
    rintro p q r ⟨hpq, hgap⟩ ⟨hqr, hgap'⟩
    exact ⟨hpq.trans hqr, by linarith⟩

theorem pairwise_later {gap : ℕ} (hapart : timestamps.IsChain fun t t' : ℤ => t + gap ≤ t') :
    (Grinder.numbered timestamps).Pairwise (Later gap) := by
  refine List.isChain_iff_pairwise.mp (List.isChain_iff_getElem.mpr fun i hi => ?_)
  rw [Grinder.numbered, List.length_map, List.length_zipIdx] at hi
  have hnext := hapart.getElem i hi
  simp only [Grinder.numbered, List.getElem_map, List.getElem_zipIdx, Nat.zero_add]
  refine ⟨Nat.lt_succ_self _, ?_⟩
  push_cast
  linarith

/-- In seconds. -/
theorem seconds_of_later {gap : ℕ} (hgap : 0 < gap) {p q : ℤ × ℕ} (h : Later gap p q) :
    ((p.1 - start : ℤ) : ℚ) / nanoseconds ≤ ((q.1 - start : ℤ) : ℚ) / nanoseconds ∧
      (q.2 : ℚ) - p.2 ≤ (nanoseconds : ℚ) / gap *
        (((q.1 - start : ℤ) : ℚ) / nanoseconds - ((p.1 - start : ℤ) : ℚ) / nanoseconds) := by
  have hns : (0 : ℚ) < nanoseconds := by norm_num [nanoseconds]
  have hgap' : (0 : ℚ) < gap := Nat.cast_pos.mpr hgap
  have hle : (p.1 : ℚ) + gap * (q.2 - p.2) ≤ q.1 := by exact_mod_cast h.2
  have hlt : (p.2 : ℚ) < q.2 := Nat.cast_lt.mpr h.1
  have hmul : 0 ≤ gap * ((q.2 : ℚ) - p.2) := mul_nonneg hgap'.le (sub_nonneg.mpr hlt.le)
  constructor
  · push_cast
    exact div_le_div_of_nonneg_right (by linarith) hns.le
  · have hseconds : (nanoseconds : ℚ) / gap * (((q.1 - start : ℤ) : ℚ) / nanoseconds -
        ((p.1 - start : ℤ) : ℚ) / nanoseconds) = (q.1 - p.1) / gap := by
      push_cast
      field_simp
      ring
    rw [hseconds, le_div_iff₀ hgap']
    linarith

/-- **A rate is no greater than the times allow.** If each message is at least `gap` nanoseconds
later than the one before it, the slope of the best line is at most one message for each `gap`. -/
theorem rateOf_le (hexact : leastsq.Exact) (hlength : 2 ≤ timestamps.length) {gap : ℕ}
    (hgap : 0 < gap) (hapart : timestamps.IsChain fun t t' : ℤ => t + gap ≤ t') {rate : ℚ}
    (hrate : rateOf leastsq timestamps start = .ok rate) : rate ≤ (nanoseconds : ℚ) / gap := by
  obtain ⟨-, rfl⟩ := rateOf_eq_ok.mp hrate
  have hbest := isBest_lineOf hexact hlength start
  have hlater := pairwise_later hapart
  obtain ⟨t, t', rest, rfl⟩ : ∃ t t' rest, timestamps = t :: t' :: rest := by
    match timestamps, hlength with
    | t :: t' :: rest, _ => exact ⟨t, t', rest, rfl⟩
  have hne : t ≠ t' := by
    have hnext := (List.isChain_cons_cons.mp hapart).1
    omega
  refine hbest.slope_le (List.pairwise_map.mpr (hlater.imp fun h => (seconds_of_later hgap h).1))
    (List.pairwise_map.mpr (hlater.imp fun h => (seconds_of_later hgap h).2))
    List.mem_cons_self (List.mem_cons_of_mem _ List.mem_cons_self) ?_
  exact fun hseconds => hne (Grinder.seconds_injective hseconds)

/-! ### The two programs -/

/-- What `preview.py` prints is what `fit.py` does, rounded. -/
theorem preview_of_fit {text : List Char} {output : Output} (h : main leastsq text = .ok output)
    (low high test : ℤ) :
    Preview.main leastsq text low high test = .ok
      { rate := Preview.rateRound output.send
        lost := output.lost
        next := Preview.rateRound
          (Preview.nextRate output.send output.lost low high test) } := by
  obtain ⟨data, hload, h⟩ := exists_of_bind_eq_ok h
  obtain ⟨first, hfirst, h⟩ := exists_of_bind_eq_ok h
  obtain ⟨send, hsend, h⟩ := exists_of_bind_eq_ok h
  obtain ⟨recv, -, h⟩ := exists_of_bind_eq_ok h
  obtain rfl := Except.ok.inj h
  obtain ⟨x, hx, hsend⟩ := exists_of_bind_eq_ok hsend
  rw [Preview.main, hload, ok_bind, hfirst, ok_bind, hx, ok_bind, hsend, ok_bind]
  rfl

end Fit

end DnsTools
