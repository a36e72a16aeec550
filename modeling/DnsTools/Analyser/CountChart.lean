import DnsTools.Analyser.Grinder
import Mathlib.Data.List.Chain
import Mathlib.Data.List.Range

/-!
# The chart of the count

A chart of many messages shows only some of them, and the number of messages up to each. What
`make_count` shows are the first message, then every `step`-th one and, if the last of these is not
the last message, that one.

## Numbers and indices

The loop runs over a slice of the list and counts along, so the number that it gives to a message is
computed from the index of the round and not from the list. The statement is that it is the right
one: a point shows a message and how many there are up to it, whatever else is left out
(`ShowsCount`). Which messages are shown is a statement of its own, `IsSample`: their indices go up
from the first to the last, and no two neighbours are more than `step` apart.

The step is chosen so that a chart has about a given number of points. There are two such numbers,
one for charts with a fit, which has fewer, and one for those without; nothing depends on which it
is, and the result is for both.

## What is assumed

Nothing but that there is a message. The times may be in any order, although those of a report are
not.

## Main result

* `Grinder.makeCount_onCurve` — every point of the chart is the right one for its message
-/

namespace DnsTools

namespace Grinder

open Python

/-- Some of the messages, in order: the first and the last are among them, and from one to the next
it is at most `gap` messages. -/
structure IsSample (length gap : ℕ) (ks : List ℕ) : Prop where
  /-- The first message. -/
  head : ks.head? = some 1
  /-- The last message. -/
  last : ks.getLast? = some length
  /-- From one message to the next. -/
  steps : ks.IsChain fun k k' => k < k' ∧ k' ≤ k + gap

/-- The point of the chart for message `k`. -/
def ShowsCount (timestamps : List ℤ) (start : ℤ) (k : ℕ) (point : Point) : Prop :=
  ∃ timestamp, 1 ≤ k ∧ timestamps[k - 1]? = some timestamp ∧
    point = ⟨((timestamp - start : ℤ) : ℚ) / millisecond, k⟩

variable {length gap step m : ℕ} {ks : List ℕ} {timestamps : List ℤ} {name color : String}
  {start : ℤ} {fit : Bool}

/-! ### The messages that are shown -/

theorem IsSample.increasing (h : IsSample length gap ks) : ks.Pairwise (· < ·) :=
  List.isChain_iff_pairwise.mp (h.steps.imp fun _ _ => And.left)

/-- All messages. -/
theorem isSample_all (h : 0 < length) : IsSample length 1 ((List.range length).map (· + 1)) := by
  obtain ⟨n, rfl⟩ := Nat.exists_eq_succ_of_ne_zero h.ne'
  refine ⟨?_, ?_, ?_⟩
  · rw [List.head?_map, List.head?_range, if_neg n.succ_ne_zero]
    rfl
  · rw [List.getLast?_map, List.getLast?_range, if_neg n.succ_ne_zero]
    rfl
  · rw [List.isChain_map, List.isChain_range_succ]
    exact fun i _ => ⟨Nat.lt_succ_self _, le_refl _⟩

/-- Every `step`-th message, behind the first one. -/
def everyStep (step m : ℕ) : List ℕ := 1 :: (List.range m).map fun i => (i + 1) * step

theorem isSample_everyStep (hstep : 1 < step) (hm : 0 < m) :
    IsSample (m * step) step (everyStep step m) := by
  obtain ⟨n, rfl⟩ := Nat.exists_eq_succ_of_ne_zero hm.ne'
  refine ⟨rfl, ?_, ?_⟩
  · rw [everyStep, List.getLast?_cons, List.getLast?_map, List.getLast?_range,
      if_neg n.succ_ne_zero]
    rfl
  · rw [everyStep, List.isChain_cons, List.head?_map, List.head?_range, if_neg n.succ_ne_zero,
      List.isChain_map, List.isChain_range_succ]
    constructor
    · rintro _ ⟨⟩
      show 1 < (0 + 1) * step ∧ (0 + 1) * step ≤ 1 + step
      omega
    · intro i _
      rw [Nat.succ_eq_add_one, Nat.add_one_mul (i + 1)]
      omega

/-- One more message. -/
theorem IsSample.append {k : ℕ} (h : IsSample k gap ks) (hlt : k < length)
    (hle : length ≤ k + gap) : IsSample length gap (ks ++ [length]) := by
  refine ⟨?_, List.getLast?_concat, ?_⟩
  · rw [List.head?_append, h.head]
    rfl
  · refine h.steps.append (List.isChain_singleton _) ?_
    rintro _ hlast _ ⟨⟩
    obtain rfl := Option.some.inj (hlast.symm.trans h.last)
    exact ⟨hlt, hle⟩

/-! ### The points -/

theorem showsCount_index (start : ℤ) {i : ℕ} (h : i < timestamps.length) :
    ShowsCount timestamps start (i + 1)
      ⟨((timestamps[i] - start : ℤ) : ℚ) / millisecond, (i + 1 : ℕ)⟩ :=
  ⟨timestamps[i], Nat.le_add_left 1 i, List.getElem?_eq_getElem h, rfl⟩

/-- The points of the loop over all messages. -/
theorem showsCount_all : List.Forall₂ (ShowsCount timestamps start)
    ((List.range timestamps.length).map (· + 1))
    (timestamps.zipIdx.map fun (timestamp, i) =>
      ⟨((timestamp - start : ℤ) : ℚ) / millisecond, (i + 1 : ℕ)⟩) := by
  rw [List.forall₂_iff_get]
  refine ⟨by simp, fun i h h' => ?_⟩
  simpa using showsCount_index start (by simpa using h)

/-- The points of the loop over a slice. -/
theorem showsCount_stride (hstep : 0 < step) : List.Forall₂ (ShowsCount timestamps start)
    ((List.range (timestamps.length / step)).map fun i => (i + 1) * step)
    ((stride step (step - 1) timestamps).zipIdx.map fun (timestamp, i) =>
      ⟨((timestamp - start : ℤ) : ℚ) / millisecond, ((i + 1) * step : ℕ)⟩) := by
  rw [List.forall₂_iff_get]
  refine ⟨by simp [length_stride hstep], fun i h h' => ?_⟩
  have hi : i < timestamps.length / step := by simpa using h
  have hle : (i + 1) * step ≤ timestamps.length := (Nat.le_div_iff_mul_le hstep).mp hi
  have hpos : 0 < (i + 1) * step := Nat.mul_pos (Nat.succ_pos i) hstep
  have hlt : (i + 1) * step - 1 < timestamps.length := by omega
  have hshows := showsCount_index start hlt
  rw [Nat.sub_add_cancel hpos] at hshows
  simpa [getElem_stride hstep _ hlt] using hshows

theorem showsCount_first (h : timestamps ≠ []) : ShowsCount timestamps start 1
    ⟨((timestamps.head h - start : ℤ) : ℚ) / millisecond, 1⟩ := by
  refine ⟨_, le_refl 1, ?_, by rw [Nat.cast_one]⟩
  rw [← List.head?_eq_getElem?, List.head?_eq_some_head h]

theorem showsCount_last (h : timestamps ≠ []) : ShowsCount timestamps start timestamps.length
    ⟨((timestamps.getLast h - start : ℤ) : ℚ) / millisecond, timestamps.length⟩ := by
  refine ⟨_, List.length_pos_of_ne_nil h, ?_, rfl⟩
  rw [← List.getLast?_eq_getElem?, List.getLast?_eq_some_getLast h]

/-- **The chart of the count lies on its curve.** It shows the first message, the last and messages
between them, in order, none twice and from one to the next at most `step`; and the point for
message `k` stands at the time of that message, at the height `k`. -/
theorem makeCount_onCurve (h : timestamps ≠ []) :
    ∃ ks values, makeCount timestamps name start fit color
        = .ok { values, key := name, color } ∧
      List.Forall₂ (ShowsCount timestamps start) ks values ∧
      IsSample timestamps.length (max 1 (chartStep timestamps.length fit)) ks ∧
      ks.Pairwise (· < ·) := by
  have hpos : 0 < timestamps.length := List.length_pos_of_ne_nil h
  by_cases hstep : chartStep timestamps.length fit ≤ 1
  · have hsample := isSample_all hpos
    refine ⟨_, _, ?_, showsCount_all, ?_, hsample.increasing⟩
    · rw [makeCount]
      exact if_pos hstep
    · rwa [max_eq_left hstep]
  · generalize hgap : chartStep timestamps.length fit = step at *
    rw [not_le] at hstep
    have hstep0 : 0 < step := Nat.zero_lt_of_lt hstep
    have hle : step ≤ timestamps.length := hgap ▸ Nat.div_le_self ..
    have hm : 0 < timestamps.length / step := Nat.div_pos hle hstep0
    have hsample := isSample_everyStep hstep hm
    have hpoints : List.Forall₂ (ShowsCount timestamps start) (everyStep step _) _ :=
      .cons (showsCount_first h) (showsCount_stride hstep0)
    have hlast : (timestamps.length / step - 1 + 1) * step
        = timestamps.length / step * step := by rw [Nat.sub_add_cancel hm]
    have hmod := Nat.div_add_mod' timestamps.length step
    rw [max_eq_right hstep.le, makeCount, hgap]
    simp only [index_zero h, loopIndex_stride hstep0 hle, last_eq h, ok_bind, hlast,
      if_neg hstep.not_ge]
    by_cases hmore : timestamps.length / step * step < timestamps.length
    · have hall := hsample.append hmore (by have := Nat.mod_lt timestamps.length hstep0; omega)
      refine ⟨_, _, if_pos hmore, ?_, hall, hall.increasing⟩
      exact List.rel_append hpoints (.cons (showsCount_last h) .nil)
    · refine ⟨_, _, if_neg hmore, hpoints, ?_, hsample.increasing⟩
      rwa [show timestamps.length / step * step = timestamps.length by omega] at hsample

/-- A message every microsecond. -/
def everyMicrosecond : List ℤ := (List.range 53).map fun i : ℕ => 1000 * (i : ℤ)

/-- With a fit every second one is shown, and behind them the last one. -/
theorem makeCount_onCurve_everyMicrosecond :
    chartStep everyMicrosecond.length true = 2 ∧
    ∃ ks values, makeCount everyMicrosecond "count" 3 true "red"
        = .ok { values, key := "count", color := "red" } ∧
      List.Forall₂ (ShowsCount everyMicrosecond 3) ks values ∧
      IsSample 53 2 ks ∧ ks.Pairwise (· < ·) :=
  ⟨rfl, makeCount_onCurve (show everyMicrosecond ≠ [] by decide)⟩

end Grinder

end DnsTools
