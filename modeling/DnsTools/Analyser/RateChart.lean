import DnsTools.Analyser.Grinder
import Mathlib.Algebra.Order.Field.Rat
import Mathlib.Data.Rat.Cast.Defs
import Mathlib.Tactic.FieldSimp
import Mathlib.Tactic.Linarith

/-!
# The chart of the rate

A point of the chart of the rate stands for the messages between two times. Windows that end at the
time at which the last one ended are counted and added to the next interval, but not to the last
interval of all, which is computed behind the loop: if the last window is such a window, its
messages are lost.

## What a point stands for

A point has the middle of its interval and the messages in it by the second. From the end of one
interval and a point the end of the next can be computed, and from these the number of messages
(`intervalEnd`, `messagesShown`); so what a chart shows can be read off its points, with no memory
of how they were made. This is what the statements are about. A rate is an exact fraction here, so
the number of messages comes out as it went in.

## What the loop carries

`make_rate` goes over every `step`-th message. If it is later than the last one that made a point,
it makes a point for all windows since then, and if not, it counts one more window to be made up
for. `RateLoop.Accounts` says that the messages shown and those carried are together all that the
loop has passed. The loop ends with nothing carried if and only if its last sample is later than all
before it (`accounts_concat`).

What is left behind the last sample is fewer than `step` messages. Behind the loop they make a point
of their own, for which only these are counted. The sibling branch, for few messages, takes every
message for a sample and has nothing left, and it needs no such care: the last message is assumed to
be later than the others.

## What is assumed

That the times do not go back and the last one is later than the others, as in a report of mig,
whose clock readings are in order. The arithmetic is exact.

## Main results

* `Grinder.accounts_foldlM` — what the loop has shown and what it still carries
* `Grinder.returns_makeRate_sampled` — the branch with samples
* `Grinder.makeRate_accounts_iff` — exactly when the chart accounts for all messages
-/

namespace DnsTools

namespace Grinder

open Python

/-- The end of the interval of a point, which begins at `previous`: `x` is its middle. -/
def intervalEnd (start : ℤ) (previous : ℚ) (point : Point) : ℚ :=
  2 * (point.x * millisecond + start) - previous

/-- The sum of the rates, each times the seconds of its interval. An interval begins where the one
before it ends. -/
def messagesShown (start : ℤ) (previous : ℚ) : List Point → ℚ
  | [] => 0
  | point :: points =>
    point.y * ((intervalEnd start previous point - previous) / nanoseconds) +
      messagesShown start (intervalEnd start previous point) points

/-- The variables of a loop when it has seen some samples. What it has not shown of their messages
it carries in `steps`. -/
structure RateLoop.Accounts (start first : ℤ) (step : ℕ) (seen : List ℤ) (s : RateLoop) : Prop where
  /-- The intervals reach up to `previous`. -/
  ends : s.data.foldl (intervalEnd start) first = s.previous
  /-- The messages. -/
  shown : messagesShown start first s.data + step * s.steps = step * (seen.length + 1 : ℕ)
  /-- There is one step to come. -/
  steps_pos : 1 ≤ s.steps
  /-- `previous` is a time. -/
  mem : s.previous ∈ first :: seen
  /-- There is no later one so far. -/
  le : ∀ timestamp ∈ first :: seen, timestamp ≤ s.previous

variable {start first previous timestamp : ℤ} {step : ℕ} {seen xs : List ℤ} {s : RateLoop}

/-! ### Intervals -/

theorem messagesShown_append {from' : ℚ} (points points' : List Point) :
    messagesShown start from' (points ++ points') = messagesShown start from' points +
      messagesShown start (points.foldl (intervalEnd start) from') points' := by
  induction points generalizing from' with
  | nil => exact (zero_add _).symm
  | cons point points ih =>
    rw [List.cons_append, messagesShown, ih, messagesShown, List.foldl_cons, add_assoc]

/-- A point stands for its messages. -/
theorem exists_ratePoint (start : ℤ) (messages : ℕ) (h : previous < timestamp) :
    ∃ point, ratePoint start previous timestamp messages = .ok point ∧
      intervalEnd start previous point = timestamp ∧
      messagesShown start previous [point] = messages := by
  have hne : ((timestamp - previous : ℤ) : ℚ) ≠ 0 := by
    rw [Ne, Int.cast_eq_zero]
    omega
  have hend : intervalEnd start previous
      ⟨((timestamp + previous - 2 * start : ℤ) : ℚ) / millisecond / 2,
        nanoseconds * messages / ((timestamp - previous : ℤ) : ℚ)⟩ = timestamp := by
    simp only [intervalEnd, millisecond]
    push_cast
    ring
  refine ⟨_, ?_, hend, ?_⟩
  · rw [ratePoint, div_eq hne]
    rfl
  · rw [messagesShown, hend, messagesShown, add_zero]
    push_cast at hne ⊢
    have hns : (nanoseconds : ℚ) ≠ 0 := by norm_num [nanoseconds]
    field_simp

/-! ### The loop -/

/-- A step of the loop: it shows the messages it carries, or carries more. -/
theorem rateRound_accounts (h : s.Accounts start first step seen) (timestamp : ℤ) :
    Returns (rateRound start step s timestamp) fun s' =>
      s'.Accounts start first step (seen ++ [timestamp]) ∧
        (s'.steps = 1 ↔ s.previous < timestamp) := by
  have hlength : ((seen ++ [timestamp]).length + 1 : ℕ) = seen.length + 1 + 1 := by
    rw [List.length_append]
    rfl
  have hsub : ∀ t ∈ first :: seen, t ∈ first :: (seen ++ [timestamp]) := fun t ht =>
    List.mem_append_left [timestamp] ht
  have hcases : ∀ t ∈ first :: (seen ++ [timestamp]), t ∈ first :: seen ∨ t = timestamp := by
    intro t ht
    simpa using List.mem_append.mp (show t ∈ (first :: seen) ++ [timestamp] from ht)
  rw [rateRound]
  split_ifs with hle
  · refine returns_pure ⟨⟨h.ends, ?_, Nat.le_add_left 1 _, hsub _ h.mem, ?_⟩, ?_⟩
    · have := h.shown
      rw [hlength]
      push_cast at this ⊢
      linarith
    · intro t ht
      rcases hcases t ht with ht | rfl
      · exact h.le t ht
      · exact hle
    · have := h.steps_pos
      exact iff_of_false (by simp; omega) hle.not_gt
  · rw [not_le] at hle
    obtain ⟨point, hpoint, hend, hmessages⟩ := exists_ratePoint start (step * s.steps) hle
    rw [hpoint]
    refine returns_pure ⟨⟨?_, ?_, le_refl 1, ?_, ?_⟩, iff_of_true rfl hle⟩
    · rw [List.foldl_append, h.ends]
      exact hend
    · have := h.shown
      rw [messagesShown_append, h.ends, hmessages, hlength]
      push_cast at this ⊢
      linarith
    · simp
    · intro t ht
      rcases hcases t ht with ht | rfl
      · exact (h.le t ht).trans hle.le
      · exact le_refl t

/-- The loop as it begins. -/
theorem accounts_start : ({ data := [], previous := first, steps := 1 } : RateLoop).Accounts start
    first step [] where
  ends := rfl
  shown := by simp [messagesShown]
  steps_pos := le_refl 1
  mem := List.mem_cons_self
  le := by simp

/-- What the loop has shown and what it carries are the messages of all samples. -/
theorem accounts_foldlM : Returns
    (xs.foldlM (rateRound start step) { data := [], previous := first, steps := 1 })
    (RateLoop.Accounts start first step xs) :=
  returns_foldlM_history accounts_start fun _ _ timestamp _ h =>
    let ⟨s', hs', h', _⟩ := rateRound_accounts h timestamp
    ⟨s', hs', h'⟩

/-- The last round shows what is carried if no time so far is as late. -/
theorem accounts_concat : Returns
    ((xs ++ [timestamp]).foldlM (rateRound start step)
      { data := [], previous := first, steps := 1 })
    fun s => s.Accounts start first step (xs ++ [timestamp]) ∧
      (s.steps = 1 ↔ ∀ t ∈ first :: xs, t < timestamp) := by
  rw [List.foldlM_append]
  refine accounts_foldlM.bind fun s h => ?_
  rw [List.foldlM_cons]
  refine (rateRound_accounts h timestamp).bind fun s' ⟨h', hsteps⟩ => returns_pure ⟨h', ?_⟩
  rw [hsteps]
  exact ⟨fun hlt t ht => (h.le t ht).trans_lt hlt, fun hlt => hlt _ h.mem⟩

/-! ### The samples -/

section Samples

variable {timestamps : List ℤ} {name color : String} {fit : Bool}

theorem le_of_getElem? (hsorted : timestamps.Pairwise (· ≤ ·)) {i j : ℕ} {a b : ℤ} (hij : i ≤ j)
    (ha : timestamps[i]? = some a) (hb : timestamps[j]? = some b) : a ≤ b := by
  obtain ⟨hi, rfl⟩ := List.getElem?_eq_some_iff.mp ha
  obtain ⟨hj, rfl⟩ := List.getElem?_eq_some_iff.mp hb
  rcases hij.eq_or_lt with rfl | hlt
  · exact le_refl _
  · exact List.pairwise_iff_getElem.mp hsorted i j hi hj hlt

theorem getElem?_zero (h : timestamps ≠ []) : timestamps[0]? = some (timestamps.head h) := by
  rw [← List.head?_eq_getElem?, List.head?_eq_some_head h]

/-- There are several samples. -/
theorem two_le_div_chartStep {length : ℕ} (hstep : 0 < chartStep length fit) :
    2 ≤ length / chartStep length fit := by
  rw [Nat.le_div_iff_mul_le hstep]
  refine le_trans ?_ (Nat.div_mul_le_self length (if fit then points else fitPoints))
  rw [Nat.mul_comm]
  refine Nat.mul_le_mul_left _ ?_
  split_ifs <;> decide

/-- The last sample, and those before it. -/
theorem stride_eq_append (h : timestamps ≠ []) (hstep : 0 < step)
    (hm : 2 ≤ timestamps.length / step) (hsorted : timestamps.Pairwise (· ≤ ·)) :
    ∃ xs a b, stride step (step - 1) timestamps = xs ++ [b] ∧
      timestamps[(timestamps.length / step - 1) * step - 1]? = some a ∧
      timestamps[timestamps.length / step * step - 1]? = some b ∧
      a ∈ xs ∧ ∀ t ∈ timestamps.head h :: xs, t ≤ a := by
  obtain ⟨k, hk⟩ : ∃ k, timestamps.length / step = k + 2 := ⟨_, (Nat.sub_add_cancel hm).symm⟩
  have hlength : (stride step (step - 1) timestamps).length = k + 2 :=
    (length_stride hstep).trans hk
  have hlt {i : ℕ} (hi : i < k + 2) : (i + 1) * step - 1 < timestamps.length := by
    have hle : (i + 1) * step ≤ timestamps.length :=
      (Nat.le_div_iff_mul_le hstep).mp (hk ▸ Nat.succ_le_of_lt hi)
    have hpos : 0 < (i + 1) * step := Nat.mul_pos (Nat.succ_pos i) hstep
    omega
  have hlast := hlt (Nat.lt_succ_self (k + 1))
  have hbefore := hlt (show k < k + 2 by omega)
  have hgetbefore := List.getElem?_eq_getElem hbefore
  refine ⟨(stride step (step - 1) timestamps).take (k + 1), timestamps[(k + 1) * step - 1],
    timestamps[(k + 2) * step - 1], ?_, ?_, ?_, ?_, List.forall_mem_cons.mpr ⟨?_, ?_⟩⟩
  · rw [← getElem_stride hstep (by omega) hlast, List.take_concat_get',
      List.take_of_length_le hlength.le]
  · rw [hk]
    exact hgetbefore
  · rw [hk]
    exact List.getElem?_eq_getElem hlast
  · rw [← getElem_stride hstep (by omega) hbefore]
    exact List.mem_take_iff_getElem.mpr ⟨k, by omega, rfl⟩
  · exact le_of_getElem? hsorted (Nat.zero_le _) (getElem?_zero h) hgetbefore
  · intro t ht
    obtain ⟨i, hi, rfl⟩ := List.mem_take_iff_getElem.mp ht
    have hik : i < k + 1 := by omega
    have hi := hlt (show i < k + 2 by omega)
    rw [getElem_stride hstep _ hi]
    refine le_of_getElem? hsorted ?_ (List.getElem?_eq_getElem hi) hgetbefore
    exact Nat.sub_le_sub_right (Nat.mul_le_mul_right _ hik) 1

/-- The last sample is later than the one before it. -/
def LastWindowLater (timestamps : List ℤ) (step : ℕ) : Prop :=
  ∃ a b, timestamps[(timestamps.length / step - 1) * step - 1]? = some a ∧
    timestamps[timestamps.length / step * step - 1]? = some b ∧ a < b

theorem lastWindowLater_iff {a b : ℤ}
    (ha : timestamps[(timestamps.length / step - 1) * step - 1]? = some a)
    (hb : timestamps[timestamps.length / step * step - 1]? = some b) :
    LastWindowLater timestamps step ↔ a < b := by
  rw [LastWindowLater, ha, hb]
  simp

/-- What stands in front of the last time. -/
theorem mem_dropLast_of_getElem? {i : ℕ} {b : ℤ} (hi : i < timestamps.length - 1)
    (hb : timestamps[i]? = some b) : b ∈ timestamps.dropLast := by
  refine List.mem_of_getElem? (i := i) ?_
  rw [List.getElem?_dropLast, if_pos hi]
  exact hb

/-- The chart accounts for all messages, or in the branch without samples for all before the last.
-/
def RateAccounts (timestamps : List ℤ) (name : String) (start : ℤ) (fit : Bool) (color : String)
    (h : timestamps ≠ []) : Prop :=
  Returns (makeRate timestamps name start fit color) fun series =>
    messagesShown start (timestamps.head h) series.values =
      (if chartStep timestamps.length fit ≤ 1 then timestamps.length - 1 else timestamps.length : ℕ)

/-- In the branch without samples nothing is lost. -/
theorem rateAccounts_all (h : timestamps ≠ [])
    (hlast : ∀ t ∈ timestamps.dropLast, t < timestamps.getLast h)
    (hstep : chartStep timestamps.length fit ≤ 1) :
    RateAccounts timestamps name start fit color h := by
  rw [RateAccounts, makeRate, index_zero h]
  simp only [ok_bind, if_pos hstep]
  obtain ⟨first, tail, rfl⟩ := List.exists_cons_of_ne_nil h
  rcases List.eq_nil_or_concat' tail with rfl | ⟨xs, final, rfl⟩
  · exact returns_pure (by simp [messagesShown])
  · refine accounts_concat.bind fun s ⟨haccounts, hsteps⟩ => returns_pure ?_
    have hone : s.steps = 1 := by
      refine hsteps.mpr fun t ht => ?_
      have hmem : t ∈ ((first :: xs) ++ [final]).dropLast := by rwa [List.dropLast_concat]
      simpa using hlast t hmem
    have hshown := haccounts.shown
    rw [hone] at hshown
    simpa using hshown

/-- What the steps that are carried make of the messages shown. -/
theorem add_rest_eq_iff {shown : ℚ} {steps m length : ℕ} (hstep : 0 < step)
    (hshown : shown + step * steps = step * (m + 1 : ℕ)) (hle : m * step ≤ length) :
    shown + (length - m * step : ℕ) = length ↔ steps = 1 := by
  rw [Nat.cast_sub hle]
  push_cast at hshown ⊢
  constructor
  · intro heq
    have hmul : (step : ℚ) * steps = step * 1 := by linarith
    exact Nat.cast_eq_one.mp (mul_left_cancel₀ (Nat.cast_ne_zero.mpr hstep.ne') hmul)
  · rintro rfl
    rw [Nat.cast_one] at hshown
    linarith

/-- In the branch with samples the messages of the last one are lost if it is carried. -/
theorem returns_makeRate_sampled (name color : String) (start : ℤ) (h : timestamps ≠ [])
    (hsorted : timestamps.Pairwise (· ≤ ·))
    (hlast : ∀ t ∈ timestamps.dropLast, t < timestamps.getLast h)
    (hstep : 1 < chartStep timestamps.length fit) :
    Returns (makeRate timestamps name start fit color) fun series =>
      messagesShown start (timestamps.head h) series.values = timestamps.length ↔
        LastWindowLater timestamps (chartStep timestamps.length fit) := by
  have hm := two_le_div_chartStep (Nat.zero_lt_of_lt hstep)
  have hle : chartStep timestamps.length fit ≤ timestamps.length := Nat.div_le_self ..
  generalize hgap : chartStep timestamps.length fit = step at *
  have hstep0 : 0 < step := Nat.zero_lt_of_lt hstep
  obtain ⟨xs, a, b, hxs, ha, hb, hmem, hgreatest⟩ := stride_eq_append h hstep0 hm hsorted
  have hab : a ≤ b := le_of_getElem? hsorted
    (Nat.sub_le_sub_right (Nat.mul_le_mul_right _ (Nat.sub_le _ 1)) 1) ha hb
  have hi : (timestamps.length / step - 1 + 1) * step = timestamps.length / step * step := by
    rw [Nat.sub_add_cancel (by omega)]
  rw [makeRate, hgap]
  simp only [index_zero h, loopIndex_stride hstep0 hle, last_eq h, ok_bind, hi,
    if_neg hstep.not_ge]
  rw [hxs]
  refine accounts_concat.bind fun s ⟨haccounts, hsteps⟩ => ?_
  have hshown := haccounts.shown
  have hlength : (xs ++ [b]).length = timestamps.length / step := by
    rw [← hxs, length_stride hstep0]
  have hone : s.steps = 1 ↔ LastWindowLater timestamps step := by
    rw [hsteps, lastWindowLater_iff ha hb]
    exact ⟨fun hlt => hlt a (List.mem_cons_of_mem _ hmem),
      fun hlt t ht => (hgreatest t ht).trans_lt hlt⟩
  -- If there is a rest, all that the loop has seen is in front of the last message.
  have hprevious : timestamps.length / step * step < timestamps.length →
      s.previous < timestamps.getLast h := by
    intro hlt
    have hle : s.previous ≤ b := by
      rcases List.mem_append.mp (List.cons_append ▸ haccounts.mem) with hseen | hseen
      · exact (hgreatest _ hseen).trans hab
      · exact (List.mem_singleton.mp hseen).le
    exact hle.trans_lt (hlast b (mem_dropLast_of_getElem? (by omega) hb))
  rw [hlength] at hshown
  rw [← hone, ← add_rest_eq_iff hstep0 hshown (Nat.div_mul_le_self _ _)]
  split_ifs with hmore
  · obtain ⟨point, hpoint, -, hmessages⟩ := exists_ratePoint start
      (timestamps.length - timestamps.length / step * step) hmore.2
    rw [hpoint]
    refine returns_pure ?_
    rw [messagesShown_append, haccounts.ends, hmessages]
  · have hnone : timestamps.length - timestamps.length / step * step = 0 := by
      by_contra hne
      exact hmore ⟨by omega, hprevious (by omega)⟩
    refine returns_pure ?_
    rw [hnone, Nat.cast_zero, add_zero]

/-- **Exactly the charts that account for every message.** The messages that the points stand for
are all messages, or without samples all before the last, if and only if there are no samples or the
last of them is later than the one before it. -/
theorem makeRate_accounts_iff (h : timestamps ≠ []) (hsorted : timestamps.Pairwise (· ≤ ·))
    (hlast : ∀ t ∈ timestamps.dropLast, t < timestamps.getLast h) :
    RateAccounts timestamps name start fit color h ↔
      (1 < chartStep timestamps.length fit →
        LastWindowLater timestamps (chartStep timestamps.length fit)) := by
  by_cases hstep : chartStep timestamps.length fit ≤ 1
  · exact iff_of_true (rateAccounts_all h hlast hstep) fun hlt => absurd hstep hlt.not_ge
  · rw [RateAccounts, if_neg hstep]
    rw [not_le] at hstep
    obtain ⟨series, hseries, hiff⟩ :=
      returns_makeRate_sampled name color start h hsorted hlast hstep
    rw [hseries, returns_ok_iff, hiff]
    exact ⟨fun hlater _ => hlater, fun hlater => hlater hstep⟩

/-- A message every microsecond, and one a little later than the others. -/
def lateMessage : List ℤ := (List.range 50).map (fun i : ℕ => 1000 * (i : ℤ)) ++ [60000]

/-- With a fit every second one is a sample, and their chart accounts for all messages. -/
theorem makeRate_accounts_iff_lateMessage :
    1 < chartStep lateMessage.length true ∧
      RateAccounts lateMessage "rate" 0 true "red"
        (List.append_ne_nil_of_right_ne_nil _ (by simp)) :=
  ⟨by decide, (makeRate_accounts_iff _ (by decide +kernel) (by decide +kernel)).mpr
    fun _ => ⟨47000, 49000, rfl, rfl, by decide⟩⟩

end Samples

/-- Fifty messages at one time, and one more. -/
def burst : List ℤ := List.replicate 50 0 ++ [1]

/-- None of the fifty messages is shown. -/
theorem burst_not_accounted :
    ¬RateAccounts burst "rate" 0 true "red" (List.append_ne_nil_of_right_ne_nil _ (by simp)) := by
  rintro ⟨series, hseries, haccounts⟩
  have hsorted : burst.Pairwise (· ≤ ·) := by
    simp [burst]
  have hlast : ∀ t ∈ burst.dropLast, t < burst.getLast (by simp [burst]) := by
    simp [burst]
  obtain ⟨series', hseries', hiff⟩ :=
    returns_makeRate_sampled "rate" "red" 0 _ hsorted hlast (show 1 < chartStep 51 true by decide)
  obtain rfl := Except.ok.inj (hseries.symm.trans hseries')
  have hlater := hiff.mp haccounts
  exact absurd ((lastWindowLater_iff (a := 0) (b := 0) rfl rfl).mp hlater) (lt_irrefl 0)

end Grinder

end DnsTools
