import DnsTools.Analyser.Process
import Mathlib.Algebra.Order.Ring.Cast
import Mathlib.Data.List.Pairwise

/-!
# The inputs that grinder accepts

`grinder.py` catches no exception, so an input on which one function fails ends the program without
a page. Here is when each of the functions completes, and from these when the body of the loop over
the inputs does (`Grinder.completes_process`). `Completes` is that a computation does not raise;
what it returns is the subject of the modules on the charts.

## What can fail

Python raises at an index outside a list, at a division by zero, at `max` and `min` of nothing, at a
loop variable that is read behind a loop without a turn, and at the unpacking of nothing. The
functions meet these as follows.

* `make_count` asks for the first and the last entry only when it samples, and then there are some.
  So the count of a list with no entries is no problem.
* `make_rate` asks for the first entry before it looks at the length. A list with no entries is the
  only one on which it fails: it divides by the time between two samples, but only if there is some.
* `make_processing` looks at the delays only if there are any, and divides by a number of delays or
  by a largest value that is positive.
* `make_queue` reads the loop variable behind its loop, but only when there are many pairs. Pairs
  without entries are passed over, and if there were no others the variable would not exist.
* `calculate_fit` unpacks the messages in a window, of which there has to be one, and calls
  `leastsq`.

## What is assumed

The input has no fits, no window is asked for, a message was sent, and each pair has an entry: these
are the inputs that mig writes. `leastsq` is a parameter, and so is whether it takes two parameters
for as many entries: the real one refuses a single entry.

## Main results

* `Grinder.completes_makeRate` — a rate needs an entry
* `Grinder.completes_makeQueue`, `Grinder.completes_makeProcessing` — pairs with entries do not fail
* `Grinder.returns_calculateFit` — a fit needs times that span something
* `Grinder.completes_process` — an input needs an answer
-/

namespace DnsTools

namespace Grinder

open Python

variable {timestamps : List ℤ} {pairs : List (List ℤ)} {name color : String} {start : ℤ}
  {fit : Bool}

/-! ### Counts and rates

Both functions show all messages, or samples of them if `chartStep` is more than one. In the second
case the list has at least as many entries as the step, so there is a first sample, a last entry and
a turn of the loop whose variable is read behind it. -/

/-- The first sample is an entry. -/
theorem chartStep_lt (h : ¬ chartStep timestamps.length fit ≤ 1) :
    chartStep timestamps.length fit - 1 < timestamps.length := by
  have hle : chartStep timestamps.length fit ≤ timestamps.length := Nat.div_le_self ..
  omega

/-- A count never fails. -/
theorem completes_makeCount : Completes (makeCount timestamps name start fit color) := by
  rw [makeCount]
  split_ifs with hstep
  · exact completes_pure
  · -- the first entry, the loop variable and, for the rest, the last entry
    have hlt := chartStep_lt hstep
    have hne : timestamps ≠ [] := List.ne_nil_of_length_pos (by omega)
    refine (completes_index.mpr (List.length_pos_iff.mpr hne)).bind fun first => ?_
    refine (completes_loopIndex (stride_ne_nil hlt)).bind fun i => ?_
    split_ifs
    · exact (completes_last hne).bind fun final => completes_pure
    · exact completes_pure

/-- The point of an interval divides by its length. -/
theorem completes_ratePoint {previous timestamp : ℤ} {messages : ℕ} (h : previous < timestamp) :
    Completes (ratePoint start previous timestamp messages) := by
  have hne : ((timestamp - previous : ℤ) : ℚ) ≠ 0 := by
    rw [Ne, Int.cast_eq_zero]
    omega
  rw [ratePoint, div_eq hne]
  exact completes_ok

/-- A rate is only computed between two different times. -/
theorem completes_rateRound {step : ℕ} {s : RateLoop} {timestamp : ℤ} :
    Completes (rateRound start step s timestamp) := by
  rw [rateRound]
  split_ifs with hle
  · exact completes_pure
  · exact (completes_ratePoint (not_le.mp hle)).bind fun point => completes_pure

/-- **A rate needs an entry**, and nothing else. -/
theorem completes_makeRate :
    Completes (makeRate timestamps name start fit color) ↔ timestamps ≠ [] := by
  constructor
  · rintro h rfl
    obtain ⟨first, hfirst, -⟩ := h.exists_ok
    cases hfirst
  · intro hne
    rw [makeRate]
    refine (completes_index.mpr (List.length_pos_iff.mpr hne)).bind fun first => ?_
    have hloop {step : ℕ} {xs : List ℤ} {s : RateLoop} :
        Completes (xs.foldlM (rateRound start step) s) :=
      returns_foldlM trivial fun _ _ _ _ => completes_rateRound
    show Completes (ite _ _ _)
    split_ifs with hstep
    · exact hloop.bind fun s => completes_pure
    · -- behind the loop there may be one more point, which is computed only if it is later
      refine hloop.bind fun s => ?_
      refine (completes_loopIndex (stride_ne_nil (chartStep_lt hstep))).bind fun i => ?_
      refine (completes_last hne).bind fun final => ?_
      split_ifs with hlast
      · exact (completes_ratePoint hlast.2).bind fun point => completes_pure
      · exact completes_pure

/-! ### Delays

The buckets are made from the least and the greatest delay, so there are none without delays; with
delays there are `fitPoints` of them, and `fill` always finds one. -/

theorem completes_fill {buckets : List Bucket} {delays : List ℤ} (h : buckets ≠ []) :
    Completes (fill buckets delays) := by
  cases buckets with
  | nil => exact absurd rfl h
  | cons bucket behind => exact completes_ok

/-- The mean, the greatest and the least of a bucket are those of its delays, if it has more than
one. -/
theorem completes_bucketPoints {bucket : Bucket} : Completes (bucketPoints bucket) := by
  rw [bucketPoints]
  show Completes (ite _ _ _)
  split_ifs with hcount
  · have hne : bucket.delays ≠ [] := List.ne_nil_of_length_pos (by omega)
    rw [div_eq (Nat.cast_ne_zero.mpr (by omega))]
    refine (completes_max hne).bind fun greatest => ?_
    exact (completes_min hne).bind fun least => completes_pure
  · exact completes_pure

theorem completes_bucketCharts {bounds : List ℚ} {delays : List ℤ} (h : bounds ≠ []) :
    Completes (bucketCharts bounds delays) := by
  refine (completes_fill fun hnil => h (List.map_eq_nil_iff.mp hnil)).bind fun buckets => ?_
  exact (completes_mapM fun _ _ => completes_bucketPoints).bind fun data => completes_pure

theorem completes_delayCharts {floats : Floats} {delays : List ℤ} :
    Completes (delayCharts floats delays) := by
  rw [delayCharts]
  cases delays with
  | nil => exact completes_ok
  | cons delay delays =>
    -- the bounds are as many as there are points in a chart with a fit
    refine Returns.bind (P := fun bounds => bounds ≠ []) ?_ fun bounds h => completes_bucketCharts h
    rw [bucketBounds, index_zero (List.cons_ne_nil _ _), last_eq (List.cons_ne_nil _ _)]
    exact returns_pure (List.ne_nil_of_length_pos (by simp [fitPoints]))

/-- The values are divided by the greatest of them, unless this is zero. -/
theorem completes_scale {data : List Point} : Completes (scale data) := by
  rw [scale]
  show Completes (ite _ _ _)
  split_ifs with hpos
  · refine completes_mapM fun point _ => ?_
    rw [div_eq hpos.ne']
    exact completes_pure
  · exact completes_pure

/-- The delays never fail. -/
theorem completes_makeProcessing {floats : Floats} :
    Completes (makeProcessing floats pairs name color) := by
  refine completes_delayCharts.bind fun charts => ?_
  exact completes_scale.bind fun data => completes_pure

/-! ### The queue

The chart of many pairs shows the means of blocks of `step` events and of the remainder. Neither
length is zero where a mean is computed. The index of the last event is read behind the loop, so
there has to be an event. -/

theorem completes_meanPoint {timestamps queues : ℤ} {events : ℕ} (h : events ≠ 0) :
    Completes (meanPoint start timestamps queues events) := by
  have hne : (events : ℚ) ≠ 0 := Nat.cast_ne_zero.mpr h
  rw [meanPoint, div_eq hne, div_eq hne]
  exact completes_ok

/-- An event ends a block, or the loop goes on. -/
theorem completes_meanRound {step : ℕ} (hstep : step ≠ 0) {s : QueueLoop} {item : (ℤ × ℤ) × ℕ} :
    Completes (meanRound start step s item) := by
  rw [meanRound]
  refine (completes_mod hstep).bind fun remainder => ?_
  split_ifs
  · exact (completes_meanPoint hstep).bind fun point => completes_pure
  · exact completes_pure

/-- There is an event if there is a pair. -/
theorem queueCounter_ne_nil (hne : pairs ≠ []) (hpairs : ∀ pair ∈ pairs, pair ≠ []) :
    queueCounter pairs ≠ [] := by
  obtain ⟨pair, pairs, rfl⟩ := List.exists_cons_of_ne_nil hne
  obtain ⟨sent, pair, rfl⟩ := List.exists_cons_of_ne_nil (hpairs pair List.mem_cons_self)
  have hlength : 0 < (queueEvents (sent :: pair)).length := by
    cases pair <;> exact Nat.succ_pos _
  refine List.ne_nil_of_length_pos ?_
  rw [queueCounter, List.length_mergeSort, List.flatMap_cons, List.length_append]
  omega

/-- The queue does not fail if each pair has an entry. -/
theorem completes_makeQueue (hpairs : ∀ pair ∈ pairs, pair ≠ []) :
    Completes (makeQueue pairs name start color) := by
  rw [makeQueue]
  show Completes (ite _ _ _)
  split_ifs with hstep
  · exact completes_pure
  · have hle : pairs.length / fitPoints ≤ pairs.length := Nat.div_le_self ..
    have hne : pairs ≠ [] := List.ne_nil_of_length_pos (by omega)
    have hstep' : pairs.length / fitPoints ≠ 0 := by omega
    refine Completes.bind (returns_foldlM trivial fun _ _ _ _ => completes_meanRound hstep')
      fun s => ?_
    refine (completes_loopIndex (queueCounter_ne_nil hne hpairs)).bind fun i => ?_
    refine (completes_mod hstep').bind fun remainder => ?_
    split_ifs with hrest
    · exact (completes_meanPoint hrest).bind fun point => completes_pure
    · exact completes_pure

/-! ### Fits

Without a window from the command line `calculate_fit` takes the one from the first entry to the
last. If the last entry is before the first the window has no entry, and the unpacking of nothing
fails. Times that are not in order are fitted as long as this is not so. -/

/-- There is an entry, and the last one is not before the first. -/
def Spans (timestamps : List ℤ) : Prop :=
  ∃ h : timestamps ≠ [], timestamps.head h ≤ timestamps.getLast h

instance : Decidable (Spans timestamps) :=
  inferInstanceAs (Decidable (∃ h : timestamps ≠ [], timestamps.head h ≤ timestamps.getLast h))

/-- Times in order span something, if there are any. -/
theorem spans_of_sorted (hne : timestamps ≠ []) (hsorted : timestamps.Pairwise (· ≤ ·)) :
    Spans timestamps :=
  ⟨hne, hsorted.rel_head (List.getLast_mem hne)⟩

/-- The messages in a window, without their numbers. -/
theorem map_fitPointsIn (window : ℚ × ℚ) :
    (fitPointsIn timestamps start window).map (·.1) = timestamps.filter fun timestamp =>
      window.1 ≤ (timestamp - start : ℤ) ∧ ((timestamp - start : ℤ) : ℚ) ≤ window.2 := by
  conv_rhs => rw [← List.zipIdx_map_fst 0 timestamps]
  rw [fitPointsIn, List.filter_map, List.map_map, List.filter_map]
  rfl

/-- There is a message between two times. -/
theorem fitPointsIn_ne_nil (start : ℤ) {first final : ℤ} :
    fitPointsIn timestamps start ((first - start : ℤ), (final - start : ℤ)) ≠ [] ↔
      ∃ timestamp ∈ timestamps, first ≤ timestamp ∧ timestamp ≤ final := by
  rw [Ne, ← List.map_eq_nil_iff (f := (·.1)), map_fitPointsIn, List.filter_eq_nil_iff]
  simp

/-- The window that is taken without parameters. -/
theorem fitWindow_nil (h : timestamps ≠ []) : fitWindow timestamps start [] =
    .ok ((timestamps.head h - start : ℤ), (timestamps.getLast h - start : ℤ)) := by
  rw [fitWindow, index_zero h, last_eq h]
  rfl

/-- `leastsq` returns as many parameters as it starts from, where it takes them at all. -/
theorem returns_call {leastsq : Leastsq} {residual : List ℚ → ℤ → ℕ → ℚ} {x₀ : List ℚ}
    {counts : List ℕ} (h : leastsq.takes x₀.length timestamps.length = true) :
    Returns (leastsq.call residual x₀ timestamps counts) fun x => x.length = x₀.length := by
  rw [Leastsq.call, if_pos h]
  exact ⟨_, rfl, leastsq.length_run ..⟩

theorem takes_of_call {leastsq : Leastsq} {residual : List ℚ → ℤ → ℕ → ℚ} {x₀ : List ℚ}
    {counts : List ℕ} (h : Completes (leastsq.call residual x₀ timestamps counts)) :
    leastsq.takes x₀.length timestamps.length = true := by
  rw [Leastsq.call] at h
  split_ifs at h with htakes
  · exact htakes
  · obtain ⟨x, hx, -⟩ := h
    cases hx

/-- A line can be fitted to the times without a window if they are in order and `leastsq` takes
the two parameters. -/
theorem returns_calculateFit {leastsq : Leastsq} (h : Spans timestamps)
    (htakes : leastsq.takes 2 timestamps.length = true) :
    Returns (calculateFit leastsq timestamps start []) fun x => x.length = 2 := by
  obtain ⟨hne, hle⟩ := h
  have hpoints := (fitPointsIn_ne_nil start).mpr
    ⟨timestamps.head hne, List.head_mem hne, le_refl _, hle⟩
  rw [calculateFit, fitWindow_nil hne, ok_bind]
  refine Completes.bind (completes_unzip.mpr hpoints) fun _ => ?_
  exact returns_call htakes

/-- Nothing else can be fitted. -/
theorem spans_of_calculateFit {leastsq : Leastsq}
    (h : Completes (calculateFit leastsq timestamps start [])) :
    Spans timestamps ∧ leastsq.takes 2 timestamps.length = true := by
  obtain ⟨window, hwindow, h⟩ := h.exists_ok
  have hne : timestamps ≠ [] := by
    rintro rfl
    cases hwindow
  rw [fitWindow_nil hne] at hwindow
  cases hwindow
  obtain ⟨trained, htrained, hcall⟩ := h.exists_ok
  obtain ⟨timestamp, -, hfirst, hfinal⟩ :=
    (fitPointsIn_ne_nil _).mp (completes_unzip.mp ⟨trained, htrained, trivial⟩)
  exact ⟨⟨hne, hfirst.trans hfinal⟩, takes_of_call hcall⟩

variable {leastsq : Leastsq} {args : Arguments}

/-- The fits of the rates are made with `--rates` only. -/
theorem completes_fitRates :
    Completes (fitRates leastsq args timestamps start []) ↔
      (args.buildRates = true →
        Spans timestamps ∧ leastsq.takes 2 timestamps.length = true) := by
  rw [fitRates]
  show Completes (ite _ _ _) ↔ _
  split_ifs with hrates
  · constructor
    · intro h _
      obtain ⟨x, hx, -⟩ := h.exists_ok
      exact spans_of_calculateFit ⟨x, hx, trivial⟩
    · intro h
      obtain ⟨hspans, htakes⟩ := h hrates.2
      refine (returns_calculateFit hspans htakes).bind fun x hx => ?_
      exact (completes_index.mpr (by rw [hx]; exact Nat.one_lt_two)).bind fun _ => completes_pure
  · exact iff_of_true completes_pure fun h => absurd ⟨rfl, h⟩ hrates

/-! ### The loop over the inputs -/

/-- **The inputs that grinder accepts.** Of an input without fits, with a message sent and nothing
odd about its pairs, grinder needs an answer; to build rates it needs times in order, and a
`leastsq` that takes two parameters for as many entries. -/
theorem completes_process (leastsq : Leastsq) (floats : Floats) (args : Arguments) (charts : Charts)
    (input : Input)
    {data : Analyser.Data}
    (hload : jload input.text = some (data, { sends := [], receives := [] }))
    (hfrom : args.fromPoint = none) (hto : args.toPoint = none)
    (hsends : data.sends ≠ []) (hpairs : ∀ pair ∈ data.pairs, pair ≠ []) :
    Completes (process leastsq floats args charts input) ↔ data.receives ≠ [] ∧
      (args.buildRates = true → (Spans data.sends ∧ leastsq.takes 2 data.sends.length = true) ∧
        (Spans data.receives ∧ leastsq.takes 2 data.receives.length = true)) := by
  rw [process, hload, hfrom, hto]
  simp only [ok_bind, slice_none, ite_self]
  constructor
  · -- the functions are taken off one by one, in the order of the calls
    intro h
    obtain ⟨sending, hsending, h⟩ := h.exists_ok
    obtain ⟨receiving, hreceiving, h⟩ := h.exists_ok
    obtain ⟨sent, -, h⟩ := h.exists_ok
    obtain ⟨sendingRate, -, h⟩ := h.exists_ok
    obtain ⟨received, -, h⟩ := h.exists_ok
    obtain ⟨receivingRate, hrate, -⟩ := h.exists_ok
    refine ⟨completes_makeRate.mp ⟨_, hrate, trivial⟩, fun hrates => ⟨?_, ?_⟩⟩
    · exact completes_fitRates.mp ⟨_, hsending, trivial⟩ hrates
    · exact completes_fitRates.mp ⟨_, hreceiving, trivial⟩ hrates
  · -- and put together in the same order
    rintro ⟨hreceives, hspans⟩
    refine (completes_fitRates.mpr fun hrates => (hspans hrates).1).bind fun sending => ?_
    refine (completes_fitRates.mpr fun hrates => (hspans hrates).2).bind fun receiving => ?_
    refine completes_makeCount.bind fun sent => ?_
    refine (completes_makeRate.mpr hsends).bind fun sendingRate => ?_
    refine completes_makeCount.bind fun received => ?_
    refine (completes_makeRate.mpr hreceives).bind fun receivingRate => ?_
    refine completes_makeProcessing.bind fun series => ?_
    exact (completes_makeQueue hpairs).bind fun queue => completes_pure

end Grinder

end DnsTools
