import DnsTools.Lib.Windows
import DnsTools.Mem.Stats

/-!
# What the memory log holds

The samples are cut into windows by the flushes, and the points that the logger keeps are the
extremes of the window that is open (`Points.Hold`). The sentinel `math.MaxUint64` says that the
window is empty, whatever time `points.write` has left with it. So each flush logs the extremes of
its window, and the log is what is kept of all windows.

## What is assumed

The times of the samples increase, since the order of two points in the log is that of their times.
No `Alloc` is `math.MaxUint64`, which could not be told from the sentinel. A flush is made ten
seconds after the last one as `time.Duration` counts them; over 292 years the count is no longer
exact, and then the windows are those of `Flushes` and not of `FlushesAfter`.

The first sample is logged by itself: `run` starts with a point that it writes at once.

## Main results

* `Points.Hold.set`, `Points.Hold.written_eq` — the points of one window
* `StatsLogger.Logs.sample` — what a sample does to the log
* `statsLogger_log` — the log of a whole run
-/

namespace DnsTools

open Window

/-- The value of a point. -/
def Point.alloc (p : Point) : ℕ := p.m.alloc.toNat

/-- After a flush at the one sample there is a flush at the other: the number of collections has
changed, or more than ten seconds have passed, as `time.Duration` counts them. -/
def Flushes (last curr : Point) : Prop :=
  last.m.numGC ≠ curr.m.numGC ∨ tenSeconds < curr.t - last.t

/-- The same with times that are numbers. -/
def FlushesAfter (last curr : Point) : Prop :=
  last.m.numGC ≠ curr.m.numGC ∨ 10 * 10 ^ 9 < curr.t.toInt - last.t.toInt

/-- A `time.Duration` is exact for 292 years. -/
theorem flushes_iff {last curr : Point} (hlow : -2 ^ 63 ≤ curr.t.toInt - last.t.toInt)
    (hhigh : curr.t.toInt - last.t.toInt < 2 ^ 63) :
    Flushes last curr ↔ FlushesAfter last curr := by
  rw [Flushes, FlushesAfter, Int64.lt_iff_toInt_lt, Int64.toInt_sub,
    Int.bmod_eq_of_le hlow hhigh]
  rfl

/-! ### The points kept -/

/-- The points are the extremes of a window, or say that it is empty. -/
def Points.Hold (pts : Points) (w : List Point) : Prop :=
  w = [] ∧ pts.min.m.alloc = maxUint64 ∧ pts.max.m.alloc = maxUint64 ∨
    w.argmin Point.alloc = some pts.min ∧ w.argmax Point.alloc = some pts.max

variable {pts : Points} {w : List Point} {p first : Point}

theorem newPoints_hold : newPoints.Hold [] := .inl ⟨rfl, rfl, rfl⟩

theorem reset_hold : pts.reset.Hold [] := .inl ⟨rfl, rfl, rfl⟩

/-- `points.set` takes a sample into the window. -/
theorem Points.Hold.set (h : pts.Hold w) (hw : ∀ p ∈ w, p.m.alloc < maxUint64) :
    (pts.set p.t p.m).Hold (w ++ [p]) := by
  right
  rcases h with ⟨rfl, hmin, hmax⟩ | ⟨hmin, hmax⟩
  · simp [Points.set, hmin, hmax]
  · have hne : pts.min.m.alloc ≠ maxUint64 := UInt64.ne_of_lt (hw _ (List.argmin_mem hmin))
    have hne' : pts.max.m.alloc ≠ maxUint64 := UInt64.ne_of_lt (hw _ (List.argmax_mem hmax))
    rw [List.argmin_concat, List.argmax_concat, hmin, hmax]
    constructor
    · simp only [Points.set, hne, decide_false, Bool.false_or, decide_eq_true_eq, gt_iff_lt,
        UInt64.lt_iff_toNat_lt, Point.alloc]
      split_ifs with hlt
      · exact if_pos hlt
      · exact if_neg hlt
    · simp only [Points.set, hne', decide_false, Bool.false_or, decide_eq_true_eq,
        UInt64.lt_iff_toNat_lt, Point.alloc]
      split_ifs with hlt
      · exact if_pos hlt
      · exact if_neg hlt

/-- `points.write` writes the extremes of the window. -/
theorem Points.Hold.written_eq (h : pts.Hold w) (hne : w ≠ [])
    (hsorted : w.Pairwise fun a b => a.t < b.t) : pts.written = extremes Point.alloc w := by
  obtain ⟨hmin, hmax⟩ := h.resolve_left fun h => hne h.1
  have htime : w.Pairwise fun a b => a.t.toInt < b.t.toInt :=
    hsorted.imp fun h => Int64.lt_iff_toInt_lt.mp h
  rw [extremes_eq (t := fun p => p.t.toInt) htime hmin hmax, Points.written]
  simp only [gt_iff_lt, Int64.lt_iff_toInt_lt]

/-! ### The log over a run -/

/-- The log holds the extremes of the windows that are closed, and the points those of the one that
is open. -/
def StatsLogger.Logs (sl : StatsLogger) (samples : List Point) : Prop :=
  ∃ windows last rest, Windowed Flushes samples windows last rest ∧
    sl.log = windows.flatMap (extremes Point.alloc) ∧ sl.pts.Hold rest ∧ sl.prev = last.t ∧
    sl.ngc = last.m.numGC

theorem start_logs (first : Point) : (StatsLogger.start first).Logs [first] := by
  have hhold : (newPoints.set first.t first.m).Hold [first] :=
    newPoints_hold.set (List.forall_mem_nil _)
  have hwritten := hhold.written_eq (List.cons_ne_nil _ _) (List.pairwise_singleton _ _)
  refine ⟨[[first]], first, [], .first first, ?_, reset_hold, rfl, rfl⟩
  rw [List.flatMap_singleton]
  exact hwritten

/-- A sample closes the window or goes into it. -/
theorem StatsLogger.Logs.sample {sl sl' : StatsLogger} {samples : List Point}
    (h : sl.Logs samples) (hstep : loggerStep sl (.sample p) = some sl')
    (hsorted : (samples ++ [p]).Pairwise fun a b => a.t < b.t)
    (halloc : ∀ p ∈ samples, p.m.alloc < maxUint64) : sl'.Logs (samples ++ [p]) := by
  obtain ⟨windows, last, rest, hwindowed, hlog, hhold, hprev, hngc⟩ := h
  have hset : (sl.pts.set p.t p.m).Hold (rest ++ [p]) := by
    refine hhold.set fun q hq => halloc q ?_
    rw [hwindowed.eq_flatten_append]
    exact List.mem_append_right _ hq
  have hflush : (sl.ngc ≠ p.m.numGC || p.t - sl.prev > tenSeconds) = true ↔ Flushes last p := by
    rw [hngc, hprev, Flushes, Bool.or_eq_true, decide_eq_true_eq, decide_eq_true_eq]
  simp only [loggerStep] at hstep
  split_ifs at hstep with hreturned hcut
  · -- The sample is the last one of its window.
    cases hstep
    have hwritten := hset.written_eq (by simp) (by
      rw [hwindowed.eq_flatten_append, List.append_assoc] at hsorted
      exact (List.pairwise_append.mp hsorted).2.1)
    refine ⟨_, _, _, .cut p hwindowed (hflush.mp hcut), ?_, reset_hold, rfl, rfl⟩
    rw [List.flatMap_append, List.flatMap_singleton, ← hwritten, ← hlog]
    rfl
  · cases hstep
    exact ⟨_, _, _, .stay p hwindowed (fun h => hcut (hflush.mpr h)), hlog, hset, hprev, hngc⟩

theorem samplesOf_append (first : Point) (events : List LoggerEvent) (p : Point) :
    samplesOf first (events ++ [.sample p]) = samplesOf first events ++ [p] := by
  simp [samplesOf]

theorem samplesOf_stop (first : Point) (events : List LoggerEvent) :
    samplesOf first (events ++ [.stop]) = samplesOf first events := by
  simp [samplesOf]

/-- The invariant holds all over a run. -/
theorem logs_of_run {events : List LoggerEvent} {sl : StatsLogger}
    (hrun : Run loggerStep (fun _ _ => True) (.start first) events sl)
    (hsorted : (samplesOf first events).Pairwise fun a b => a.t < b.t)
    (halloc : ∀ p ∈ samplesOf first events, p.m.alloc < maxUint64) :
    sl.Logs (samplesOf first events) := by
  refine hrun.invariant_history (P := fun events sl =>
    (samplesOf first events).Pairwise (fun a b => a.t < b.t) →
    (∀ p ∈ samplesOf first events, p.m.alloc < maxUint64) → sl.Logs (samplesOf first events))
    (fun _ _ => start_logs first) ?_ hsorted halloc
  intro events sl i sl' _ ih _ hstep hsorted halloc
  cases i with
  | sample p =>
    rw [samplesOf_append] at hsorted halloc ⊢
    have halloc' : ∀ p ∈ samplesOf first events, p.m.alloc < maxUint64 := fun q hq =>
      halloc q (List.mem_append_left _ hq)
    exact (ih (List.pairwise_append.mp hsorted).1 halloc').sample hstep hsorted halloc'
  | stop =>
    rw [samplesOf_stop] at hsorted halloc ⊢
    simp only [loggerStep] at hstep
    split_ifs at hstep
    cases hstep
    exact ih hsorted halloc

/-- **The memory log of a whole run.** The samples are cut into windows by the flushes, the first
sample being a window of its own, and the log holds of each window the first sample with the least
`Alloc` and the first with the greatest, in the order of their times, and once if they are the same.
So the times in the log increase, and the least and the greatest `Alloc` in it are those of all
samples up to the last flush. -/
theorem statsLogger_log {events : List LoggerEvent} {sl : StatsLogger}
    (hrun : Run loggerStep (fun _ _ => True) (.start first) events sl)
    (hsorted : (samplesOf first events).Pairwise fun a b => a.t < b.t)
    (halloc : ∀ p ∈ samplesOf first events, p.m.alloc < maxUint64) :
    ∃ windows last rest, Windowed Flushes (samplesOf first events) windows last rest ∧
      ((∀ p ∈ samplesOf first events, p.t.toInt - first.t.toInt < 2 ^ 63) →
        Windowed FlushesAfter (samplesOf first events) windows last rest) ∧
      sl.log = windows.flatMap (extremes Point.alloc) ∧
      sl.log.Pairwise (fun a b => a.t < b.t) ∧
      (sl.log.map Point.alloc).minimum = (windows.flatten.map Point.alloc).minimum ∧
      (sl.log.map Point.alloc).maximum = (windows.flatten.map Point.alloc).maximum := by
  obtain ⟨windows, last, rest, hwindowed, hlog, -⟩ := logs_of_run hrun hsorted halloc
  refine ⟨windows, last, rest, hwindowed, ?_, hlog, ?_, ?_, ?_⟩
  · intro hspan
    have hfirst : ∀ p ∈ samplesOf first events, first.t.toInt ≤ p.t.toInt := by
      intro p hp
      rcases List.mem_cons.mp hp with rfl | hp
      · exact le_refl _
      · exact (Int64.lt_iff_toInt_lt.mp ((List.pairwise_cons.mp hsorted).1 p hp)).le
    refine hwindowed.congr fun a ha b hb => ?_
    have := hfirst a ha
    have := hfirst b hb
    have := hspan a ha
    have := hspan b hb
    exact flushes_iff (by omega) (by omega)
  · rw [hlog]
    refine pairwise_flatMap_extremes ?_
    rw [hwindowed.eq_flatten_append] at hsorted
    exact (List.pairwise_append.mp hsorted).1
  · rw [hlog, minimum_flatMap_extremes]
  · rw [hlog, maximum_flatMap_extremes]

/-- Four samples in which the memory first grows and then shrinks, and a collection at the end. -/
def collectedEvents : List LoggerEvent :=
  [.sample ⟨1000, ⟨70, 1⟩⟩, .sample ⟨2000, ⟨90, 1⟩⟩, .sample ⟨3000, ⟨40, 2⟩⟩, .stop]

theorem statsLogger_log_collected :
    ∃ sl, Run loggerStep (fun _ _ => True) (.start ⟨0, ⟨60, 1⟩⟩) collectedEvents sl ∧
      sl.log = [⟨0, ⟨60, 1⟩⟩, ⟨2000, ⟨90, 1⟩⟩, ⟨3000, ⟨40, 2⟩⟩] ∧
      sl.log.Pairwise (fun a b => a.t < b.t) := by
  have hrun : Run loggerStep (fun _ _ => True) (.start ⟨0, ⟨60, 1⟩⟩) collectedEvents _ :=
    .of_foldlM rfl
  obtain ⟨-, -, -, -, -, -, htime, -⟩ := statsLogger_log hrun (by decide) (by decide)
  exact ⟨_, hrun, rfl, htime⟩

end DnsTools
