import DnsTools.Mem.StatsLog

/-!
# Flushes at any times

The times of the samples are what the clock says, and a clock can stand still or be set back.
`points.set` looks at `Alloc` alone, so it keeps the extremes of the window whatever the times are,
but `points.write` takes two points with one time for one point, and writes that with the least
`Alloc` only.

## Main result

* `logsExtremes_iff` — exactly the windows of which both extremes are logged
-/

namespace DnsTools

/-- Calls of `points.set`, one for each sample. -/
def Points.setAll (pts : Points) (samples : List Point) : Points :=
  samples.foldl (fun pts p => pts.set p.t p.m) pts

/-- Both extremes of a window are among the points written, and there is a single point only for a
window in which they are equal. -/
structure LogsExtremes (written w : List Point) : Prop where
  /-- The least `Alloc`. -/
  least : ∃ p ∈ written, p ∈ w ∧ ∀ q ∈ w, p.alloc ≤ q.alloc
  /-- The greatest `Alloc`. -/
  greatest : ∃ p ∈ written, p ∈ w ∧ ∀ q ∈ w, q.alloc ≤ p.alloc
  /-- One point for both. -/
  single : written.length = 1 → ∀ p ∈ w, ∀ q ∈ w, p.alloc = q.alloc

/-- If the first sample with the least `Alloc` and the first with the greatest have the same time,
they have the same `Alloc`. -/
def ExtremesApart (w : List Point) : Prop :=
  ∀ lo ∈ w.argmin Point.alloc, ∀ hi ∈ w.argmax Point.alloc, lo.t = hi.t → lo.alloc = hi.alloc

variable {pts : Points} {w w' : List Point}

/-- The points kept are the extremes of all samples since the last flush. -/
theorem Points.Hold.setAll (h : pts.Hold w) (halloc : ∀ p ∈ w ++ w', p.m.alloc < maxUint64) :
    (pts.setAll w').Hold (w ++ w') := by
  induction w' generalizing pts w with
  | nil =>
    rw [List.append_nil]
    exact h
  | cons p w' ih =>
    have hset : (pts.set p.t p.m).Hold (w ++ [p]) :=
      h.set fun q hq => halloc q (List.mem_append_left _ hq)
    rw [List.append_cons] at halloc ⊢
    exact ih hset halloc

theorem Points.written_of_time_eq (h : pts.min.t = pts.max.t) : pts.written = [pts.min] := by
  simp [Points.written, h]

/-- A window whose extremes have different times is logged with both. -/
theorem Points.Hold.logsExtremes (h : pts.Hold w) (hne : w ≠ []) (hapart : ExtremesApart w) :
    LogsExtremes pts.written w := by
  obtain ⟨hmin, hmax⟩ := h.resolve_left fun h => hne h.1
  have hleast : ∀ q ∈ w, pts.min.alloc ≤ q.alloc := fun q hq => List.le_of_mem_argmin hq hmin
  have hgreatest : ∀ q ∈ w, q.alloc ≤ pts.max.alloc := fun q hq => List.le_of_mem_argmax hq hmax
  have hlo := List.argmin_mem hmin
  have hhi := List.argmax_mem hmax
  rw [Points.written]
  split_ifs with hlt hgt
  · exact ⟨⟨_, by simp, hlo, hleast⟩, ⟨_, by simp, hhi, hgreatest⟩, fun hone => by simp at hone⟩
  · exact ⟨⟨_, by simp, hlo, hleast⟩, ⟨_, by simp, hhi, hgreatest⟩, fun hone => by simp at hone⟩
  · have htime : pts.min.t = pts.max.t :=
      Int64.le_antisymm (Int64.not_lt.mp hgt) (Int64.not_lt.mp hlt)
    have heq : pts.min.alloc = pts.max.alloc := hapart _ hmin _ hmax htime
    have hsame : ∀ q ∈ w, q.alloc = pts.min.alloc := fun q hq =>
      le_antisymm (heq ▸ hgreatest q hq) (hleast q hq)
    refine ⟨⟨_, by simp, hlo, hleast⟩, ⟨_, by simp, hlo, fun q hq => (hsame q hq).le⟩, ?_⟩
    exact fun _ p hp q hq => (hsame p hp).trans (hsame q hq).symm

/-- **Exactly the windows of which both extremes are logged.** Whatever the times are, the next
flush writes a point with the least `Alloc` of the window and one with the greatest, and one point
only if they are equal, if and only if the two that are kept do not have the same time and a
different `Alloc`. -/
theorem logsExtremes_iff (hne : w ≠ []) (halloc : ∀ p ∈ w, p.m.alloc < maxUint64) :
    LogsExtremes (pts.reset.setAll w).written w ↔ ExtremesApart w := by
  have hhold : (pts.reset.setAll w).Hold w := reset_hold.setAll halloc
  refine ⟨fun h lo hlo hi hhi htime => ?_, hhold.logsExtremes hne⟩
  obtain ⟨hmin, hmax⟩ := hhold.resolve_left fun h => hne h.1
  obtain rfl : _ = lo := Option.some.inj (hmin.symm.trans hlo)
  obtain rfl : _ = hi := Option.some.inj (hmax.symm.trans hhi)
  -- Two points at one time are written as one.
  have hwritten := Points.written_of_time_eq htime
  exact h.single (congrArg List.length hwritten) _ (List.argmin_mem hmin) _ (List.argmax_mem hmax)

theorem logsExtremes_iff_growing :
    LogsExtremes (newPoints.reset.setAll [⟨1, ⟨10, 1⟩⟩, ⟨2, ⟨20, 1⟩⟩]).written
        [⟨1, ⟨10, 1⟩⟩, ⟨2, ⟨20, 1⟩⟩] ↔
      ExtremesApart [⟨1, ⟨10, 1⟩⟩, ⟨2, ⟨20, 1⟩⟩] :=
  logsExtremes_iff (List.cons_ne_nil _ _) (by decide)

/-- The points that a logger starts with are as a flush leaves them. -/
example : newPoints.reset = newPoints := rfl

/-- Two samples at one time. -/
def tiedSamples : List Point := [⟨1, ⟨10, 1⟩⟩, ⟨1, ⟨20, 1⟩⟩]

/-- The greatest `Alloc` of a window is lost. -/
theorem tiedSamples_not_logged :
    ¬LogsExtremes (newPoints.setAll tiedSamples).written tiedSamples := by
  intro h
  have hwritten : (newPoints.setAll tiedSamples).written = [⟨1, ⟨10, 1⟩⟩] := by decide
  have hone := h.single (by rw [hwritten]; rfl)
  exact absurd (hone ⟨1, ⟨10, 1⟩⟩ (by decide) ⟨1, ⟨20, 1⟩⟩ (by decide)) (by decide)

end DnsTools
