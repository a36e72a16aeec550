import Mathlib.Data.List.Flatten
import Mathlib.Data.List.MinMax
import Mathlib.Data.List.Sort

/-!
# Windows and their extremes

A sequence that is cut into windows as it is read: the first element is a window of its own, and
after that a window ends with each element that meets a condition relative to the end of the last
one. Of each window one keeps the extremes, which are the first element with the least value and
the first with the greatest, in the order of the sequence.

## What holds

* `Windowed.eq_flatten_append` — the windows are the sequence up to the last cut
* `Window.pairwise_flatMap_extremes` — what is kept is in order
* `Window.minimum_flatMap_extremes`, `Window.maximum_flatMap_extremes` — and its extremes are those
  of the windows
* `Window.extremes_eq` — the extremes of a window, sorted by time
-/

variable {α β : Type*}

/-- The sequence read so far is cut into windows, the last of which ended with the element given,
and a rest that is still open. -/
inductive Windowed (cut : α → α → Prop) : List α → List (List α) → α → List α → Prop
  | first (a : α) : Windowed cut [a] [[a]] a []
  | stay {l : List α} {windows : List (List α)} {last : α} {rest : List α} (a : α)
      (h : Windowed cut l windows last rest) (hcut : ¬ cut last a) :
      Windowed cut (l ++ [a]) windows last (rest ++ [a])
  | cut {l : List α} {windows : List (List α)} {last : α} {rest : List α} (a : α)
      (h : Windowed cut l windows last rest) (hcut : cut last a) :
      Windowed cut (l ++ [a]) (windows ++ [rest ++ [a]]) a []

namespace Windowed

variable {cut cut' : α → α → Prop} {l : List α} {windows : List (List α)} {last : α}
  {rest : List α}

theorem eq_flatten_append (h : Windowed cut l windows last rest) :
    l = windows.flatten ++ rest := by
  induction h with
  | first a => rfl
  | stay a h hcut ih => rw [ih, List.append_assoc]
  | cut a h hcut ih => rw [ih]; simp

theorem last_mem (h : Windowed cut l windows last rest) : last ∈ l := by
  induction h with
  | first a => exact List.mem_singleton_self a
  | stay a h hcut ih => exact List.mem_append_left _ ih
  | cut a h hcut ih => exact List.mem_append_right _ (List.mem_singleton_self a)

/-- Conditions that agree on the sequence cut it in the same way. -/
theorem congr (h : Windowed cut l windows last rest)
    (hcut : ∀ a ∈ l, ∀ b ∈ l, cut a b ↔ cut' a b) : Windowed cut' l windows last rest := by
  induction h with
  | first a => exact .first a
  | stay a h hnot ih =>
    refine .stay a (ih fun x hx y hy => ?_) ?_
    · exact hcut x (List.mem_append_left _ hx) y (List.mem_append_left _ hy)
    · rwa [← hcut _ (List.mem_append_left _ h.last_mem) a (by simp)]
  | cut a h hyes ih =>
    refine .cut a (ih fun x hx y hy => ?_) ?_
    · exact hcut x (List.mem_append_left _ hx) y (List.mem_append_left _ hy)
    · rwa [← hcut _ (List.mem_append_left _ h.last_mem) a (by simp)]

end Windowed

namespace Window

variable [DecidableEq α] [LinearOrder β] {f : α → β} {w : List α} {ws : List (List α)} {a lo hi : α}

/-- The first element with the least value and the first with the greatest. -/
def extremes (f : α → β) (w : List α) : List α :=
  w.filter fun a => w.argmin f = some a ∨ w.argmax f = some a

theorem mem_extremes : a ∈ extremes f w ↔ w.argmin f = some a ∨ w.argmax f = some a := by
  rw [extremes, List.mem_filter, decide_eq_true_eq, and_iff_right_iff_imp]
  rintro (h | h)
  · exact List.argmin_mem h
  · exact List.argmax_mem h

theorem extremes_sublist : (extremes f w).Sublist w := List.filter_sublist

theorem flatMap_extremes_sublist : (ws.flatMap (extremes f)).Sublist ws.flatten := by
  induction ws with
  | nil => exact .refl []
  | cons w ws ih => exact extremes_sublist.append ih

/-- What is kept of a sequence in order is in order. -/
theorem pairwise_flatMap_extremes {r : α → α → Prop} (h : ws.flatten.Pairwise r) :
    (ws.flatMap (extremes f)).Pairwise r :=
  h.sublist flatMap_extremes_sublist

theorem exists_extreme_le (ha : a ∈ ws.flatten) : ∃ b ∈ ws.flatMap (extremes f), f b ≤ f a := by
  obtain ⟨w, hw, ha⟩ := List.mem_flatten.mp ha
  obtain ⟨b, hb⟩ := Option.ne_none_iff_exists'.mp fun h =>
    List.ne_nil_of_mem ha (List.argmin_eq_none (f := f).mp h)
  exact ⟨b, List.mem_flatMap.mpr ⟨w, hw, mem_extremes.mpr (.inl hb)⟩, List.le_of_mem_argmin ha hb⟩

theorem exists_le_extreme (ha : a ∈ ws.flatten) : ∃ b ∈ ws.flatMap (extremes f), f a ≤ f b := by
  obtain ⟨w, hw, ha⟩ := List.mem_flatten.mp ha
  obtain ⟨b, hb⟩ := Option.ne_none_iff_exists'.mp fun h =>
    List.ne_nil_of_mem ha (List.argmax_eq_none (f := f).mp h)
  exact ⟨b, List.mem_flatMap.mpr ⟨w, hw, mem_extremes.mpr (.inr hb)⟩, List.le_of_mem_argmax ha hb⟩

/-- The least value of the windows is among what is kept. -/
theorem minimum_flatMap_extremes :
    ((ws.flatMap (extremes f)).map f).minimum = (ws.flatten.map f).minimum := by
  refine le_antisymm ?_ (List.minimum_anti (flatMap_extremes_sublist.map f).subset)
  refine List.le_minimum_of_forall_le fun v hv => ?_
  obtain ⟨a, ha, rfl⟩ := List.mem_map.mp hv
  obtain ⟨b, hb, hle⟩ := exists_extreme_le (f := f) ha
  exact List.minimum_le_coe_iff.mpr ⟨f b, List.mem_map_of_mem hb, hle⟩

/-- And so is the greatest. -/
theorem maximum_flatMap_extremes :
    ((ws.flatMap (extremes f)).map f).maximum = (ws.flatten.map f).maximum := by
  refine le_antisymm (List.maximum_mono (flatMap_extremes_sublist.map f).subset) ?_
  refine List.maximum_le_of_forall_le fun v hv => ?_
  obtain ⟨a, ha, rfl⟩ := List.mem_map.mp hv
  obtain ⟨b, hb, hle⟩ := exists_le_extreme (f := f) ha
  exact List.coe_le_maximum_iff.mpr ⟨f b, List.mem_map_of_mem hb, hle⟩

/-- In a sequence sorted by time the extremes stand in the order of their times. -/
theorem extremes_eq {t : α → ℤ} (hsorted : w.Pairwise fun a b => t a < t b)
    (hlo : w.argmin f = some lo) (hhi : w.argmax f = some hi) :
    extremes f w = if t lo < t hi then [lo, hi]
      else if t hi < t lo then [hi, lo] else [lo] := by
  have hmem : ∀ a, a ∈ extremes f w ↔ lo = a ∨ hi = a := by
    intro a
    rw [mem_extremes, hlo, hhi, Option.some.injEq, Option.some.injEq]
  let r : α → α → Prop := fun a b => t a < t b
  have : Std.Irrefl r := ⟨fun a => lt_irrefl (t a)⟩
  have : Std.Antisymm r := ⟨fun a b h h' => absurd h (lt_asymm h')⟩
  refine List.Pairwise.eq_of_mem_iff (r := r) (hsorted.sublist extremes_sublist) ?_ fun a => ?_
  · split_ifs <;> simp [r, *]
  · rw [hmem]
    split_ifs with h h'
    · simp [eq_comm]
    · simp [eq_comm, or_comm]
    · -- Two samples at one t are one sample.
      have hnodup : (w.map t).Nodup := List.pairwise_map.mpr (hsorted.imp LT.lt.ne)
      have heq : lo = hi := List.inj_on_of_nodup_map hnodup (List.argmin_mem hlo)
        (List.argmax_mem hhi) (le_antisymm (not_lt.mp h') (not_lt.mp h))
      simp [heq, eq_comm]

end Window
