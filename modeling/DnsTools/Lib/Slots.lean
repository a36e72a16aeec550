import Mathlib.Algebra.GroupWithZero.Nat
import Mathlib.Data.Multiset.Filter
import Mathlib.Data.Multiset.UnionInter

/-!
# Slots that resources move through

A fixed number of slots, each empty or holding a resource. A slot is filled with a resource that
was never used before, and emptied by retiring the resource in it. Which slot is where does not
matter, so they form a multiset.

## What holds

* `Slots.Step.card_eq` — the number of slots never changes
* `Slots.Step.sound` — a resource is in one slot at most, and in none once it is retired

`exists_others`, `coe_append_singleton` and `sum_map_set` are for slots held by the members of a
list.
-/

variable {α : Type*}

/-- Slots, with the resources that have been taken out of them for good. -/
structure Slots (α : Type*) where
  /-- The slots. -/
  slots : Multiset (Option α)
  /-- The resources that were retired. -/
  retired : Multiset α

namespace Slots

/-- The resources in the slots. -/
def live (s : Slots α) : Multiset α := s.slots.filterMap id

/-- The resources that are or were in a slot. -/
def used (s : Slots α) : Multiset α := s.live + s.retired

/-- Nothing happens, an empty slot is filled with a resource, which is new, or the resource in a
slot is retired. -/
inductive Step (s : Slots α) : Option α → Slots α → Prop
  | stay : Step s none s
  | fill (a : α) (rest : Multiset (Option α)) (hslots : s.slots = none ::ₘ rest)
      (hnew : a ∉ s.used) : Step s (some a) ⟨some a ::ₘ rest, s.retired⟩
  | retire (a : α) (rest : Multiset (Option α)) (hslots : s.slots = some a ::ₘ rest) :
      Step s none ⟨none ::ₘ rest, a ::ₘ s.retired⟩

/-- Every resource was used once. -/
def Sound (s : Slots α) : Prop := s.used.Nodup

variable {s s' : Slots α} {a : α}

theorem mem_live : a ∈ s.live ↔ some a ∈ s.slots := by
  simp [live, Multiset.mem_filterMap]

theorem live_cons_none {rest : Multiset (Option α)} (h : s.slots = none ::ₘ rest) :
    s.live = rest.filterMap id := by
  rw [live, h, Multiset.filterMap_cons_none _ _ rfl]

theorem live_cons_some {rest : Multiset (Option α)} (h : s.slots = some a ::ₘ rest) :
    s.live = a ::ₘ rest.filterMap id := by
  rw [live, h, Multiset.filterMap_cons_some id (some a) rest rfl]

variable {new : Option α}

theorem add_toList_none (m : Multiset α) : m + (none : Option α).toList = m :=
  Multiset.add_zero m

theorem add_toList_some (m : Multiset α) (a : α) : m + (some a).toList = a ::ₘ m := by
  rw [Option.toList_some, Multiset.coe_singleton, Multiset.add_comm, Multiset.singleton_add]

theorem Step.card_eq (h : s.Step new s') : s'.slots.card = s.slots.card := by
  cases h with
  | stay => rfl
  | fill a rest hslots hnew => rw [hslots, Multiset.card_cons, Multiset.card_cons]
  | retire a rest hslots => rw [hslots, Multiset.card_cons, Multiset.card_cons]

/-- A step uses the new resource besides those used before. -/
theorem Step.used_eq (h : s.Step new s') : s'.used = s.used + new.toList := by
  cases h with
  | stay => rw [add_toList_none]
  | fill a rest hslots hnew =>
    rw [used, used, live_cons_none hslots, live_cons_some rfl, Multiset.cons_add, add_toList_some]
  | retire a rest hslots =>
    rw [used, used, live_cons_some hslots, live_cons_none rfl, Multiset.cons_add,
      Multiset.add_cons, add_toList_none]

theorem Step.sound (h : s.Step new s') (hs : s.Sound) : s'.Sound := by
  have hused := h.used_eq
  rw [Sound, hused]
  cases h with
  | fill a rest hslots hnew =>
    rw [add_toList_some]
    exact Multiset.nodup_cons.mpr ⟨hnew, hs⟩
  | _ =>
    rw [add_toList_none]
    exact hs

namespace Sound

theorem live_nodup (h : s.Sound) : s.live.Nodup := (Multiset.nodup_add.mp h).1

/-- A retired resource is in no slot. -/
theorem not_mem_slots (h : s.Sound) (ha : a ∈ s.retired) : some a ∉ s.slots := by
  intro hslot
  exact Multiset.disjoint_left.mp (Multiset.nodup_add.mp h).2.2 (mem_live.mpr hslot) ha

/-- A resource is in one slot at most. -/
theorem count_slots_le_one [DecidableEq α] (h : s.Sound) (a : α) :
    s.slots.count (some a) ≤ 1 := by
  by_contra! hcount
  have htwice : some a ::ₘ some a ::ₘ 0 ≤ s.slots := by
    have := Multiset.le_count_iff_replicate_le.mp hcount
    simpa [Multiset.replicate_succ] using this
  have hlive : a ::ₘ a ::ₘ 0 ≤ s.live := Multiset.filterMap_le_filterMap id htwice
  have := Multiset.nodup_of_le hlive h.live_nodup
  simp at this

end Sound

end Slots

/-! ### Slots held by the members of a list -/

theorem coe_append_singleton (l : List α) (a : α) :
    ((l ++ [a] : List α) : Multiset α) = a ::ₘ l := by
  rw [← Multiset.coe_add, Multiset.coe_singleton, Multiset.add_comm, Multiset.singleton_add]

/-- Overwriting a place of a list takes out what was there and puts in the new value. -/
theorem exists_others {l : List α} {i : ℕ} {x : α} (h : l[i]? = some x) :
    ∃ others : Multiset α, (l : Multiset α) = x ::ₘ others ∧
      ∀ y, (l.set i y : Multiset α) = y ::ₘ others := by
  induction l generalizing i with
  | nil => simp at h
  | cons z l ih =>
    cases i with
    | zero =>
      obtain rfl : z = x := by simpa using h
      exact ⟨l, rfl, fun _ => rfl⟩
    | succ i =>
      obtain ⟨others, hl, hset⟩ := ih (by simpa using h)
      refine ⟨z ::ₘ others, ?_, fun y => ?_⟩
      · rw [Multiset.cons_swap, ← hl, Multiset.cons_coe]
      · rw [Multiset.cons_swap, ← hset y, List.set_cons_succ, Multiset.cons_coe]

/-- A sum over a list whose place is overwritten. -/
theorem sum_map_set {l : List α} {i : ℕ} {x : α} (h : l[i]? = some x) (f : α → ℕ) (y : α) :
    ((l.set i y).map f).sum + f x = (l.map f).sum + f y := by
  induction l generalizing i with
  | nil => simp at h
  | cons z l ih =>
    cases i with
    | zero =>
      obtain rfl : z = x := by simpa using h
      rw [List.set_cons_zero, List.map_cons, List.map_cons, List.sum_cons, List.sum_cons]
      omega
    | succ i =>
      have hrest := ih (i := i) (by simpa using h)
      rw [List.set_cons_succ, List.map_cons, List.map_cons, List.sum_cons, List.sum_cons]
      omega
