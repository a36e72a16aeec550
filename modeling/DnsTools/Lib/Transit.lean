import Mathlib.Algebra.Order.Group.Multiset
import Mathlib.Data.Multiset.Filter

/-!
# What is on its way

A transport that may hold back, reorder and lose what is posted, but makes up nothing and repeats
nothing. What is on its way has no order, so it is a multiset, and something delivered is taken
from it.

`Transit.Carries` says that everything posted so far is in one place: it is on its way, or was lost,
or was delivered.

## Main results

* `Transit.Carries.post`, `Transit.Carries.deliver`, `Transit.Carries.lose` — it stays so
* `Transit.Carries.countP_le`, `Transit.Carries.countP_lt` — of every kind, no more is delivered
  than was posted
-/

/-- What is on its way, and what was lost. -/
structure Transit (α : Type*) where
  /-- It is on its way. -/
  pending : Multiset α
  /-- History: it was lost. -/
  lost : Multiset α

namespace Transit

variable {α : Type*}

/-- Nothing has been posted. -/
def empty : Transit α := ⟨0, 0⟩

/-- These are posted. -/
def post (t : Transit α) (xs : List α) : Transit α := { t with pending := t.pending + xs }

/-- Everything posted is in one place. -/
def Carries (t : Transit α) (posted delivered : List α) : Prop :=
  (posted : Multiset α) = t.pending + t.lost + (delivered : Multiset α)

variable {t : Transit α} {posted posted' delivered : List α} {x : α}

theorem carries_empty : (empty : Transit α).Carries [] [] := rfl

theorem Carries.post (h : t.Carries posted delivered) (xs : List α) :
    (t.post xs).Carries (posted ++ xs) delivered := by
  rw [Carries, ← Multiset.coe_add, h, Transit.post, add_right_comm _ (xs : Multiset α),
    add_right_comm _ (delivered : Multiset α)]

/-- What a list has grown by is posted. -/
theorem Carries.post_drop (h : t.Carries posted delivered) (hgrown : posted <+: posted') :
    (t.post (posted'.drop posted.length)).Carries posted' delivered := by
  obtain ⟨xs, rfl⟩ := hgrown
  rw [List.drop_left]
  exact h.post xs

/-- What is delivered was posted. -/
theorem Carries.mem_posted (h : t.Carries posted delivered) (hx : x ∈ t.pending) :
    x ∈ posted := by
  rw [← Multiset.mem_coe, h]
  exact Multiset.mem_add.mpr (.inl (Multiset.mem_add.mpr (.inl hx)))

theorem Carries.length_eq (h : t.Carries posted delivered) :
    posted.length = t.pending.card + t.lost.card + delivered.length := by
  rw [← Multiset.coe_card posted, h, Multiset.card_add, Multiset.card_add, Multiset.coe_card]

theorem Carries.countP_eq (h : t.Carries posted delivered) (p : α → Bool) :
    posted.countP p = t.pending.countP (p ·) + t.lost.countP (p ·) + delivered.countP p := by
  have hcount := congrArg (Multiset.countP (p ·)) h
  rw [Multiset.countP_add, Multiset.countP_add, Multiset.coe_countP, Multiset.coe_countP] at hcount
  simpa only [Bool.decide_eq_true] using hcount

theorem Carries.countP_le (h : t.Carries posted delivered) (p : α → Bool) :
    delivered.countP p ≤ posted.countP p := by
  rw [h.countP_eq p]
  exact Nat.le_add_left _ _

/-- Of a kind that is on its way, less has been delivered than was posted. -/
theorem Carries.countP_lt (h : t.Carries posted delivered) {p : α → Bool} (hx : x ∈ t.pending)
    (hp : p x) : delivered.countP p < posted.countP p := by
  have hpos : 0 < t.pending.countP (p ·) := Multiset.countP_pos.mpr ⟨x, hx, hp⟩
  rw [h.countP_eq p]
  omega

/-- What is on its way, if nothing was lost. -/
theorem Carries.eq_of_lost (h : t.Carries posted delivered) (hlost : t.lost = 0) :
    t.pending + (delivered : Multiset α) = posted := by
  rw [h, hlost, add_zero]

variable [DecidableEq α]

/-- This is delivered, if anything is. -/
def deliver (t : Transit α) : Option α → Transit α
  | none => t
  | some x => { t with pending := t.pending.erase x }

/-- This is lost. -/
def lose (t : Transit α) (x : α) : Transit α :=
  { pending := t.pending.erase x, lost := x ::ₘ t.lost }

@[simp] theorem lost_deliver (t : Transit α) (o : Option α) : (t.deliver o).lost = t.lost := by
  cases o <;> rfl

/-- Of several that are on their way, the first is delivered, and the others still are. -/
theorem le_deliver {o : Option α} {xs : List α}
    (h : ((o.toList ++ xs : List α) : Multiset α) ≤ t.pending) :
    (∀ x, o = some x → x ∈ t.pending) ∧ (xs : Multiset α) ≤ (t.deliver o).pending := by
  cases o with
  | none => exact ⟨by simp, h⟩
  | some x =>
    have hmem : x ∈ t.pending := Multiset.mem_of_le h (by simp)
    refine ⟨fun x' hx' => Option.some.inj hx' ▸ hmem, ?_⟩
    rw [← Multiset.cons_erase hmem] at h
    exact (Multiset.cons_le_cons_iff x).mp h

theorem Carries.deliver (h : t.Carries posted delivered) {o : Option α}
    (ho : ∀ x, o = some x → x ∈ t.pending) :
    (t.deliver o).Carries posted (delivered ++ o.toList) := by
  cases o with
  | none =>
    rw [Option.toList_none, List.append_nil]
    exact h
  | some x =>
    rw [Carries, h, Option.toList_some, ← Multiset.coe_add, Multiset.coe_singleton]
    calc t.pending + t.lost + delivered
        = (x ::ₘ t.pending.erase x) + t.lost + delivered := by rw [Multiset.cons_erase (ho x rfl)]
      _ = {x} + (t.pending.erase x + t.lost + delivered) := by
          rw [Multiset.cons_add, Multiset.cons_add, Multiset.singleton_add]
      _ = t.pending.erase x + t.lost + (delivered + {x}) := by
          rw [add_comm ({x} : Multiset α), add_assoc (t.pending.erase x + t.lost)]

theorem Carries.lose (h : t.Carries posted delivered) (hx : x ∈ t.pending) :
    (t.lose x).Carries posted delivered := by
  rw [Carries, h, Transit.lose, Multiset.add_cons, ← Multiset.cons_add, Multiset.cons_erase hx]

end Transit
