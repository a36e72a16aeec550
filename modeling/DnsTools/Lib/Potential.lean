import DnsTools.Lib.Run
import Mathlib.Algebra.GroupWithZero.Nat
import Mathlib.Algebra.Order.BigOperators.Group.List

/-!
# Costs along a run

A potential is a number that a state is worth. If every step pays for its cost out of the potential,
to which an input may add, then so does a run: all costs together are at most the potential at its
start and all that the inputs have added. A run in which every input costs something can only be as
long as that.

## Main results

* `Run.sum_cost_le` — the costs of a run
* `Run.balance` — the same where each step loses nothing
* `Run.countP_le` — how often a run can go down
-/

namespace Run

variable {S I : Type*} {step : S → I → Option S} {env : S → I → Prop} {s s' : S} {is : List I}
  {P : S → Prop} {potential : S → ℕ}

/-- **What a run costs.** The invariant may be used to see what a step costs. -/
theorem sum_cost_le (potential : S → ℕ) (cost gain : I → ℕ)
    (hpres : ∀ s i s', P s → env s i → step s i = some s' → P s')
    (hcost : ∀ s i s', P s → env s i → step s i = some s' →
      potential s' + cost i ≤ potential s + gain i)
    (h : Run step env s is s') (h0 : P s) :
    potential s' + (is.map cost).sum ≤ potential s + (is.map gain).sum := by
  induction h with
  | nil => exact le_refl _
  | @cons s s₁ s' i is henv hstep _ ih =>
    have hone := hcost s i s₁ h0 henv hstep
    have hrest := ih (hpres s i s₁ h0 henv hstep)
    rw [List.map_cons, List.map_cons, List.sum_cons, List.sum_cons]
    omega

/-- What comes in goes out or stays. -/
theorem balance (potential : S → ℕ) (cost gain : I → ℕ)
    (hpres : ∀ s i s', P s → env s i → step s i = some s' → P s')
    (hcost : ∀ s i s', P s → env s i → step s i = some s' →
      potential s' + cost i = potential s + gain i)
    (h : Run step env s is s') (h0 : P s) :
    potential s' + (is.map cost).sum = potential s + (is.map gain).sum := by
  induction h with
  | nil => rfl
  | @cons s s₁ s' i is henv hstep _ ih =>
    have hone := hcost s i s₁ h0 henv hstep
    have hrest := ih (hpres s i s₁ h0 henv hstep)
    rw [List.map_cons, List.map_cons, List.sum_cons, List.sum_cons]
    omega

/-- What a kind of inputs costs, at one each, is their number. -/
theorem sum_map_ite (kind : I → Bool) (is : List I) :
    (is.map fun i => if kind i then 1 else 0).sum = is.countP kind := by
  induction is with
  | nil => rfl
  | cons i is ih => rw [List.map_cons, List.sum_cons, ih, List.countP_cons, Nat.add_comm]

/-- The same at a fixed price. -/
theorem sum_map_ite_mul (kind : I → Bool) (price : ℕ) (is : List I) :
    (is.map fun i => if kind i then price else 0).sum = price * is.countP kind := by
  induction is with
  | nil => rfl
  | cons i is ih =>
    rw [List.map_cons, List.sum_cons, ih, List.countP_cons, Nat.mul_add, Nat.add_comm]
    split <;> simp

/-- The inputs of a kind, where each of them goes down and no other goes up. -/
theorem countP_le {kind : I → Bool} (hpres : ∀ s i s', P s → env s i → step s i = some s' → P s')
    (hdown : ∀ s i s', P s → env s i → step s i = some s' →
      potential s' + (if kind i then 1 else 0) ≤ potential s)
    (h : Run step env s is s') (h0 : P s) : potential s' + is.countP kind ≤ potential s := by
  have hsum : potential s' + (is.map fun i => if kind i then 1 else 0).sum ≤
      potential s + (is.map fun _ => 0).sum := h.sum_cost_le _ _ _ hpres hdown h0
  rwa [sum_map_ite, List.map_const', List.sum_replicate, nsmul_zero, Nat.add_zero] at hsum

end Run
