import Mathlib.Data.Nat.Notation
import Mathlib.Data.List.Induction

/-!
# Runs of a partial step function

A machine is a step function `step : S → I → Option S` on states `S` and inputs `I`, undefined
where the machine cannot take the input. The world around it is a condition `env : S → I → Prop`
that says which inputs may arrive in which state. `Run step env s is s'` then says that from `s`
the inputs `is` arrive in that order, each allowed by `env` when it does, and lead to `s'`.

## The rules

* `Run.snoc_iff` takes a run apart at its last input; `Run.append` puts two together
* `Run.invariant` — what holds at the start and survives each allowed step holds at the end
* `Run.invariant_history` — the same for a property that also speaks of the inputs so far
* `Run.mono` — a run in a restrictive world is a run in every more permissive one
* `Run.throughout_iff` — when a property holds at every moment exactly if each input meets a
  condition
* `Run.everyStep_iff` — the same for a property of the steps
-/

variable {S I : Type*}

/-- From `s` the machine takes the inputs listed, each one allowed, and arrives at the last
state. -/
inductive Run (step : S → I → Option S) (env : S → I → Prop) : S → List I → S → Prop
  | nil (s : S) : Run step env s [] s
  | cons {s s' s'' : S} {i : I} {is : List I} (henv : env s i) (hstep : step s i = some s')
      (hrun : Run step env s' is s'') : Run step env s (i :: is) s''

namespace Run

variable {step : S → I → Option S} {env env' : S → I → Prop} {s s' s'' : S} {i : I}
  {is is' : List I}

theorem single (henv : env s i) (hstep : step s i = some s') : Run step env s [i] s' :=
  .cons henv hstep (.nil s')

theorem append (h : Run step env s is s') (h' : Run step env s' is' s'') :
    Run step env s (is ++ is') s'' := by
  induction h with
  | nil => exact h'
  | cons henv hstep _ ih => exact .cons henv hstep (ih h')

theorem append_iff :
    Run step env s (is ++ is') s'' ↔ ∃ s', Run step env s is s' ∧ Run step env s' is' s'' := by
  constructor
  · intro h
    induction is generalizing s with
    | nil => exact ⟨s, .nil s, h⟩
    | cons i is ih =>
      cases h with
      | cons henv hstep hrun =>
        obtain ⟨s', h₁, h₂⟩ := ih hrun
        exact ⟨s', .cons henv hstep h₁, h₂⟩
  · rintro ⟨s', h, h'⟩
    exact h.append h'

/-- A run ends with its last step. -/
theorem snoc_iff :
    Run step env s (is ++ [i]) s'' ↔
      ∃ s', Run step env s is s' ∧ env s' i ∧ step s' i = some s'' := by
  rw [append_iff]
  refine exists_congr fun s' => and_congr_right fun _ => ?_
  constructor
  · intro h
    cases h with
    | cons henv hstep hrun =>
      cases hrun with
      | nil => exact ⟨henv, hstep⟩
  · rintro ⟨henv, hstep⟩
    exact single henv hstep

/-- The step function leaves no choice, in whatever world. -/
theorem unique (h : Run step env s is s') (h' : Run step env' s is s'') : s' = s'' := by
  induction h with
  | nil =>
    cases h' with
    | nil => rfl
  | cons _ hstep _ ih =>
    cases h' with
    | cons _ hstep' hrun' =>
      rw [hstep, Option.some.injEq] at hstep'
      subst hstep'
      exact ih hrun'

/-- A step preserved property may use what held before the step. -/
theorem invariant {P : S → Prop}
    (hpres : ∀ s i s', P s → env s i → step s i = some s' → P s')
    (h : Run step env s is s') (h0 : P s) : P s' := by
  induction h with
  | nil => exact h0
  | cons henv hstep _ ih => exact ih (hpres _ _ _ h0 henv hstep)

/-- **Induction over a run from its start**, for properties of the inputs so far and the state
they led to. -/
theorem invariant_history {P : List I → S → Prop} (h0 : P [] s)
    (hpres : ∀ is s' i s'', Run step env s is s' → P is s' → env s' i → step s' i = some s'' →
      P (is ++ [i]) s'')
    (h : Run step env s is s') : P is s' := by
  induction is using List.reverseRecOn generalizing s' with
  | nil =>
    cases h with
    | nil => exact h0
  | append_singleton is i ih =>
    obtain ⟨s₁, hrun, henv, hstep⟩ := snoc_iff.mp h
    exact hpres is s₁ i s' hrun (ih hrun) henv hstep

/-- In a world that allows everything, a run can be computed. -/
theorem of_foldlM (h : is.foldlM step s = some s') : Run step (fun _ _ => True) s is s' := by
  induction is generalizing s with
  | nil =>
    rw [List.foldlM_nil, Option.pure_def, Option.some.injEq] at h
    exact h ▸ .nil s
  | cons i is ih =>
    rw [List.foldlM_cons, Option.bind_eq_bind, Option.bind_eq_some_iff] at h
    obtain ⟨s₁, hstep, h⟩ := h
    exact .cons trivial hstep (ih h)

/-- In a world that can tell what it allows, a run can be computed. -/
theorem of_foldlM_guarded [∀ s i, Decidable (env s i)]
    (h : is.foldlM (fun s i => if env s i then step s i else none) s = some s') :
    Run step env s is s' := by
  induction is generalizing s with
  | nil =>
    rw [List.foldlM_nil, Option.pure_def, Option.some.injEq] at h
    exact h ▸ .nil s
  | cons i is ih =>
    rw [List.foldlM_cons, Option.bind_eq_bind, Option.bind_eq_some_iff] at h
    obtain ⟨s₁, hstep, h⟩ := h
    split_ifs at hstep with henv
    exact .cons henv hstep (ih h)

theorem mono (himp : ∀ s i, env s i → env' s i) (h : Run step env s is s') :
    Run step env' s is s' := by
  induction h with
  | nil s => exact .nil s
  | cons henv hstep _ ih => exact .cons (himp _ _ henv) hstep ih

/-- A world may be exchanged for one that allows as much as long as the invariant holds. -/
theorem mono_of_invariant {P : S → Prop}
    (hpres : ∀ s i s', P s → env s i → step s i = some s' → P s')
    (himp : ∀ s i s', P s → env s i → step s i = some s' → env' s i)
    (h : Run step env s is s') (h0 : P s) : Run step env' s is s' := by
  induction h with
  | nil s => exact .nil s
  | cons henv hstep _ ih =>
    exact .cons (himp _ _ _ h0 henv hstep) hstep (ih (hpres _ _ _ h0 henv hstep))

/-! ### Every moment of a run -/

/-- The property holds of the inputs so far and the state they led to, at the start and after each
step. -/
def Throughout (step : S → I → Option S) (P : List I → S → Prop) (s : S) (is : List I) : Prop :=
  ∀ is' s', is' <+: is → Run step (fun _ _ => True) s is' s' → P is' s'

variable {P : List I → S → Prop}

theorem throughout_nil : Throughout step P s [] ↔ P [] s := by
  constructor
  · intro h
    exact h [] s (List.prefix_refl _) (.nil s)
  · intro h is' s' hpart hrun
    obtain rfl := List.prefix_nil.mp hpart
    cases hrun with
    | nil => exact h

theorem throughout_snoc (hrun : Run step env s (is ++ [i]) s') :
    Throughout step P s (is ++ [i]) ↔ Throughout step P s is ∧ P (is ++ [i]) s' := by
  have hrun' := hrun.mono (fun _ _ _ => trivial : ∀ s i, env s i → True)
  constructor
  · intro h
    refine ⟨fun is' s' hpart => h is' s' (hpart.trans (List.prefix_append _ _)), ?_⟩
    exact h _ _ (List.prefix_refl _) hrun'
  · rintro ⟨hbefore, hlast⟩ is' s'' hpart hrun''
    rcases List.prefix_concat_iff.mp hpart with rfl | hpart
    · exact hrun'.unique hrun'' ▸ hlast
    · exact hbefore is' s'' hpart hrun''

/-- **An exact condition.** If at every step, after a past in which the property held, a condition
on the input is what decides whether the property goes on to hold, then it holds throughout exactly
the runs in which every input meets the condition. -/
theorem throughout_iff (h0 : P [] s)
    (hstep : ∀ is s' i s'', Run step env s is s' → Throughout step P s is → env s' i →
      step s' i = some s'' → (env' s' i ↔ P (is ++ [i]) s''))
    (hrun : Run step env s is s') : Throughout step P s is ↔ Run step env' s is s' := by
  induction is using List.reverseRecOn generalizing s' with
  | nil =>
    cases hrun with
    | nil => exact ⟨fun _ => .nil s, fun _ => throughout_nil.mpr h0⟩
  | append_singleton is i ih =>
    obtain ⟨s₁, hbefore, henv, hlast⟩ := snoc_iff.mp hrun
    rw [throughout_snoc hrun, snoc_iff]
    constructor
    · rintro ⟨hpast, hP⟩
      exact ⟨s₁, (ih hbefore).mp hpast, (hstep is s₁ i s' hbefore hpast henv hlast).mpr hP, hlast⟩
    · rintro ⟨s₂, hrun₂, henv', hlast'⟩
      obtain rfl := hbefore.unique hrun₂
      have hpast := (ih hbefore).mpr hrun₂
      exact ⟨hpast, (hstep is s₁ i s' hbefore hpast henv hlast).mp henv'⟩

/-! ### Every step of a run -/

/-- The property holds of each step: of the state before it, the input and the state after it. -/
def EveryStep (step : S → I → Option S) (Q : S → I → S → Prop) (s : S) (is : List I) : Prop :=
  ∀ is' i s' s'', is' ++ [i] <+: is → Run step (fun _ _ => True) s is' s' → step s' i = some s'' →
    Q s' i s''

variable {Q : S → I → S → Prop}

theorem everyStep_nil : EveryStep step Q s [] := by
  intro is' i s' s'' hpart
  simp at hpart

theorem everyStep_snoc (hrun : Run step env s is s') (hstep : step s' i = some s'') :
    EveryStep step Q s (is ++ [i]) ↔ EveryStep step Q s is ∧ Q s' i s'' := by
  have hrun' := hrun.mono (fun _ _ _ => trivial : ∀ s i, env s i → True)
  constructor
  · intro h
    refine ⟨fun is' i' s₁ s₂ hpart => h is' i' s₁ s₂ (hpart.trans (List.prefix_append _ _)), ?_⟩
    exact h is i s' s'' (List.prefix_refl _) hrun' hstep
  · rintro ⟨hbefore, hlast⟩ is' i' s₁ s₂ hpart hrun₁ hstep₁
    rcases List.prefix_concat_iff.mp hpart with heq | hpart
    · obtain ⟨rfl, hi⟩ := List.append_inj' heq rfl
      obtain rfl := (List.cons.inj hi).1
      obtain rfl := hrun'.unique hrun₁
      obtain rfl := Option.some.inj (hstep.symm.trans hstep₁)
      exact hlast
    · exact hbefore is' i' s₁ s₂ hpart hrun₁ hstep₁

/-- **An exact condition on each step.** If a condition on the input is what decides whether the
property holds of a step, from any state that the invariant allows, then the property holds of every
step of exactly the runs in which every input meets the condition. -/
theorem everyStep_iff {P : S → Prop} (h0 : P s)
    (hpres : ∀ s i s', P s → env s i → step s i = some s' → P s')
    (hstep : ∀ s i s', P s → step s i = some s' → (env' s i ↔ Q s i s'))
    (hrun : Run step env s is s') : EveryStep step Q s is ↔ Run step env' s is s' := by
  induction is using List.reverseRecOn generalizing s' with
  | nil =>
    cases hrun with
    | nil => exact ⟨fun _ => .nil s, fun _ => everyStep_nil⟩
  | append_singleton is i ih =>
    obtain ⟨s₁, hbefore, -, hlast⟩ := snoc_iff.mp hrun
    have hcond := hstep s₁ i s' (hbefore.invariant hpres h0) hlast
    rw [everyStep_snoc hbefore hlast, ih hbefore, snoc_iff, ← hcond]
    constructor
    · rintro ⟨hpast, henv'⟩
      exact ⟨s₁, hpast, henv', hlast⟩
    · rintro ⟨s₂, hpast, henv', -⟩
      obtain rfl := hbefore.unique hpast
      exact ⟨hpast, henv'⟩

end Run
