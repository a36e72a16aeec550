import DnsTools.Lib.Run

/-!
# First in, first out

What a bounded queue is for, independently of how it is laid out. Its contents are a list, oldest
first. An implementation shows itself through `Event`s: it accepts an element or refuses it, it
answers that it is empty, or it yields its front and either keeps it or removes it.

`Step xs e ys` says that an event is right for the contents `xs` and leaves `ys`. A bounded queue
may refuse at any moment, so `refused` is always right; every other event is determined by the
contents. `Trace` chains steps.

## Main results

* `Fifo.Trace.conservation` — initial contents and everything accepted, in order, are everything
  removed, in order, and the final contents
* `Fifo.exists_trace_of_simulation` — an implementation that simulates `Step` one operation at a
  time never gets stuck, and every sequence of operations yields a trace
-/

namespace Fifo

variable {α : Type*}

/-- What one operation on a queue shows. -/
inductive Event (α : Type*)
  /-- The element was appended. -/
  | accepted (a : α)
  /-- The element was turned away. -/
  | refused (a : α)
  /-- There was nothing to yield. -/
  | empty
  /-- The front was yielded and kept. -/
  | peeked (a : α)
  /-- The front was yielded and removed. -/
  | removed (a : α)
deriving DecidableEq, Repr

/-- What an event adds to the contents. -/
def Event.added : Event α → List α
  | .accepted a => [a]
  | _ => []

/-- What an event takes from the contents. -/
def Event.taken : Event α → List α
  | .removed a => [a]
  | _ => []

/-- The event is right for the contents on the left and leaves those on the right. -/
inductive Step : List α → Event α → List α → Prop
  | accepted (xs : List α) (a : α) : Step xs (.accepted a) (xs ++ [a])
  | refused (xs : List α) (a : α) : Step xs (.refused a) xs
  | empty : Step [] .empty []
  | peeked (a : α) (xs : List α) : Step (a :: xs) (.peeked a) (a :: xs)
  | removed (a : α) (xs : List α) : Step (a :: xs) (.removed a) xs

/-- Chained steps. -/
inductive Trace : List α → List (Event α) → List α → Prop
  | nil (xs : List α) : Trace xs [] xs
  | cons {xs ys zs : List α} {e : Event α} {es : List (Event α)} (hstep : Step xs e ys)
      (htrace : Trace ys es zs) : Trace xs (e :: es) zs

theorem Step.conservation {xs ys : List α} {e : Event α} (h : Step xs e ys) :
    xs ++ e.added = e.taken ++ ys := by
  cases h <;> simp [Event.added, Event.taken]

/-- Everything that went in came out in the same order or is still there. -/
theorem Trace.conservation {xs ys : List α} {es : List (Event α)} (h : Trace xs es ys) :
    xs ++ es.flatMap Event.added = es.flatMap Event.taken ++ ys := by
  induction h with
  | nil xs => simp
  | @cons xs ys zs e es hstep _ ih =>
    calc xs ++ (e :: es).flatMap Event.added
        = (xs ++ e.added) ++ es.flatMap Event.added := by
          rw [List.flatMap_cons, List.append_assoc]
      _ = e.taken ++ (ys ++ es.flatMap Event.added) := by rw [hstep.conservation, List.append_assoc]
      _ = (e :: es).flatMap Event.taken ++ zs := by
          rw [ih, List.flatMap_cons, List.append_assoc]

/-! ### Implementations -/

variable {S O : Type*}

/-- Run a list of operations and collect the events they show. -/
def runEvents (step : S → O → Option (Event α × S)) : S → List O → Option (List (Event α) × S)
  | s, [] => some ([], s)
  | s, o :: os => do
    let (e, s) ← step s o
    let (es, s) ← runEvents step s os
    return (e :: es, s)

/-- **The simulation rule.** If every operation, from every state that represents some contents,
succeeds with an event that is right for them, then so does every sequence of operations. -/
theorem exists_trace_of_simulation {step : S → O → Option (Event α × S)}
    {R : S → List α → Prop} {P : O → Prop}
    (hsim : ∀ s xs o, R s xs → P o →
      ∃ e s' ys, step s o = some (e, s') ∧ Step xs e ys ∧ R s' ys)
    {s : S} {xs : List α} (h : R s xs) {os : List O} (hos : ∀ o ∈ os, P o) :
    ∃ es s' ys, runEvents step s os = some (es, s') ∧ Trace xs es ys ∧ R s' ys := by
  induction os generalizing s xs with
  | nil => exact ⟨[], s, xs, rfl, .nil xs, h⟩
  | cons o os ih =>
    obtain ⟨e, s₁, ys, hstep, hright, h₁⟩ := hsim s xs o h (hos o (List.mem_cons_self ..))
    obtain ⟨es, s₂, zs, hrun, htrace, h₂⟩ := ih h₁ fun o' ho' => hos o' (List.mem_cons_of_mem o ho')
    refine ⟨e :: es, s₂, zs, ?_, .cons hright htrace, h₂⟩
    simp only [runEvents, hstep, hrun, Option.bind_eq_bind, Option.bind_some]
    rfl

end Fifo
