import Mathlib.Data.Nat.Notation
import Mathlib.Tactic.SplitIfs

/-!
# Channels of Go

A buffered channel: the values that were sent and not received, oldest first, never more than its
capacity, and whether it is closed. A result is `none` where the operation panics, and for `receive`
where it blocks; a receive from a channel that is closed and empty yields no value.

## Main results

* `Channel.receive_isSome_iff` — when a receive goes on
* `Channel.trySend_spec` — a send that must not block finds room, or the value is dropped
-/

/-- A channel. -/
structure Channel (α : Type*) where
  /-- `cap(c)`. -/
  capacity : ℕ
  /-- The values in it. -/
  buffer : List α
  /-- It is closed. -/
  closed : Bool
  /-- They fit. -/
  length_le : buffer.length ≤ capacity
deriving DecidableEq, Repr

namespace Channel

variable {α : Type*}

/-- `make(chan α, capacity)`. -/
def make (capacity : ℕ) : Channel α := ⟨capacity, [], false, Nat.zero_le capacity⟩

/-- There is room for one more. -/
theorem length_append_le {buffer : List α} {capacity : ℕ} (h : buffer.length < capacity) (x : α) :
    (buffer ++ [x]).length ≤ capacity := by
  rw [List.length_append, List.length_singleton]
  exact h

/-- `select { case c <- x: default: }`. -/
def trySend (c : Channel α) (x : α) : Option (Channel α) :=
  if c.closed then none
  else if h : c.buffer.length < c.capacity then
    some { c with buffer := c.buffer ++ [x], length_le := length_append_le h x }
  else some c

/-- `x, ok := <-c`. -/
def receive (c : Channel α) : Option (Option α × Channel α) :=
  match c with
  | ⟨capacity, x :: buffer, closed, h⟩ =>
    some (some x, ⟨capacity, buffer, closed, Nat.le_of_succ_le h⟩)
  | ⟨capacity, [], true, h⟩ => some (none, ⟨capacity, [], true, h⟩)
  | ⟨_, [], false, _⟩ => none

/-- `close(c)`. -/
def close (c : Channel α) : Option (Channel α) :=
  if c.closed then none else some { c with closed := true }

variable {c c' : Channel α} {x : α}

/-- A receive goes on if there is a value, or if there will never be one. -/
theorem receive_isSome_iff : c.receive.isSome ↔ c.buffer ≠ [] ∨ c.closed = true := by
  rcases c with ⟨capacity, _ | ⟨x, buffer⟩, _ | _, h⟩ <;> simp [receive]

/-- What a receive yields is the oldest value. -/
theorem receive_some (h : c.receive = some (some x, c')) :
    c.buffer = x :: c'.buffer ∧ c'.closed = c.closed ∧ c'.capacity = c.capacity := by
  obtain ⟨capacity, _ | ⟨y, buffer⟩, closed, hle⟩ := c
  · cases closed <;> cases h
  · cases h
    exact ⟨rfl, rfl, rfl⟩

/-- A receive yields nothing at the end. -/
theorem receive_none (h : c.receive = some (none, c')) :
    c.buffer = [] ∧ c.closed = true ∧ c' = c := by
  obtain ⟨capacity, _ | ⟨y, buffer⟩, closed, hle⟩ := c
  · cases closed <;> cases h
    exact ⟨rfl, rfl, rfl⟩
  · cases h

/-- A send that must not block. -/
theorem trySend_spec (h : c.trySend x = some c') :
    c.closed = false ∧ c'.closed = false ∧ c'.capacity = c.capacity ∧
      c'.buffer = if c.buffer.length < c.capacity then c.buffer ++ [x] else c.buffer := by
  rw [trySend] at h
  split_ifs at h with hclosed hroom
  all_goals
    cases h
    rw [Bool.not_eq_true] at hclosed
    exact ⟨hclosed, hclosed, rfl, by simp only [hroom, if_true, if_false]⟩

theorem trySend_isSome_iff : (c.trySend x).isSome ↔ c.closed = false := by
  rw [trySend]
  split_ifs with hclosed hroom <;> simp [hclosed]

theorem close_isSome_iff : c.close.isSome ↔ c.closed = false := by
  rw [close]
  split_ifs with hclosed <;> simp [hclosed]

theorem close_spec (h : c.close = some c') :
    c'.closed = true ∧ c'.buffer = c.buffer ∧ c'.capacity = c.capacity := by
  rw [close] at h
  split_ifs at h
  cases h
  exact ⟨rfl, rfl, rfl⟩

end Channel
