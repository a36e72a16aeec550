import Mathlib.Data.List.Basic
import Mathlib.Data.List.Induction
import Mathlib.Data.Rat.Floor
import Mathlib.Tactic.Linarith

/-!
# Programs in Python

The operations on lists and numbers that can fail, with the exception they raise, and what has to be
shown of a program that never does (`Python.Completes`).

A piece of a program is a value in `Except`. `Python.Returns` is the one way to speak of it: no
exception is raised, and something holds of what is returned. Statements are put together by `bind`,
loops by `foldlM` and list comprehensions by `mapM`, and for each there is a rule, so a proof about
a program has the shape of the program. Where the question is exactly when a program completes,
there are equivalences instead, and `exists_of_bind_eq_ok` reads a program that has completed from
its front.

The operations are those of Python 2. Integers have no bound there, and a `float` is a rational
number here: what the programs compute with them is means and slopes, whose rounding is left out.

## The rules

* `Python.Returns.bind` — one statement after another
* `Python.returns_foldlM`, `Python.returns_foldlM_history` — a loop with an invariant
* `Python.completes_mapM`, `Python.returns_mapM`, `Python.mapM_eq_ok` — a list comprehension
-/

/-- An exception. -/
inductive PyError
  | indexError
  | nameError
  | typeError
  | unboundLocalError
  | valueError
  | zeroDivisionError
deriving DecidableEq, Repr

/-- What a piece of a program returns, or the exception it ends with. -/
abbrev Py := Except PyError

namespace Python

section Operations

variable {α β : Type*}

/-- `xs[i]`. -/
def index (xs : List α) (i : ℕ) : Py α :=
  match xs[i]? with
  | some x => .ok x
  | none => .error .indexError

/-- `xs[-1]`. -/
def last (xs : List α) : Py α :=
  match xs.getLast? with
  | some x => .ok x
  | none => .error .indexError

/-- `max(xs)`. -/
def max (xs : List ℤ) : Py ℤ :=
  match xs.max? with
  | some x => .ok x
  | none => .error .valueError

/-- `min(xs)`. -/
def min (xs : List ℤ) : Py ℤ :=
  match xs.min? with
  | some x => .ok x
  | none => .error .valueError

/-- `x / y`, one of the two a `float`. -/
def div (x y : ℚ) : Py ℚ := if y = 0 then .error .zeroDivisionError else .ok (x / y)

/-- `round(x)` of Python 2: the nearest integer, and of two nearest ones that away from zero. -/
def round (x : ℚ) : ℤ := if 0 ≤ x then ⌊x + 1 / 2⌋ else ⌈x - 1 / 2⌉

/-- `int(x)`. -/
def int (x : ℚ) : ℤ := if 0 ≤ x then ⌊x⌋ else ⌈x⌉

/-- `m % n`. -/
def mod (m n : ℕ) : Py ℕ := if n = 0 then .error .zeroDivisionError else .ok (m % n)

/-- `xs, ys = zip(*points)`. -/
def unzip (points : List (α × β)) : Py (List α × List β) :=
  if points.isEmpty then .error .valueError else .ok points.unzip

/-- `x, y = xs`. -/
def unpack (xs : List α) : Py (α × α) :=
  match xs with
  | [x, y] => .ok (x, y)
  | _ => .error .valueError

/-- What a loop `for i, x in enumerate(xs)` leaves in `i`. -/
def loopIndex (xs : List α) : Py ℕ :=
  if xs.isEmpty then .error .unboundLocalError else .ok (xs.length - 1)

/-- `xs[k::step]`. -/
def stride (step : ℕ) : ℕ → List α → List α
  | _, [] => []
  | 0, x :: xs => x :: stride step (step - 1) xs
  | k + 1, _ :: xs => stride step k xs

/-- The position that an index of a slice stands for, in a list of length `n`. -/
def sliceIndex (n : ℕ) (i : ℤ) : ℕ := if i < 0 then (n + i).toNat else Nat.min i.toNat n

/-- `xs[i:j]`, where `i` and `j` may be missing. -/
def slice (i j : Option ℤ) (xs : List α) : List α :=
  (xs.take ((j.map (sliceIndex xs.length)).getD xs.length)).drop
    ((i.map (sliceIndex xs.length)).getD 0)

end Operations

section Rules

variable {α β : Type} {r : Py α} {P : α → Prop} {Q : β → Prop}

/-- No exception is raised, and `P` holds of what is returned. -/
def Returns (r : Py α) (P : α → Prop) : Prop := ∃ a, r = .ok a ∧ P a

/-- No exception is raised. -/
def Completes (r : Py α) : Prop := Returns r fun _ => True

theorem returns_ok {a : α} (h : P a) : Returns (.ok a) P := ⟨a, rfl, h⟩

theorem returns_ok_iff {a : α} : Returns (.ok a) P ↔ P a := by
  constructor
  · rintro ⟨_, ⟨⟩, h⟩
    exact h
  · exact returns_ok

theorem returns_pure {a : α} (h : P a) : Returns (pure a) P := ⟨a, rfl, h⟩

theorem ok_bind {a : α} {f : α → Py β} : ((.ok a : Py α) >>= f) = f a := rfl

/-- What has been returned in front of a result. -/
theorem exists_of_bind_eq_ok {f : α → Py β} {b : β} (h : r >>= f = .ok b) :
    ∃ a, r = .ok a ∧ f a = .ok b := by
  cases r with
  | error e => cases h
  | ok a => exact ⟨a, rfl, h⟩

theorem not_returns_error {e : PyError} : ¬ Returns (.error e) P := by
  rintro ⟨a, ⟨⟩, -⟩

theorem Returns.bind {f : α → Py β} (h : Returns r P) (hf : ∀ a, P a → Returns (f a) Q) :
    Returns (r >>= f) Q := by
  obtain ⟨a, rfl, ha⟩ := h
  exact hf a ha

theorem completes_ok {a : α} : Completes (.ok a) := returns_ok trivial

theorem completes_pure {a : α} : Completes (pure a : Py α) := returns_pure trivial

theorem Completes.bind {f : α → Py β} (h : Completes r) (hf : ∀ a, Returns (f a) Q) :
    Returns (r >>= f) Q :=
  Returns.bind h fun a _ => hf a

/-- A program that completes has completed its first statement. -/
theorem Completes.exists_ok {f : α → Py β} (h : Completes (r >>= f)) :
    ∃ a, r = .ok a ∧ Completes (f a) := by
  cases r with
  | error e => exact absurd h not_returns_error
  | ok a => exact ⟨a, rfl, h⟩

/-- A loop keeps what its rounds keep. -/
theorem returns_foldlM {f : β → α → Py β} {xs : List α} {b : β} (h : Q b)
    (hf : ∀ b, Q b → ∀ x ∈ xs, Returns (f b x) Q) : Returns (xs.foldlM f b) Q := by
  induction xs generalizing b with
  | nil => exact returns_pure h
  | cons x xs ih =>
    rw [List.foldlM_cons]
    refine (hf b h x List.mem_cons_self).bind fun b' h' => ?_
    exact ih h' fun b hb y hy => hf b hb y (List.mem_cons_of_mem x hy)

/-- A loop keeps what its rounds keep, and that may be about the items it has gone through. -/
theorem returns_foldlM_history {f : β → α → Py β} {xs : List α} {b : β} {R : List α → β → Prop}
    (h : R [] b)
    (hf : ∀ seen b x, seen ++ [x] <+: xs → R seen b → Returns (f b x) (R (seen ++ [x]))) :
    Returns (xs.foldlM f b) (R xs) := by
  induction xs using List.reverseRecOn with
  | nil => exact returns_pure h
  | append_singleton xs x ih =>
    rw [List.foldlM_append]
    have hxs : Returns (xs.foldlM f b) (R xs) := ih fun seen b y hfirst =>
      hf seen b y (hfirst.trans (List.prefix_append _ _))
    refine hxs.bind fun b' h' => ?_
    rw [List.foldlM_cons]
    exact (hf xs b' x (List.prefix_refl _) h').bind fun b'' h'' => returns_pure h''

/-- A list comprehension completes if each of its items does. -/
theorem completes_mapM {f : α → Py β} {xs : List α} (hf : ∀ x ∈ xs, Completes (f x)) :
    Completes (xs.mapM f) := by
  induction xs with
  | nil => exact completes_pure
  | cons x xs ih =>
    rw [List.mapM_cons]
    refine (hf x List.mem_cons_self).bind fun y => ?_
    refine Completes.bind (ih fun z hz => hf z (List.mem_cons_of_mem x hz)) fun ys => ?_
    exact completes_pure

/-- What a list comprehension returns, item by item. -/
theorem returns_mapM {γ : Type} {f : α → Py β} {xs : List α} (read : β → γ) (value : α → γ)
    (hf : ∀ x ∈ xs, Returns (f x) fun y => read y = value x) :
    Returns (xs.mapM f) fun ys => ys.map read = xs.map value := by
  induction xs with
  | nil => exact returns_pure rfl
  | cons x xs ih =>
    rw [List.mapM_cons]
    refine (hf x List.mem_cons_self).bind fun y hy => ?_
    refine (ih fun z hz => hf z (List.mem_cons_of_mem x hz)).bind fun ys hys => returns_pure ?_
    rw [List.map_cons, List.map_cons, hy, hys]

theorem completes_mapM_iff {f : α → Py β} {xs : List α} :
    Completes (xs.mapM f) ↔ ∀ x ∈ xs, Completes (f x) := by
  refine ⟨fun h => ?_, completes_mapM⟩
  induction xs with
  | nil => exact fun _ hx => absurd hx List.not_mem_nil
  | cons x xs ih =>
    rw [List.mapM_cons] at h
    obtain ⟨y, hy, h⟩ := h.exists_ok
    obtain ⟨ys, hys, -⟩ := h.exists_ok
    exact List.forall_mem_cons.mpr ⟨⟨y, hy, trivial⟩, ih ⟨ys, hys, trivial⟩⟩

theorem map_bind {γ : Type} {f : α → Py β} {g : β → γ} :
    (r >>= f).map g = r >>= fun a => (f a).map g := by
  cases r <;> rfl

/-! ### The operations -/

variable {xs : List α}

theorem index_zero (h : xs ≠ []) : index xs 0 = .ok (xs.head h) := by
  obtain ⟨x, xs, rfl⟩ := List.exists_cons_of_ne_nil h
  rfl

theorem completes_index {i : ℕ} : Completes (index xs i) ↔ i < xs.length := by
  rw [index]
  cases h : xs[i]? with
  | none => exact iff_of_false not_returns_error (List.getElem?_eq_none_iff.mp h).not_gt
  | some x => exact iff_of_true completes_ok (List.getElem?_eq_some_iff.mp h).1

theorem last_eq (h : xs ≠ []) : last xs = .ok (xs.getLast h) := by
  rw [last, List.getLast?_eq_some_getLast h]

theorem completes_last (h : xs ≠ []) : Completes (last xs) := by
  rw [last_eq h]
  exact completes_ok

theorem div_eq {x y : ℚ} (h : y ≠ 0) : div x y = .ok (x / y) := if_neg h

theorem int_intCast (n : ℤ) : int n = n := by
  rw [int, Int.floor_intCast, Int.ceil_intCast, ite_self]

theorem round_intCast (n : ℤ) : round n = n := by
  have hfloor : ⌊(1 / 2 : ℚ)⌋ = 0 := Int.floor_eq_zero_iff.mpr ⟨by norm_num, by norm_num⟩
  rw [round, sub_eq_add_neg, Int.floor_intCast_add, Int.ceil_intCast_add, Int.ceil_neg, hfloor,
    neg_zero, add_zero, ite_self]

/-- Nothing is nearer. -/
theorem abs_round_sub_le (x : ℚ) : |(round x : ℚ) - x| ≤ 1 / 2 := by
  rw [round, abs_le]
  split_ifs
  · have hle := Int.floor_le (x + 1 / 2)
    have hlt := Int.lt_floor_add_one (x + 1 / 2)
    constructor <;> linarith
  · have hle := Int.le_ceil (x - 1 / 2)
    have hlt := Int.ceil_lt_add_one (x - 1 / 2)
    constructor <;> linarith

theorem round_mono {x y : ℚ} (h : x ≤ y) : round x ≤ round y := by
  rw [round, round]
  split_ifs with hx hy hy
  · exact Int.floor_le_floor (by linarith)
  · exact absurd (hx.trans h) hy
  · have hceil : ⌈x - 1 / 2⌉ ≤ 0 := Int.ceil_le.mpr (by push_cast; linarith)
    have hfloor : 0 ≤ ⌊y + 1 / 2⌋ := Int.floor_nonneg.mpr (by linarith)
    exact hceil.trans hfloor
  · exact Int.ceil_le_ceil (by linarith)

theorem completes_mod {m n : ℕ} (h : n ≠ 0) : Completes (mod m n) := by
  rw [mod, if_neg h]
  exact completes_ok

theorem completes_max {xs : List ℤ} (h : xs ≠ []) : Completes (max xs) := by
  obtain ⟨x, hx⟩ := Option.isSome_iff_exists.mp (List.isSome_max?_iff.mpr h)
  rw [max, hx]
  exact completes_ok

theorem completes_min {xs : List ℤ} (h : xs ≠ []) : Completes (min xs) := by
  obtain ⟨x, hx⟩ := Option.isSome_iff_exists.mp (List.isSome_min?_iff.mpr h)
  rw [min, hx]
  exact completes_ok

theorem completes_unzip {points : List (α × β)} : Completes (unzip points) ↔ points ≠ [] := by
  cases points with
  | nil => exact iff_of_false not_returns_error (fun h => h rfl)
  | cons p points => exact iff_of_true completes_ok (List.cons_ne_nil p points)

theorem loopIndex_eq (h : xs ≠ []) : loopIndex xs = .ok (xs.length - 1) := by
  rw [loopIndex, List.isEmpty_eq_false_iff.mpr h]
  rfl

theorem completes_loopIndex (h : xs ≠ []) : Completes (loopIndex xs) := by
  rw [loopIndex_eq h]
  exact completes_ok

/-- There is something behind the first `k` entries. -/
theorem stride_ne_nil {step k : ℕ} (h : k < xs.length) : stride step k xs ≠ [] := by
  induction xs generalizing k with
  | nil => exact absurd h (Nat.not_lt_zero k)
  | cons x xs ih =>
    cases k with
    | zero => exact List.cons_ne_nil _ _
    | succ k => exact ih (Nat.lt_of_succ_lt_succ h)

/-- What stands where in a slice. -/
theorem getElem?_stride {step : ℕ} (hstep : 0 < step) (k i : ℕ) :
    (stride step k xs)[i]? = xs[k + i * step]? := by
  induction xs generalizing k i with
  | nil => rfl
  | cons x xs ih =>
    cases k with
    | succ k => rw [stride, ih, Nat.add_right_comm, List.getElem?_cons_succ]
    | zero =>
      cases i with
      | zero => rw [stride, Nat.zero_mul, List.getElem?_cons_zero, List.getElem?_cons_zero]
      | succ i =>
        have hindex : 0 + (i + 1) * step = step - 1 + i * step + 1 := by
          rw [Nat.add_one_mul]
          omega
        rw [stride, List.getElem?_cons_succ, ih, hindex, List.getElem?_cons_succ]

/-- A slice that takes the last of every `step` entries. -/
theorem length_stride {step : ℕ} (hstep : 0 < step) :
    (stride step (step - 1) xs).length = xs.length / step := by
  refine eq_of_forall_ge_iff fun i => ?_
  rw [← List.getElem?_eq_none_iff, getElem?_stride hstep, List.getElem?_eq_none_iff,
    Nat.div_le_iff_le_mul_add_pred hstep, Nat.mul_comm i, Nat.add_comm]

theorem getElem_stride {step i : ℕ} (hstep : 0 < step)
    (h : i < (stride step (step - 1) xs).length) (h' : (i + 1) * step - 1 < xs.length) :
    (stride step (step - 1) xs)[i] = xs[(i + 1) * step - 1] := by
  have hindex : step - 1 + i * step = (i + 1) * step - 1 := by
    rw [Nat.add_one_mul]
    omega
  refine Option.some.inj ?_
  rw [← List.getElem?_eq_getElem h, ← List.getElem?_eq_getElem h', getElem?_stride hstep, hindex]

/-- What a loop over such a slice leaves in `i`. -/
theorem loopIndex_stride {step : ℕ} (hstep : 0 < step) (h : step ≤ xs.length) :
    loopIndex (stride step (step - 1) xs) = .ok (xs.length / step - 1) := by
  rw [loopIndex_eq (stride_ne_nil (Nat.sub_one_lt_of_le hstep h)), length_stride hstep]

theorem slice_none : slice none none xs = xs := by
  rw [slice]
  exact List.take_length

end Rules

end Python
