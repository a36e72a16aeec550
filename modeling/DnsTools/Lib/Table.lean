import Mathlib.Data.List.Basic
import Mathlib.Data.List.Perm.Basic
import Mathlib.Data.Nat.Notation

/-!
# Arrays with checked stores

An array is a list, and `write` is a store into it, `none` where the index is outside. The lemmas
say what a store does to a prefix of the array and to the entries that a partial function picks
out of it, and what is left of an array that is read in order. `OnStride` describes the indices
that a loop with a constant stride comes past.
-/

namespace Table

variable {α β : Type*} {l : List α} {i : ℕ} {x : α} {f : α → Option β}

/-- Store `x` at index `i`. -/
def write (l : List α) (i : ℕ) (x : α) : Option (List α) :=
  if i < l.length then some (l.set i x) else none

theorem write_of_lt (h : i < l.length) (x : α) : write l i x = some (l.set i x) := if_pos h

/-- Filling the next place extends the filled prefix. -/
theorem take_succ_set (h : i < l.length) : (l.set i x).take (i + 1) = l.take i ++ [x] := by
  rw [List.take_succ_eq_append_getElem (by rw [List.length_set]; exact h),
    List.getElem_set_self, List.take_set_of_le (Nat.le_refl i)]

/-- A store that changes nothing picked out. -/
theorem filterMap_set_of_eq (h : i < l.length) (hf : f x = f l[i]) :
    (l.set i x).filterMap f = l.filterMap f := by
  have hsplit : l = l.take i ++ l[i] :: l.drop (i + 1) := by
    rw [List.getElem_cons_drop, List.take_append_drop]
  rw [List.set_eq_take_append_cons_drop, if_pos h]
  conv_rhs => rw [hsplit]
  simp only [List.filterMap_append, List.filterMap_cons, hf]

/-- A store that makes one more entry picked out. -/
theorem perm_filterMap_set {b : β} (h : i < l.length) (hold : f l[i] = none)
    (hnew : f x = some b) : ((l.set i x).filterMap f).Perm (b :: l.filterMap f) := by
  have hsplit : l = l.take i ++ l[i] :: l.drop (i + 1) := by
    rw [List.getElem_cons_drop, List.take_append_drop]
  have hfilter : l.filterMap f = (l.take i).filterMap f ++ (l.drop (i + 1)).filterMap f := by
    conv_lhs => rw [hsplit]
    simp only [List.filterMap_append, List.filterMap_cons, hold]
  rw [List.set_eq_take_append_cons_drop, if_pos h, List.filterMap_append, List.filterMap_cons,
    hnew, hfilter]
  exact List.perm_middle

/-- The entries of a list that has grown by at most one. -/
theorem getElem?_append_toList {o : Option α} {k : ℕ} :
    (l ++ o.toList)[k]? = some x ↔ l[k]? = some x ∨ k = l.length ∧ o = some x := by
  rw [List.getElem?_append]
  split
  · rename_i hlt
    exact ⟨Or.inl, fun h => h.resolve_right fun hk => absurd hk.1 (Nat.ne_of_lt hlt)⟩
  · rename_i hge
    rw [List.getElem?_eq_none (Nat.not_lt.mp hge)]
    cases o with
    | none => simp
    | some y =>
      rw [Option.toList_some, List.getElem?_singleton]
      by_cases hk : k = l.length
      · simp [hk]
      · rw [if_neg (by omega)]
        simp [hk]

/-! ### Reading in order -/

/-- The next entry. -/
theorem getElem?_of_drop {rest : List α} (h : l.drop i = x :: rest) : l[i]? = some x := by
  rw [← List.head?_drop, h, List.head?_cons]

/-- What is left behind it. -/
theorem drop_of_drop {rest : List α} (h : l.drop i = x :: rest) : l.drop (i + 1) = rest := by
  rw [← List.tail_drop, h, List.tail_cons]

/-! ### Strides -/

/-- The index `k` is reached from `start` in steps of `d`. -/
def OnStride (d start k : ℕ) : Prop := ∃ n, k = start + n * d

variable {d start k : ℕ}

theorem OnStride.le (h : OnStride d start k) : start ≤ k := by
  obtain ⟨n, rfl⟩ := h
  exact Nat.le_add_right _ _

theorem onStride_self (d start : ℕ) : OnStride d start start := ⟨0, by simp⟩

/-- A walk is its first index, and the walk from the next one. -/
theorem onStride_iff : OnStride d start k ↔ k = start ∨ OnStride d (start + d) k := by
  constructor
  · rintro ⟨n, rfl⟩
    cases n with
    | zero => exact Or.inl (by simp)
    | succ n => exact Or.inr ⟨n, by rw [Nat.succ_mul]; omega⟩
  · rintro (rfl | ⟨n, rfl⟩)
    · exact onStride_self d k
    · exact ⟨n + 1, by rw [Nat.succ_mul]; omega⟩

/-- From a remainder, the indices with that remainder are reached. -/
theorem onStride_of_mod (k d : ℕ) : OnStride d (k % d) k :=
  ⟨k / d, by rw [Nat.mul_comm, Nat.mod_add_div]⟩

/-- All indices on a walk have the same remainder. -/
theorem OnStride.mod_eq (h : OnStride d start k) : k % d = start % d := by
  obtain ⟨n, rfl⟩ := h
  exact Nat.add_mul_mod_self_right start n d

end Table
