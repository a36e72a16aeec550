import Mathlib.Algebra.Group.Nat.Defs
import Mathlib.Data.Nat.Notation
import Mathlib.Data.Int.Notation

/-!
# Decimal numerals

Integers written in decimal, with a minus sign where there is one. The digits of a natural number
are those of `Nat.toDigits 10`, and `Nat.ofDigitChars 10` reads them.

What programs print is a text, and what they read is one, so these are lemmas on lists of
characters: what a numeral begins with, which characters it is made of, and that it is read as what
it stands for. The last says also that different numbers have different numerals.
-/

namespace Decimal

/-- An integer in decimal. -/
def formatInt : ℤ → List Char
  | .ofNat n => Nat.toDigits 10 n
  | .negSucc n => '-' :: Nat.toDigits 10 (n + 1)

theorem formatInt_natCast (n : ℕ) : formatInt n = Nat.toDigits 10 n := rfl

theorem formatInt_ne_nil (i : ℤ) : formatInt i ≠ [] := by
  cases i with
  | ofNat n => exact Nat.toDigits_ne_nil
  | negSucc n => exact List.cons_ne_nil _ _

theorem isDigit_of_mem {n : ℕ} {c : Char} (h : c ∈ Nat.toDigits 10 n) : c.isDigit :=
  Nat.isDigit_of_mem_toDigits (by decide) (by decide) h

theorem toDigits_injective {m n : ℕ} (h : Nat.toDigits 10 m = Nat.toDigits 10 n) : m = n := by
  rw [← Nat.ofDigitChars_ten_toDigits (n := m), h, Nat.ofDigitChars_ten_toDigits]

/-- A positive number does not begin with a zero. -/
theorem head_toDigits_ne_zero {n : ℕ} (hn : 0 < n) : (Nat.toDigits 10 n).head? ≠ some '0' := by
  induction n using Nat.strongRecOn with
  | _ n ih =>
    by_cases hlt : n < 10
    · have hdigit : ∀ m < 10, 0 < m → [m.digitChar].head? ≠ some '0' := by decide
      rw [Nat.toDigits_of_lt_base hlt]
      exact hdigit n hlt hn
    · have hhead := ih (n / 10) (by omega) (by omega)
      obtain ⟨c, ds, hds⟩ :=
        List.exists_cons_of_ne_nil (Nat.toDigits_ne_nil (n := n / 10) (b := 10))
      rw [Nat.toDigits_of_base_le (by decide) (by omega), hds]
      rwa [hds] at hhead

/-- A numeral is made of digits, and possibly a sign. -/
theorem isDigit_or_sign {i : ℤ} {c : Char} (h : c ∈ formatInt i) : c.isDigit ∨ c = '-' := by
  cases i with
  | ofNat n => exact .inl (isDigit_of_mem h)
  | negSucc n =>
    rcases List.mem_cons.mp h with rfl | h
    · exact .inr rfl
    · exact .inl (isDigit_of_mem h)

theorem sign_ne_head {m : ℕ} {cs : List Char} : Nat.toDigits 10 m ≠ '-' :: cs := by
  intro h
  have := isDigit_of_mem (h ▸ List.mem_cons_self : '-' ∈ Nat.toDigits 10 m)
  revert this
  decide

/-- A numeral says which integer it stands for. -/
theorem formatInt_injective {i j : ℤ} (h : formatInt i = formatInt j) : i = j := by
  cases i with
  | ofNat m =>
    cases j with
    | ofNat n => rw [toDigits_injective h]
    | negSucc n => exact absurd h sign_ne_head
  | negSucc m =>
    cases j with
    | ofNat n => exact absurd h.symm sign_ne_head
    | negSucc n =>
      have := toDigits_injective (List.cons.inj h).2
      rw [Nat.succ.inj this]

/-- What stands before a separator that no numeral contains can be read back. -/
theorem formatInt_append_injective {i j : ℤ} {c : Char} {cs ds : List Char}
    (hdigit : ¬ c.isDigit) (hsign : c ≠ '-')
    (h : formatInt i ++ c :: cs = formatInt j ++ c :: ds) : i = j := by
  have hfree : ∀ k, c ∉ formatInt k := by
    intro k hmem
    exact (isDigit_or_sign hmem).elim hdigit hsign
  have hleft : ∀ k es, (formatInt k ++ c :: es).takeWhile (· ≠ c) = formatInt k := by
    intro k es
    rw [List.takeWhile_append_of_pos]
    · simp
    · intro d hd
      have : d ≠ c := fun heq => hfree k (heq ▸ hd)
      simpa using this
  refine formatInt_injective ?_
  rw [← hleft i cs, h, hleft]

/-! ### Decimal places -/

/-- A number with zeros in front, if it has fewer digits than asked for. -/
def padded (places n : ℕ) : List Char :=
  List.replicate (places - (Nat.toDigits 10 n).length) '0' ++ Nat.toDigits 10 n

/-- A number with so many decimal places, given in units of the last one. -/
def fixed (places n : ℕ) : List Char :=
  Nat.toDigits 10 (n / 10 ^ places) ++ '.' :: padded places (n % 10 ^ places)

variable {places n : ℕ}

theorem length_padded (hplaces : 0 < places) (hn : n < 10 ^ places) :
    (padded places n).length = places := by
  have hlength := (Nat.length_toDigits_le_iff (by decide) hplaces).mpr hn
  rw [padded, List.length_append, List.length_replicate]
  omega

theorem isDigit_of_mem_padded {c : Char} (h : c ∈ padded places n) : c.isDigit := by
  rcases List.mem_append.mp h with h | h
  · obtain rfl := List.eq_of_mem_replicate h
    decide
  · exact isDigit_of_mem h

/-- Without its point the number can be read back. -/
theorem ofDigitChars_fixed (hplaces : 0 < places) (n : ℕ) :
    Nat.ofDigitChars 10 (Nat.toDigits 10 (n / 10 ^ places) ++ padded places (n % 10 ^ places)) 0 =
      n := by
  have hpos : 0 < 10 ^ places := Nat.pow_pos (by decide)
  have hread : Nat.ofDigitChars 10 (padded places (n % 10 ^ places)) 0 = n % 10 ^ places := by
    rw [padded, Nat.ofDigitChars_append, Nat.ofDigitChars_replicate_zero, Nat.mul_zero,
      Nat.ofDigitChars_ten_toDigits]
  rw [Nat.ofDigitChars_append, Nat.ofDigitChars_eq_ofDigitChars_zero,
    length_padded hplaces (Nat.mod_lt n hpos), Nat.ofDigitChars_ten_toDigits, hread,
    Nat.div_add_mod]

end Decimal
