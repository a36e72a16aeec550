import Mathlib.Data.Nat.Digits.Defs

/-!
# Reading numbers from C strings

The function `strtoul` of the C library, for a 64-bit type and the "C" locale, in a base from 2 to
36. It skips white space, takes a sign and in base 16 a prefix `0x`, and then as many digits as
there are. What it returns is also what `strtoull` returns.

A string is given by its characters, without the NUL character that ends it.

## What callers see

A caller sees three things: the number, `endptr`, and whether `errno` was set to `ERANGE`. If there
is no digit the number is zero and `endptr` the beginning of the string, whatever was in front. A
minus sign negates the number in the type, so a result may be large because the string was negative.

Most callers want the whole string to be a number and look whether `endptr` is its end. `Numeral`
describes the strings for which it is: white space, a sign and digits, each but the digits possibly
missing. The empty string ends where it begins and is the one exception. Base 16 is left out there,
because of the prefix; for strings of at most two characters there is none.

## Main results

* `strtoul_blank`, `strtoul_plus`, `strtoul_minus`, `strtoul_unsigned` — one character at a time
* `magnitude_singleton`, `magnitude_pair` — numbers of at most two digits
* `Numeral.strtoul_eq`, `exists_numeral` — the strings that are read to their end, in a base other
  than 16
-/

namespace Strtoul

/-- The number of values of the type. -/
def modulus : ℕ := 2 ^ 64

/-- `isspace`. -/
def isSpace (c : UInt8) : Bool := c = 0x20 ∨ (0x09 ≤ c ∧ c ≤ 0x0d)

/-- The character `'+'`. -/
def plus : UInt8 := 0x2b

/-- The character `'-'`. -/
def minus : UInt8 := 0x2d

/-- The number that a letter or digit stands for. -/
def alnumValue (c : UInt8) : Option ℕ :=
  if 0x30 ≤ c ∧ c ≤ 0x39 then some (c.toNat - 0x30)
  else if 0x41 ≤ c ∧ c ≤ 0x5a then some (c.toNat - 0x41 + 10)
  else if 0x61 ≤ c ∧ c ≤ 0x7a then some (c.toNat - 0x61 + 10)
  else none

/-- The value of a digit in a base. -/
def digit (base : ℕ) (c : UInt8) : Option ℕ := (alnumValue c).filter (· < base)

/-- The values of the digits at the beginning of a string. -/
def digits (base : ℕ) : List UInt8 → List ℕ
  | [] => []
  | c :: s =>
    match digit base c with
    | none => []
    | some d => d :: digits base s

/-- The length of the prefix `0x`, which counts only if there is a digit behind it. -/
def prefixLength (base : ℕ) : List UInt8 → ℕ
  | 0x30 :: x :: c :: _ =>
    if base = 16 ∧ (x = 0x78 ∨ x = 0x58) ∧ (digit base c).isSome then 2 else 0
  | _ => 0

/-- The number without its sign, and the number of characters it takes; `none` if there is no
digit. -/
def magnitude (base : ℕ) (s : List UInt8) : Option (ℕ × ℕ) :=
  let start := prefixLength base s
  match digits base (s.drop start) with
  | [] => none
  | ds => some (Nat.ofDigits base ds.reverse, start + ds.length)

/-- What `strtoul` returns and stores. -/
structure Conversion where
  /-- The number. -/
  value : ℕ
  /-- The offset of `endptr`. -/
  endptr : ℕ
  /-- `errno` is set to `ERANGE`. -/
  erange : Bool
deriving DecidableEq, Repr

/-- The result for a number that begins at an offset. -/
def convert (negative : Bool) (start : ℕ) : Option (ℕ × ℕ) → Conversion
  | none => ⟨0, 0, false⟩
  | some (n, length) =>
    if modulus ≤ n then ⟨modulus - 1, start + length, true⟩
    else ⟨if negative then (modulus - n) % modulus else n, start + length, false⟩

/-- The part of a string behind the white space at its beginning, which has the length `start`. -/
def strtoulFrom (base start : ℕ) : List UInt8 → Conversion
  | [] => convert false start none
  | c :: s =>
    if c = plus then convert false (start + 1) (magnitude base s)
    else if c = minus then convert true (start + 1) (magnitude base s)
    else convert false start (magnitude base (c :: s))

/-- `strtoul`. -/
def strtoul (base : ℕ) (s : List UInt8) : Conversion :=
  strtoulFrom base (s.takeWhile isSpace).length (s.dropWhile isSpace)

/-! ### Characters -/

variable {base : ℕ} {c : UInt8} {s : List UInt8}

/-- The characters that stand for a number lie in three ranges. -/
theorem alnumValue_eq_some_iff {d : ℕ} :
    alnumValue c = some d ↔
      (0x30 ≤ c.toNat ∧ c.toNat ≤ 0x39 ∧ c.toNat = 0x30 + d) ∨
        (0x41 ≤ c.toNat ∧ c.toNat ≤ 0x5a ∧ c.toNat = 0x37 + d) ∨
        (0x61 ≤ c.toNat ∧ c.toNat ≤ 0x7a ∧ c.toNat = 0x57 + d) := by
  simp only [alnumValue, UInt8.le_iff_toNat_le, UInt8.reduceToNat]
  split_ifs
  · rw [Option.some.injEq]
    omega
  · rw [Option.some.injEq]
    omega
  · rw [Option.some.injEq]
    omega
  · refine iff_of_false (by simp) ?_
    omega

theorem digit_eq_some_iff {d : ℕ} : digit base c = some d ↔ alnumValue c = some d ∧ d < base := by
  rw [digit, Option.filter_eq_some_iff, decide_eq_true_iff]

/-- A digit is not white space. -/
theorem isSpace_of_digit (h : (digit base c).isSome) : isSpace c = false := by
  obtain ⟨d, hd⟩ := Option.isSome_iff_exists.mp h
  have hrange := alnumValue_eq_some_iff.mp (digit_eq_some_iff.mp hd).1
  simp only [isSpace, UInt8.le_iff_toNat_le, ← UInt8.toNat_inj, UInt8.reduceToNat]
  rw [decide_eq_false_iff_not]
  omega

/-- A digit is not a sign. -/
theorem ne_sign_of_digit (h : (digit base c).isSome) : c ≠ plus ∧ c ≠ minus := by
  obtain ⟨d, hd⟩ := Option.isSome_iff_exists.mp h
  have hrange := alnumValue_eq_some_iff.mp (digit_eq_some_iff.mp hd).1
  simp only [plus, minus, ne_eq, ← UInt8.toNat_inj, UInt8.reduceToNat]
  omega

/-! ### Short numbers -/

theorem magnitude_nil : magnitude base [] = none := rfl

theorem magnitude_singleton : magnitude base [c] = (digit base c).map fun d => (d, 1) := by
  have hstarts : prefixLength base [c] = 0 := by simp [prefixLength]
  rw [magnitude, hstarts]
  cases hdigit : digit base c <;> simp [digits, hdigit]

theorem magnitude_pair {c' : UInt8} :
    magnitude base [c, c'] = (digit base c).map fun d =>
      match digit base c' with
      | none => (d, 1)
      | some d' => (base * d + d', 2) := by
  have hstarts : prefixLength base [c, c'] = 0 := by simp [prefixLength]
  rw [magnitude, hstarts]
  cases hdigit : digit base c with
  | none => simp [digits, hdigit]
  | some d =>
    cases hdigit' : digit base c' with
    | none => simp [digits, hdigit, hdigit']
    | some d' => simp [digits, hdigit, hdigit', Nat.ofDigits_cons, Nat.add_comm]

/-! ### One character at a time -/

/-- The same number, one character further. -/
def Conversion.skip (r : Conversion) : Conversion :=
  { r with endptr := if r.endptr = 0 then 0 else r.endptr + 1 }

theorem Conversion.skip_mk {value endptr : ℕ} {erange : Bool} (h : endptr ≠ 0) :
    skip ⟨value, endptr, erange⟩ = ⟨value, endptr + 1, erange⟩ := by
  rw [skip, if_neg h]

/-- A number has at least one digit. -/
theorem magnitude_pos {n length : ℕ} (h : magnitude base s = some (n, length)) : 0 < length := by
  rw [magnitude] at h
  split at h
  · simp at h
  · rename_i hne
    obtain ⟨-, rfl⟩ := Prod.mk.inj (Option.some.inj h)
    have hpos := List.length_pos_iff.mpr hne
    omega

theorem convert_skip {negative : Bool} {start : ℕ} :
    convert negative (start + 1) (magnitude base s)
      = (convert negative start (magnitude base s)).skip := by
  cases hmagnitude : magnitude base s with
  | none => rfl
  | some p =>
    obtain ⟨n, length⟩ := p
    have hne : start + length ≠ 0 := by
      have hpos := magnitude_pos hmagnitude
      omega
    have hend : start + 1 + length = start + length + 1 := by omega
    simp only [convert, hend]
    split
    · rw [Conversion.skip_mk hne]
    · rw [Conversion.skip_mk hne]

/-- White space is skipped. -/
theorem strtoul_blank (hc : isSpace c) : strtoul base (c :: s) = (strtoul base s).skip := by
  rw [strtoul, strtoul, List.takeWhile_cons_of_pos hc, List.dropWhile_cons_of_pos hc,
    List.length_cons]
  cases s.dropWhile isSpace with
  | nil => rfl
  | cons c' s' =>
    simp only [strtoulFrom]
    split
    · exact convert_skip
    · split
      · exact convert_skip
      · exact convert_skip

theorem strtoul_plus : strtoul base (plus :: s) = convert false 1 (magnitude base s) := by
  simp [strtoul, strtoulFrom, show isSpace plus = false from rfl]

theorem strtoul_minus : strtoul base (minus :: s) = convert true 1 (magnitude base s) := by
  simp [strtoul, strtoulFrom, show isSpace minus = false from rfl, show minus ≠ plus by decide]

/-- Where there is neither white space nor a sign, there is the number. -/
theorem strtoul_unsigned (hc : isSpace c = false) (hplus : c ≠ plus) (hminus : c ≠ minus) :
    strtoul base (c :: s) = convert false 0 (magnitude base (c :: s)) := by
  simp [strtoul, strtoulFrom, hc, hplus, hminus]

/-- A single character is taken if it is a digit. -/
theorem strtoul_singleton : strtoul base [c] = convert false 0 (magnitude base [c]) := by
  have hnone : ¬(digit base c).isSome → magnitude base [c] = none := by
    intro h
    rw [magnitude_singleton, Option.not_isSome_iff_eq_none.mp h, Option.map_none]
  by_cases hc : isSpace c = true
  · rw [strtoul_blank hc, hnone fun h => Bool.false_ne_true ((isSpace_of_digit h).symm.trans hc)]
    rfl
  · rw [Bool.not_eq_true] at hc
    by_cases hplus : c = plus
    · rw [hnone fun h => (ne_sign_of_digit h).1 hplus, hplus, strtoul_plus, magnitude_nil]
      rfl
    · by_cases hminus : c = minus
      · rw [hnone fun h => (ne_sign_of_digit h).2 hminus, hminus, strtoul_minus, magnitude_nil]
        rfl
      · exact strtoul_unsigned hc hplus hminus

/-! ### Whole numbers -/

/-- The number that the digits at the beginning of a string stand for. -/
def valueOf (base : ℕ) (s : List UInt8) : ℕ := Nat.ofDigits base (digits base s).reverse

/-- All characters are digits if there are as many digits as characters. -/
theorem length_digits_eq_iff :
    (digits base s).length = s.length ↔ ∀ c ∈ s, (digit base c).isSome := by
  induction s with
  | nil => simp [digits]
  | cons c s ih =>
    rw [digits, List.forall_mem_cons, ← ih]
    cases hdigit : digit base c with
    | none => simp
    | some d => simp

theorem prefixLength_of_ne (hbase : base ≠ 16) : prefixLength base s = 0 := by
  unfold prefixLength
  split
  · rw [if_neg fun h => hbase h.1]
  · rfl

/-- A number takes all of a string if it consists of digits. -/
theorem magnitude_eq_length_iff (hbase : base ≠ 16) {n : ℕ} :
    magnitude base s = some (n, s.length) ↔
      s ≠ [] ∧ (∀ c ∈ s, (digit base c).isSome) ∧ n = valueOf base s := by
  rw [magnitude, prefixLength_of_ne hbase, List.drop_zero, ← length_digits_eq_iff, valueOf]
  cases s with
  | nil => simp [digits]
  | cons c s =>
    split
    · rename_i hnil
      simp [hnil]
    · rename_i hne
      simp [eq_comm, and_comm]

/-- A number in a string: white space, a sign and digits. -/
inductive Numeral (base : ℕ) : Bool → List UInt8 → List UInt8 → Prop
  /-- Digits. -/
  | digits {ds : List UInt8} (hne : ds ≠ []) (hdigits : ∀ c ∈ ds, (digit base c).isSome) :
      Numeral base false ds ds
  /-- A plus sign and digits. -/
  | plus {ds : List UInt8} (hne : ds ≠ []) (hdigits : ∀ c ∈ ds, (digit base c).isSome) :
      Numeral base false ds (plus :: ds)
  /-- A minus sign and digits. -/
  | minus {ds : List UInt8} (hne : ds ≠ []) (hdigits : ∀ c ∈ ds, (digit base c).isSome) :
      Numeral base true ds (minus :: ds)
  /-- White space in front of a number. -/
  | blank {negative : Bool} {ds s : List UInt8} {c : UInt8} (hc : isSpace c)
      (h : Numeral base negative ds s) : Numeral base negative ds (c :: s)

theorem Numeral.ne_nil {negative : Bool} {ds : List UInt8} (h : Numeral base negative ds s) :
    s ≠ [] := by
  cases h with
  | digits hne _ => exact hne
  | plus _ _ => exact List.cons_ne_nil _ _
  | minus _ _ => exact List.cons_ne_nil _ _
  | blank _ _ => exact List.cons_ne_nil _ _

theorem Numeral.digits_ne_nil {negative : Bool} {ds : List UInt8}
    (h : Numeral base negative ds s) : ds ≠ [] := by
  induction h with
  | digits hne _ => exact hne
  | plus hne _ => exact hne
  | minus hne _ => exact hne
  | blank _ _ ih => exact ih

theorem Numeral.isSome_digit {negative : Bool} {ds : List UInt8} (h : Numeral base negative ds s) :
    ∀ c ∈ ds, (digit base c).isSome := by
  induction h with
  | digits _ hdigits => exact hdigits
  | plus _ hdigits => exact hdigits
  | minus _ hdigits => exact hdigits
  | blank _ _ ih => exact ih

/-- A number begins with white space, if any. -/
theorem Numeral.exists_append {negative : Bool} {ds : List UInt8}
    (h : Numeral base negative ds s) :
    ∃ blanks : List UInt8, (∀ c ∈ blanks, isSpace c) ∧
      (negative = false ∧ (s = blanks ++ ds ∨ s = blanks ++ Strtoul.plus :: ds) ∨
        negative = true ∧ s = blanks ++ Strtoul.minus :: ds) := by
  induction h with
  | digits _ _ => exact ⟨[], by simp, Or.inl ⟨rfl, Or.inl rfl⟩⟩
  | plus _ _ => exact ⟨[], by simp, Or.inl ⟨rfl, Or.inr rfl⟩⟩
  | minus _ _ => exact ⟨[], by simp, Or.inr ⟨rfl, rfl⟩⟩
  | @blank _ _ _ c hc _ ih =>
    obtain ⟨blanks, hblanks, hs⟩ := ih
    refine ⟨c :: blanks, List.forall_mem_cons.mpr ⟨hc, hblanks⟩, ?_⟩
    rcases hs with ⟨hsign, rfl | rfl⟩ | ⟨hsign, rfl⟩
    · exact Or.inl ⟨hsign, Or.inl rfl⟩
    · exact Or.inl ⟨hsign, Or.inr rfl⟩
    · exact Or.inr ⟨hsign, rfl⟩

/-- White space may stand in front of a number. -/
theorem Numeral.append {negative : Bool} {ds blanks : List UInt8}
    (h : Numeral base negative ds s) (hblanks : ∀ c ∈ blanks, isSpace c) :
    Numeral base negative ds (blanks ++ s) := by
  induction blanks with
  | nil => exact h
  | cons c blanks ih =>
    obtain ⟨hc, hblanks⟩ := List.forall_mem_cons.mp hblanks
    exact .blank hc (ih hblanks)

/-- What is returned for the number `n` that ends at `endptr`. -/
def converted (negative : Bool) (n endptr : ℕ) : Conversion :=
  if modulus ≤ n then ⟨modulus - 1, endptr, true⟩
  else ⟨if negative then (modulus - n) % modulus else n, endptr, false⟩

/-- **A number is read to its end.** -/
theorem Numeral.strtoul_eq (hbase : base ≠ 16) {negative : Bool} {ds : List UInt8}
    (h : Numeral base negative ds s) :
    strtoul base s = converted negative (valueOf base ds) s.length := by
  induction h with
  | @digits ds hne hdigits =>
    obtain ⟨c, s, rfl⟩ := List.exists_cons_of_ne_nil hne
    have hc := hdigits c List.mem_cons_self
    obtain ⟨hplus, hminus⟩ := ne_sign_of_digit hc
    rw [strtoul_unsigned (isSpace_of_digit hc) hplus hminus,
      (magnitude_eq_length_iff hbase).mpr ⟨hne, hdigits, rfl⟩, convert, Nat.zero_add]
    rfl
  | plus hne hdigits =>
    rw [strtoul_plus, (magnitude_eq_length_iff hbase).mpr ⟨hne, hdigits, rfl⟩, convert,
      List.length_cons, Nat.add_comm]
    rfl
  | minus hne hdigits =>
    rw [strtoul_minus, (magnitude_eq_length_iff hbase).mpr ⟨hne, hdigits, rfl⟩, convert,
      List.length_cons, Nat.add_comm]
    rfl
  | blank hc h ih =>
    have hpos := List.length_pos_iff.mpr h.ne_nil
    rw [strtoul_blank hc, ih, converted, converted, List.length_cons]
    split
    · rw [Conversion.skip_mk (by omega)]
    · rw [Conversion.skip_mk (by omega)]

/-- The end of a conversion is the end of a number. -/
theorem magnitude_of_convert {negative : Bool} {start : ℕ} (hstart : start + s.length ≠ 0)
    (h : (convert negative start (magnitude base s)).endptr = start + s.length) :
    ∃ n, magnitude base s = some (n, s.length) := by
  cases hmagnitude : magnitude base s with
  | none =>
    rw [hmagnitude] at h
    exact absurd h.symm hstart
  | some p =>
    obtain ⟨n, length⟩ := p
    rw [hmagnitude, convert] at h
    refine ⟨n, ?_⟩
    split at h
    · rw [Nat.add_left_cancel h]
    · rw [Nat.add_left_cancel h]

/-- **What is read to its end is a number.** -/
theorem exists_numeral (hbase : base ≠ 16) (hne : s ≠ [])
    (h : (strtoul base s).endptr = s.length) : ∃ negative ds, Numeral base negative ds s := by
  induction s with
  | nil => exact absurd rfl hne
  | cons c s ih =>
    by_cases hc : isSpace c = true
    · rw [strtoul_blank hc, Conversion.skip, List.length_cons] at h
      split at h
      · exact absurd h.symm (Nat.succ_ne_zero _)
      · rename_i hend
        have hend' := Nat.succ.inj h
        have hs : s ≠ [] := by
          rintro rfl
          exact hend hend'
        obtain ⟨negative, ds, hs⟩ := ih hs hend'
        exact ⟨negative, ds, .blank hc hs⟩
    · by_cases hplus : c = plus
      · subst hplus
        rw [strtoul_plus, List.length_cons, Nat.add_comm] at h
        obtain ⟨n, hn⟩ := magnitude_of_convert (by omega) h
        obtain ⟨hs, hdigits, -⟩ := (magnitude_eq_length_iff hbase).mp hn
        exact ⟨false, s, .plus hs hdigits⟩
      · by_cases hminus : c = minus
        · subst hminus
          rw [strtoul_minus, List.length_cons, Nat.add_comm] at h
          obtain ⟨n, hn⟩ := magnitude_of_convert (by omega) h
          obtain ⟨hs, hdigits, -⟩ := (magnitude_eq_length_iff hbase).mp hn
          exact ⟨true, s, .minus hs hdigits⟩
        · rw [Bool.not_eq_true] at hc
          rw [strtoul_unsigned hc hplus hminus, ← Nat.zero_add (List.length _)] at h
          obtain ⟨n, hn⟩ := magnitude_of_convert (by simp) h
          obtain ⟨hs, hdigits, -⟩ := (magnitude_eq_length_iff hbase).mp hn
          exact ⟨false, c :: s, .digits hs hdigits⟩

end Strtoul
