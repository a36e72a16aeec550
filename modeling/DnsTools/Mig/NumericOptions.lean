import DnsTools.Mig.Options

/-!
# Numbers among the options

`get_query_number_value` and `get_port_value` leave the reading of a number to `strtoul`, and look
at `endptr`, `errno` and the range only. So they take what `strtoul` takes: nothing at all for a
zero, white space and a sign in front of the digits, and a negative number for what it is modulo
`2^64`.

## Exactness

A string is read exactly if it is taken only where it is a number in range written in digits, and
then for that number. The condition of `numbersExact_iff` is about the characters of the string: it
is none of those that `LaxNumber` lists. What makes this more than a list of prefixes is the range.
A negative number is taken modulo `2^64`, so `-1` is the largest number of queries and no port,
while `-18446744073709551615` is one for both.

The two functions differ in their range only, so both are handled by `Passes`, what `strtoul` has to
return for its check to be passed, and by one lemma on the numerals that it reads to their end.

## Main results

* `passes_iff` — the strings that are accepted
* `numbersExact_iff` — exactly when a string is accepted for what it is
-/

namespace DnsTools

open Strtoul

/-- A decimal digit. -/
def IsDecimalDigit (c : UInt8) : Prop := 0x30 ≤ c ∧ c ≤ 0x39

/-- The number that decimal digits stand for. -/
def decimalValue (chars : List UInt8) : ℕ := chars.foldl (fun n c => 10 * n + (c.toNat - 0x30)) 0

/-- The string is a decimal number that is not greater than `max`. -/
structure IsNumber (max : ℕ) (chars : List UInt8) : Prop where
  /-- There is a digit. -/
  nonempty : chars ≠ []
  /-- Nothing but digits. -/
  digits : ∀ c ∈ chars, IsDecimalDigit c
  /-- The number is in range. -/
  range : decimalValue chars ≤ max

/-- A string that is accepted although it is not a number. -/
inductive LaxNumber (max : ℕ) : List UInt8 → Prop
  /-- The empty string. -/
  | empty : LaxNumber max []
  /-- White space and a number. -/
  | blank {blanks number : List UInt8} (hne : blanks ≠ []) (hblanks : ∀ c ∈ blanks, isSpace c)
      (h : IsNumber max number) : LaxNumber max (blanks ++ number)
  /-- White space, if any, a plus sign and a number. -/
  | plus {blanks number : List UInt8} (hblanks : ∀ c ∈ blanks, isSpace c)
      (h : IsNumber max number) : LaxNumber max (blanks ++ plus :: number)
  /-- White space, if any, a minus sign and a number that is in range modulo `2 ^ 64`. -/
  | minus {blanks number : List UInt8} (hblanks : ∀ c ∈ blanks, isSpace c)
      (h : IsNumber (modulus - 1) number)
      (hrange : (modulus - decimalValue number) % modulus ≤ max) :
      LaxNumber max (blanks ++ minus :: number)

/-! ### Digits -/

section Digits

variable {chars : List UInt8} {c : UInt8}

theorem digit_eq_of_isDecimalDigit (h : IsDecimalDigit c) : digit 10 c = some (c.toNat - 0x30) := by
  simp only [IsDecimalDigit, UInt8.le_iff_toNat_le, UInt8.reduceToNat] at h
  rw [digit_eq_some_iff, alnumValue_eq_some_iff]
  omega

theorem isSome_digit_iff_decimal : (digit 10 c).isSome ↔ IsDecimalDigit c := by
  constructor
  · intro h
    obtain ⟨d, hd⟩ := Option.isSome_iff_exists.mp h
    rw [digit_eq_some_iff, alnumValue_eq_some_iff] at hd
    simp only [IsDecimalDigit, UInt8.le_iff_toNat_le, UInt8.reduceToNat]
    omega
  · intro h
    rw [digit_eq_of_isDecimalDigit h, Option.isSome_some]

theorem digits_eq_map (h : ∀ c ∈ chars, IsDecimalDigit c) :
    digits 10 chars = chars.map fun c => c.toNat - 0x30 := by
  induction chars with
  | nil => rfl
  | cons c chars ih =>
    obtain ⟨hc, hchars⟩ := List.forall_mem_cons.mp h
    rw [digits, digit_eq_of_isDecimalDigit hc, List.map_cons]
    exact congrArg _ (ih hchars)

/-- The library reads digits from the left, too. -/
theorem valueOf_eq_decimalValue (h : ∀ c ∈ chars, IsDecimalDigit c) :
    valueOf 10 chars = decimalValue chars := by
  rw [valueOf, digits_eq_map h, Nat.ofDigits_eq_foldr, List.foldr_reverse, List.foldl_map,
    decimalValue]
  simp only [Nat.cast_id, Nat.add_comm]

end Digits

/-! ### What is accepted -/

/-- The checks that the two functions make, with the range `max`. -/
structure Passes (max : ℕ) (chars : List UInt8) : Prop where
  /-- `*endptr` is NUL. -/
  endptr : (strtoul 10 chars).endptr = chars.length
  /-- `errno` is zero. -/
  erange : (strtoul 10 chars).erange = false
  /-- The number is in range. -/
  value : (strtoul 10 chars).value ≤ max

section Passes

variable {max : ℕ} {chars : List UInt8}

/-- What the number of a numeral has to be for it to be accepted. -/
theorem passes_numeral_iff {negative : Bool} {ds : List UInt8}
    (h : Numeral 10 negative ds chars) :
    Passes max chars ↔ decimalValue ds < modulus ∧
      (if negative then (modulus - decimalValue ds) % modulus else decimalValue ds) ≤ max := by
  have hread := h.strtoul_eq (by decide)
  have hdigits : ∀ c ∈ ds, IsDecimalDigit c :=
    fun c hc => isSome_digit_iff_decimal.mp (h.isSome_digit c hc)
  rw [valueOf_eq_decimalValue hdigits, converted] at hread
  by_cases hlt : decimalValue ds < modulus
  · rw [if_neg (Nat.not_le.mpr hlt)] at hread
    rw [and_iff_right hlt]
    refine ⟨fun hpasses => ?_, fun hle => ⟨by rw [hread], by rw [hread], by rw [hread]; exact hle⟩⟩
    have hvalue := hpasses.value
    rw [hread] at hvalue
    exact hvalue
  · rw [if_pos (Nat.not_lt.mp hlt)] at hread
    refine iff_of_false (fun hpasses => ?_) fun hnot => hlt hnot.1
    have herange := hpasses.erange
    rw [hread] at herange
    exact Bool.noConfusion herange

/-- **The strings accepted.** -/
theorem passes_iff (hmax : max < modulus) :
    Passes max chars ↔ IsNumber max chars ∨ LaxNumber max chars := by
  have hdigits {ds : List UInt8} (h : ∀ c ∈ ds, IsDecimalDigit c) :
      ∀ c ∈ ds, (digit 10 c).isSome := fun c hc => isSome_digit_iff_decimal.mpr (h c hc)
  constructor
  · intro hpasses
    by_cases hempty : chars = []
    · exact Or.inr (hempty ▸ .empty)
    obtain ⟨negative, ds, h⟩ := exists_numeral (by decide) hempty hpasses.endptr
    obtain ⟨hlt, hvalue⟩ := (passes_numeral_iff h).mp hpasses
    have hne := h.digits_ne_nil
    have hds : ∀ c ∈ ds, IsDecimalDigit c :=
      fun c hc => isSome_digit_iff_decimal.mp (h.isSome_digit c hc)
    obtain ⟨blanks, hblanks, ⟨rfl, rfl | rfl⟩ | ⟨rfl, rfl⟩⟩ := h.exists_append
    · have hnumber : IsNumber max ds := ⟨hne, hds, hvalue⟩
      by_cases hnil : blanks = []
      · subst hnil
        exact Or.inl hnumber
      · exact Or.inr (.blank hnil hblanks hnumber)
    · exact Or.inr (.plus hblanks ⟨hne, hds, hvalue⟩)
    · exact Or.inr (.minus hblanks ⟨hne, hds, Nat.le_pred_of_lt hlt⟩ hvalue)
  · rintro (h | h)
    · have hnumeral := Numeral.digits h.nonempty (hdigits h.digits)
      exact (passes_numeral_iff hnumeral).mpr ⟨Nat.lt_of_le_of_lt h.range hmax, h.range⟩
    · cases h with
      | empty => exact ⟨rfl, rfl, Nat.zero_le _⟩
      | blank _ hblanks h =>
        have hnumeral := (Numeral.digits h.nonempty (hdigits h.digits)).append hblanks
        exact (passes_numeral_iff hnumeral).mpr ⟨Nat.lt_of_le_of_lt h.range hmax, h.range⟩
      | plus hblanks h =>
        have hnumeral := (Numeral.plus h.nonempty (hdigits h.digits)).append hblanks
        exact (passes_numeral_iff hnumeral).mpr ⟨Nat.lt_of_le_of_lt h.range hmax, h.range⟩
      | minus hblanks h hrange =>
        have hnumeral := (Numeral.minus h.nonempty (hdigits h.digits)).append hblanks
        have hlt := Nat.lt_of_le_of_lt h.range (Nat.sub_lt (by decide) Nat.one_pos)
        exact (passes_numeral_iff hnumeral).mpr ⟨hlt, hrange⟩

/-- A number begins with a digit. -/
theorem LaxNumber.not_isNumber (h : LaxNumber max chars) {max' : ℕ} : ¬IsNumber max' chars := by
  intro hnumber
  have hdigit : ∀ c ∈ chars, isSpace c = false ∧ c ≠ Strtoul.plus ∧ c ≠ Strtoul.minus := by
    intro c hc
    have hsome := isSome_digit_iff_decimal.mpr (hnumber.digits c hc)
    exact ⟨isSpace_of_digit hsome, ne_sign_of_digit hsome⟩
  cases h with
  | empty => exact hnumber.nonempty rfl
  | @blank blanks number hne hblanks _ =>
    obtain ⟨c, blanks, rfl⟩ := List.exists_cons_of_ne_nil hne
    have hspace := (hdigit c (by simp)).1
    rw [hblanks c List.mem_cons_self] at hspace
    exact Bool.noConfusion hspace
  | plus _ _ => exact (hdigit Strtoul.plus (by simp)).2.1 rfl
  | minus _ _ _ => exact (hdigit Strtoul.minus (by simp)).2.2 rfl

/-- What is read of a number. -/
theorem IsNumber.value_eq (h : IsNumber max chars) (hmax : max < modulus) :
    (strtoul 10 chars).value = decimalValue chars := by
  have hnumeral : Numeral 10 false chars chars :=
    .digits h.nonempty fun c hc => isSome_digit_iff_decimal.mpr (h.digits c hc)
  have hlt := Nat.lt_of_le_of_lt h.range hmax
  rw [hnumeral.strtoul_eq (by decide), valueOf_eq_decimalValue h.digits, converted,
    if_neg (Nat.not_le.mpr hlt)]
  rfl

end Passes

/-! ### The two functions -/

/-- For whatever has been stored before, `get_query_number_value` returns `0` exactly for numbers of
64 bits, and stores them; so no other text becomes a number of queries or a limit. -/
structure QueryNumberExact (string : CString) : Prop where
  /-- What is accepted. -/
  accepted : ∀ number, (getQueryNumberValue string number).1 = 0 ↔
    IsNumber (modulus - 1) string.chars
  /-- What is stored. -/
  stored : ∀ number, (getQueryNumberValue string number).1 = 0 →
    (getQueryNumberValue string number).2 = decimalValue string.chars
  /-- The option `-n`. -/
  queries : ∀ s s', optionStep s (.queries string) = some s' → s'.result = none →
    IsNumber (modulus - 1) string.chars ∧ s'.options.queryNumber = decimalValue string.chars
  /-- The option `-l`. -/
  limit : ∀ s s', optionStep s (.limit string) = some s' → s'.result = none →
    IsNumber (modulus - 1) string.chars ∧ s'.options.queryLimit = decimalValue string.chars

/-- For whatever has been stored before, `get_port_value` returns `0` exactly for numbers of 16
bits, and stores them; so no other text becomes a port. -/
structure PortExact (string : CString) : Prop where
  /-- What is accepted. -/
  accepted : ∀ port, (getPortValue string port).1 = 0 ↔ IsNumber ushrtMax string.chars
  /-- What is stored. -/
  stored : ∀ port, (getPortValue string port).1 = 0 →
    (getPortValue string port).2.toNat = decimalValue string.chars
  /-- The option `-p`. -/
  port : ∀ s s', optionStep s (.port string) = some s' → s'.result = none →
    IsNumber ushrtMax string.chars ∧
      s'.options.sinPort = htons (UInt16.ofNat (decimalValue string.chars))

section Functions

variable {string : CString}

/-- No conversion goes beyond the type. -/
theorem value_le (chars : List UInt8) : (strtoul 10 chars).value ≤ modulus - 1 := by
  have hconvert : ∀ negative start m, (convert negative start m).value ≤ modulus - 1 := by
    intro negative start m
    rcases m with _ | ⟨n, length⟩
    · exact Nat.zero_le _
    · rw [convert]
      split
      · exact Nat.le_refl _
      · rename_i hlt
        have hmod := Nat.mod_lt (modulus - n) (show modulus > 0 by decide)
        cases negative with
        | false => exact Nat.le_pred_of_lt (Nat.not_le.mp hlt)
        | true => exact Nat.le_pred_of_lt hmod
  rw [strtoul]
  generalize (chars.dropWhile isSpace) = rest
  cases rest with
  | nil => exact hconvert _ _ _
  | cons c rest =>
    rw [strtoulFrom]
    split
    · exact hconvert _ _ _
    · split
      · exact hconvert _ _ _
      · exact hconvert _ _ _

theorem getQueryNumberValue_eq_zero_iff (number : ℕ) :
    (getQueryNumberValue string number).1 = 0 ↔ Passes (modulus - 1) string.chars := by
  rw [getQueryNumberValue]
  split
  · rename_i hfail
    have hne : (-1 : ℤ) ≠ 0 := by decide
    refine iff_of_false hne fun hpasses => ?_
    rcases hfail with hend | herange
    · exact hend hpasses.endptr
    · exact Bool.false_ne_true (hpasses.erange.symm.trans herange)
  · rename_i hpass
    rw [not_or, not_not, Bool.not_eq_true] at hpass
    exact iff_of_true rfl ⟨hpass.1, hpass.2, value_le _⟩

theorem getQueryNumberValue_stored {number : ℕ} (h : (getQueryNumberValue string number).1 = 0) :
    (getQueryNumberValue string number).2 = (strtoul 10 string.chars).value := by
  rw [getQueryNumberValue] at h ⊢
  split at h
  · exact absurd (show (-1 : ℤ) = 0 from h) (by decide)
  · rename_i hpass
    rw [if_neg hpass]

theorem getPortValue_eq_zero_iff (port : UInt16) :
    (getPortValue string port).1 = 0 ↔ Passes ushrtMax string.chars := by
  rw [getPortValue]
  split
  · rename_i hfail
    have hne : (-1 : ℤ) ≠ 0 := by decide
    refine iff_of_false hne fun hpasses => ?_
    rcases hfail with hend | herange | hrange
    · exact hend hpasses.endptr
    · exact Bool.false_ne_true (hpasses.erange.symm.trans herange)
    · exact Nat.not_lt.mpr hpasses.value hrange
  · rename_i hpass
    rw [not_or, not_or, not_not, Bool.not_eq_true, Nat.not_lt] at hpass
    exact iff_of_true rfl ⟨hpass.1, hpass.2.1, hpass.2.2⟩

theorem getPortValue_stored {port : UInt16} (h : (getPortValue string port).1 = 0) :
    (getPortValue string port).2 = UInt16.ofNat (strtoul 10 string.chars).value := by
  rw [getPortValue] at h ⊢
  split at h
  · exact absurd (show (-1 : ℤ) = 0 from h) (by decide)
  · rename_i hpass
    rw [if_neg hpass]

/-- An option that does not end the run has passed its check. -/
theorem of_optionStep_check {s s' s₂ : OptionsState} {i : GivenOption} {r : ℤ}
    (hturn : optionStep s i
      = if s.result.isSome then none else if r ≠ 0 then some s.error else some s₂)
    (hstep : optionStep s i = some s') (hresult : s'.result = none) : r = 0 ∧ s' = s₂ := by
  have hrunning : ¬s.result.isSome = true := by simp [result_of_optionStep hstep]
  rw [hturn, if_neg hrunning] at hstep
  split at hstep
  · obtain rfl := Option.some.inj hstep
    exact absurd hresult (OptionsState.result_error_ne_none _)
  · rename_i hzero
    exact ⟨not_not.mp hzero, (Option.some.inj hstep).symm⟩

/-- A number is read for what it is, and nothing else is read, unless the string is lax. -/
theorem queryNumberExact_of_not_lax (h : ¬LaxNumber (modulus - 1) string.chars) :
    QueryNumberExact string := by
  have hmax : modulus - 1 < modulus := Nat.sub_lt (by decide) Nat.one_pos
  have haccepted : ∀ number, (getQueryNumberValue string number).1 = 0 ↔
      IsNumber (modulus - 1) string.chars := by
    intro number
    rw [getQueryNumberValue_eq_zero_iff, passes_iff hmax, or_iff_left h]
  have hstored : ∀ number, (getQueryNumberValue string number).1 = 0 →
      (getQueryNumberValue string number).2 = decimalValue string.chars := by
    intro number hzero
    rw [getQueryNumberValue_stored hzero, ((haccepted number).mp hzero).value_eq hmax]
  refine ⟨haccepted, hstored, fun s s' hstep hresult => ?_, fun s s' hstep hresult => ?_⟩
  · obtain ⟨hzero, rfl⟩ := of_optionStep_check rfl hstep hresult
    exact ⟨(haccepted _).mp hzero, hstored _ hzero⟩
  · obtain ⟨hzero, rfl⟩ := of_optionStep_check rfl hstep hresult
    exact ⟨(haccepted _).mp hzero, hstored _ hzero⟩

theorem portExact_of_not_lax (h : ¬LaxNumber ushrtMax string.chars) : PortExact string := by
  have hmax : ushrtMax < modulus := by decide
  have haccepted : ∀ port, (getPortValue string port).1 = 0 ↔ IsNumber ushrtMax string.chars := by
    intro port
    rw [getPortValue_eq_zero_iff, passes_iff hmax, or_iff_left h]
  have hstored : ∀ port, (getPortValue string port).1 = 0 →
      (getPortValue string port).2 = UInt16.ofNat (decimalValue string.chars) := by
    intro port hzero
    rw [getPortValue_stored hzero, ((haccepted port).mp hzero).value_eq hmax]
  refine ⟨haccepted, fun port hzero => ?_, fun s s' hstep hresult => ?_⟩
  · have hrange := ((haccepted port).mp hzero).range
    rw [hstored port hzero, UInt16.toNat_ofNat']
    exact Nat.mod_eq_of_lt (Nat.lt_succ_of_le hrange)
  · obtain ⟨hzero, rfl⟩ := of_optionStep_check rfl hstep hresult
    exact ⟨(haccepted _).mp hzero, congrArg htons (hstored _ hzero)⟩

/-- **Exactly the numbers.** A string is accepted for what it is unless it is lax. -/
theorem numbersExact_iff (string : CString) :
    (QueryNumberExact string ↔ ¬LaxNumber (modulus - 1) string.chars) ∧
      (PortExact string ↔ ¬LaxNumber ushrtMax string.chars) := by
  have hmax : modulus - 1 < modulus := Nat.sub_lt (by decide) Nat.one_pos
  refine ⟨⟨fun hexact hlax => ?_, queryNumberExact_of_not_lax⟩,
    ⟨fun hexact hlax => ?_, portExact_of_not_lax⟩⟩
  · have hpasses := (passes_iff hmax).mpr (Or.inr hlax)
    have hzero := (getQueryNumberValue_eq_zero_iff 0).mpr hpasses
    exact hlax.not_isNumber ((hexact.accepted 0).mp hzero)
  · have hpasses := (passes_iff (by decide)).mpr (Or.inr hlax)
    have hzero := (getPortValue_eq_zero_iff 0).mpr hpasses
    exact hlax.not_isNumber ((hexact.accepted 0).mp hzero)

end Functions

/-- `-1`. -/
def minusOne : CString := ⟨[0x2d, 0x31], by decide⟩

/-- It asks for as many queries as there are numbers of 64 bits. -/
theorem getQueryNumberValue_minusOne :
    getQueryNumberValue minusOne 0 = (0, 18446744073709551615) := by
  decide

theorem minusOne_not_exact : ¬QueryNumberExact minusOne := by
  intro hexact
  have hnumber := (hexact.accepted 0).mp (congrArg Prod.fst getQueryNumberValue_minusOne)
  have hminus : IsDecimalDigit 0x2d := hnumber.digits 0x2d (List.mem_cons_self ..)
  exact absurd hminus (by rw [IsDecimalDigit]; decide)

end DnsTools
