import DnsTools.Lib.Table
import DnsTools.Mig.Options

/-!
# Client ids

A client id is given as 32 hexadecimal digits, two for each byte. `get_client_value` hands every two
characters to `strtoul`, which takes more than digits: in place of the first one there may be white
space or a plus sign, and a minus sign if the number is zero.

## Two characters at a time

The function copies two characters and a NUL into a buffer of its own, so `strtoul` never sees more
than two, and a prefix `0x` cannot be followed by a digit. It looks for the NUL at `endptr`, so both
characters must have been used. What is left are pairs of digits, and pairs of a sign or a blank and
a digit. A minus sign gives the number modulo `2^64`, which does not fit a byte, except for zero.

The loop goes by pairs and stops at the first that is not accepted, so the whole is accepted exactly
if each pair is, and there are 32 characters. An id accepted with such a pair has a byte that nobody
has written so: this is the one way in which the result is not the id in the string.

## Main results

* `accepted_iff` — the pairs of characters that are accepted
* `clientIdExact_iff` — exactly when a string is accepted for what it is
-/

namespace DnsTools

open Memory Strtoul

/-- A hexadecimal digit. -/
def IsHexDigit (c : UInt8) : Prop :=
  (0x30 ≤ c ∧ c ≤ 0x39) ∨ (0x41 ≤ c ∧ c ≤ 0x46) ∨ (0x61 ≤ c ∧ c ≤ 0x66)

/-- The string is a client id: 32 hexadecimal digits. -/
structure IsHexId (chars : List UInt8) : Prop where
  /-- Two digits for each byte. -/
  length : chars.length = 2 * clientIdLength
  /-- Nothing but digits. -/
  digits : ∀ c ∈ chars, IsHexDigit c

/-- The digit for a number below 16. -/
def hexDigit (n : ℕ) : UInt8 := UInt8.ofNat (if n < 10 then 0x30 + n else 0x57 + n)

/-- A byte as two hexadecimal digits. -/
def hexByte (b : UInt8) : List UInt8 := [hexDigit (b.toNat / 16), hexDigit (b.toNat % 16)]

/-- The character in lower case. -/
def lowerCase (c : UInt8) : UInt8 := if 0x41 ≤ c ∧ c ≤ 0x5a then c + 0x20 else c

/-! ### Digits -/

section Digit

variable {c : UInt8}

theorem isSome_digit_iff : (digit 16 c).isSome ↔ IsHexDigit c := by
  simp only [Option.isSome_iff_exists, digit_eq_some_iff, alnumValue_eq_some_iff, IsHexDigit,
    UInt8.le_iff_toNat_le, UInt8.reduceToNat]
  constructor
  · rintro ⟨d, hrange, hlt⟩
    omega
  · rintro (hrange | hrange | hrange)
    · exact ⟨c.toNat - 0x30, by omega, by omega⟩
    · exact ⟨c.toNat - 0x37, by omega, by omega⟩
    · exact ⟨c.toNat - 0x57, by omega, by omega⟩

/-- A digit is written back in lower case. -/
theorem hexDigit_of_digit {d : ℕ} (h : digit 16 c = some d) : hexDigit d = lowerCase c := by
  obtain ⟨hrange, hlt⟩ := digit_eq_some_iff.mp h
  rw [alnumValue_eq_some_iff] at hrange
  have hupper : (0x41 ≤ c ∧ c ≤ 0x5a) ↔ 0x41 ≤ c.toNat ∧ c.toNat ≤ 0x5a := by
    simp only [UInt8.le_iff_toNat_le, UInt8.reduceToNat]
  rw [← UInt8.toNat_inj, hexDigit, lowerCase, UInt8.toNat_ofNat']
  rcases hrange with hrange | hrange | hrange
  · rw [if_pos (show d < 10 by omega), if_neg (hupper.not.mpr (by omega))]
    omega
  · rw [if_neg (show ¬d < 10 by omega), if_pos (hupper.mpr (by omega)), UInt8.toNat_add]
    simp only [UInt8.reduceToNat]
    omega
  · rw [if_neg (show ¬d < 10 by omega), if_neg (hupper.not.mpr (by omega))]
    omega

end Digit

/-! ### Pairs of characters -/

/-- The pair of characters passes the checks of `get_client_value`. -/
structure Accepted (c c' : UInt8) : Prop where
  /-- `strtoul` takes both. -/
  endptr : (strtoul 16 [c, c']).endptr = 2
  /-- The number can be represented. -/
  erange : (strtoul 16 [c, c']).erange = false
  /-- It fits into a byte. -/
  value : (strtoul 16 [c, c']).value ≤ ucharMax

/-- The checks, as they are written. -/
theorem not_accepted_iff {c c' : UInt8} :
    ((strtoul 16 [c, c']).endptr ≠ [c, c'].length ∨ (strtoul 16 [c, c']).erange = true ∨
      ucharMax < (strtoul 16 [c, c']).value) ↔ ¬Accepted c c' := by
  constructor
  · rintro (h | h | h) haccepted
    · exact h haccepted.endptr
    · rw [haccepted.erange] at h
      exact Bool.false_ne_true h
    · exact Nat.not_lt.mpr haccepted.value h
  · intro h
    by_contra hchecks
    rw [not_or, not_or, ne_eq, not_not, Bool.not_eq_true, Nat.not_lt] at hchecks
    exact h ⟨hchecks.1, hchecks.2.1, hchecks.2.2⟩

/-- Two hexadecimal digits. -/
def HexPair (c c' : UInt8) : Prop := IsHexDigit c ∧ IsHexDigit c'

/-- White space or a plus sign with a hexadecimal digit behind it, or `-0`. -/
def LaxPair (c c' : UInt8) : Prop :=
  ((isSpace c ∨ c = plus) ∧ IsHexDigit c') ∨ (c = minus ∧ c' = 0x30)

section Pair

variable {c c' : UInt8}

/-- The first character only says which sign the digit behind it has. -/
theorem accepted_of_eq_convert {negative : Bool}
    (h : strtoul 16 [c, c'] = convert negative 1 (magnitude 16 [c'])) :
    Accepted c c' ↔ IsHexDigit c' ∧ (negative → c' = 0x30) := by
  rw [magnitude_singleton] at h
  rw [← isSome_digit_iff]
  cases hdigit : digit 16 c' with
  | none =>
    rw [hdigit] at h
    refine iff_of_false (fun haccepted => ?_) (by simp)
    have hend := haccepted.endptr
    rw [h] at hend
    exact absurd (show 0 = 2 from hend) (by decide)
  | some d =>
    obtain ⟨hrange, hlt⟩ := digit_eq_some_iff.mp hdigit
    have hsmall : ¬modulus ≤ d := by
      simp only [modulus]
      omega
    have hzero : c' = 0x30 ↔ d = 0 := by
      rw [alnumValue_eq_some_iff] at hrange
      rw [← UInt8.toNat_inj]
      simp only [UInt8.reduceToNat]
      omega
    rw [hdigit, Option.map_some, convert, if_neg hsmall] at h
    have hvalue : Accepted c c' ↔ (strtoul 16 [c, c']).value ≤ ucharMax :=
      ⟨Accepted.value, fun hle => ⟨by rw [h], by rw [h], hle⟩⟩
    rw [hvalue, h, hzero]
    cases negative with
    | false => simp [ucharMax]; omega
    | true =>
      simp only [modulus, ucharMax, if_true, Option.isSome_some, true_and, true_imp_iff]
      omega

theorem accepted_blank (hc : isSpace c) : Accepted c c' ↔ IsHexDigit c' := by
  have hconvert : strtoul 16 [c, c'] = convert false 1 (magnitude 16 [c']) := by
    rw [strtoul_blank hc, strtoul_singleton, ← convert_skip]
  simpa using accepted_of_eq_convert hconvert

/-- What `get_client_value` stores for a pair of characters. -/
def pairValue (c c' : UInt8) : UInt8 := UInt8.ofNat (strtoul 16 [c, c']).value

theorem strtoul_hexPair {d d' : ℕ} (hd : digit 16 c = some d) (hd' : digit 16 c' = some d') :
    strtoul 16 [c, c'] = ⟨16 * d + d', 2, false⟩ := by
  have hsome : (digit 16 c).isSome := by rw [hd, Option.isSome_some]
  have hlt := (digit_eq_some_iff.mp hd).2
  have hlt' := (digit_eq_some_iff.mp hd').2
  have hsmall : ¬modulus ≤ 16 * d + d' := by
    simp only [modulus]
    omega
  obtain ⟨hplus, hminus⟩ := ne_sign_of_digit hsome
  rw [strtoul_unsigned (isSpace_of_digit hsome) hplus hminus, magnitude_pair, hd, hd',
    Option.map_some, convert, if_neg hsmall]
  rfl

/-- Where there is neither white space nor a sign, there must be two digits. -/
theorem accepted_unsigned (hc : isSpace c = false) (hplus : c ≠ plus) (hminus : c ≠ minus) :
    Accepted c c' ↔ HexPair c c' := by
  rw [HexPair, ← isSome_digit_iff, ← isSome_digit_iff]
  constructor
  · intro haccepted
    have hend := haccepted.endptr
    rw [strtoul_unsigned hc hplus hminus, magnitude_pair] at hend
    cases hd : digit 16 c with
    | none =>
      rw [hd] at hend
      exact absurd (show 0 = 2 from hend) (by decide)
    | some d =>
      cases hd' : digit 16 c' with
      | none =>
        have hsmall : ¬modulus ≤ d := by
          have hlt := (digit_eq_some_iff.mp hd).2
          simp only [modulus]
          omega
        rw [hd, hd', Option.map_some, convert, if_neg hsmall] at hend
        exact absurd (show 0 + 1 = 2 from hend) (by decide)
      | some d' => exact ⟨rfl, rfl⟩
  · rintro ⟨hsome, hsome'⟩
    obtain ⟨d, hd⟩ := Option.isSome_iff_exists.mp hsome
    obtain ⟨d', hd'⟩ := Option.isSome_iff_exists.mp hsome'
    have hlt := (digit_eq_some_iff.mp hd).2
    have hlt' := (digit_eq_some_iff.mp hd').2
    refine ⟨by rw [strtoul_hexPair hd hd'], by rw [strtoul_hexPair hd hd'], ?_⟩
    rw [strtoul_hexPair hd hd']
    show 16 * d + d' ≤ 255
    omega

/-- **The pairs accepted.** -/
theorem accepted_iff : Accepted c c' ↔ HexPair c c' ∨ LaxPair c c' := by
  have hfirst : IsHexDigit c → isSpace c = false ∧ c ≠ plus ∧ c ≠ minus := by
    intro h
    exact ⟨isSpace_of_digit (isSome_digit_iff.mpr h), ne_sign_of_digit (isSome_digit_iff.mpr h)⟩
  have hzero : IsHexDigit 0x30 := Or.inl (by decide)
  by_cases hc : isSpace c = true
  · have hhex : ¬HexPair c c' := fun h => by simp [(hfirst h.1).1] at hc
    have hminus : c ≠ minus := by
      rintro rfl
      exact absurd hc (by decide)
    rw [accepted_blank hc, or_iff_right hhex, LaxPair]
    simp [hc, hminus]
  · by_cases hplus : c = plus
    · have hhex : ¬HexPair c c' := fun h => (hfirst h.1).2.1 hplus
      have hconvert : strtoul 16 [c, c'] = convert false 1 (magnitude 16 [c']) :=
        hplus ▸ strtoul_plus
      have hminus : c ≠ minus := hplus ▸ by decide
      rw [accepted_of_eq_convert hconvert, or_iff_right hhex, LaxPair]
      grind
    · by_cases hminus : c = minus
      · have hhex : ¬HexPair c c' := fun h => (hfirst h.1).2.2 hminus
        have hconvert : strtoul 16 [c, c'] = convert true 1 (magnitude 16 [c']) :=
          hminus ▸ strtoul_minus
        rw [accepted_of_eq_convert hconvert, or_iff_right hhex, LaxPair]
        grind
      · have hlax : ¬LaxPair c c' := by
          rintro (⟨hspace | h, -⟩ | ⟨h, -⟩)
          · exact hc hspace
          · exact hplus h
          · exact hminus h
        rw [Bool.not_eq_true] at hc
        rw [accepted_unsigned hc hplus hminus, or_iff_left hlax]

/-- Two hexadecimal digits are read for what they are. -/
theorem HexPair.hexByte (h : HexPair c c') :
    hexByte (pairValue c c') = [lowerCase c, lowerCase c'] := by
  obtain ⟨d, hd⟩ := Option.isSome_iff_exists.mp (isSome_digit_iff.mpr h.1)
  obtain ⟨d', hd'⟩ := Option.isSome_iff_exists.mp (isSome_digit_iff.mpr h.2)
  have hlt := (digit_eq_some_iff.mp hd).2
  have hlt' := (digit_eq_some_iff.mp hd').2
  have hvalue : (pairValue c c').toNat = 16 * d + d' := by
    rw [pairValue, strtoul_hexPair hd hd', UInt8.toNat_ofNat']
    exact Nat.mod_eq_of_lt (show 16 * d + d' < 2 ^ 8 by omega)
  have hhigh : (16 * d + d') / 16 = d := by omega
  have hlow : (16 * d + d') % 16 = d' := by omega
  rw [DnsTools.hexByte, hvalue, hhigh, hlow, hexDigit_of_digit hd, hexDigit_of_digit hd']

end Pair

/-! ### Whole strings -/

/-- The characters of a string, two at a time. -/
def pairsOf : List UInt8 → List (UInt8 × UInt8)
  | c :: c' :: chars => (c, c') :: pairsOf chars
  | _ => []

/-- **The loop.** It succeeds when every pair is accepted, and then it has stored their values. -/
theorem clientLoop_outcome (client : ClientId) {string rest : List UInt8} {left i : ℕ}
    (hrest : string.drop (2 * i) = rest) (hlength : rest.length = 2 * left)
    (hclient : i + left = clientIdLength) :
    ∃ r client', clientLoop string left i client = some (r, client') ∧
      (r = 0 ↔ ∀ p ∈ pairsOf rest, Accepted p.1 p.2) ∧
      (r = 0 → client'.bytes
        = client.bytes.take i ++ (pairsOf rest).map fun p => pairValue p.1 p.2) := by
  induction left generalizing i client rest with
  | zero =>
    obtain rfl := List.length_eq_zero_iff.mp hlength
    refine ⟨0, client, rfl, by simp [pairsOf], fun _ => ?_⟩
    rw [List.take_of_length_le (by rw [client.length_bytes]; omega)]
    simp [pairsOf]
  | succ left ih =>
    obtain ⟨c, c', rest', rfl⟩ : ∃ c c' rest', rest = c :: c' :: rest' := by
      match rest, hlength with
      | c :: c' :: rest', _ => exact ⟨c, c', rest', rfl⟩
    have hc : string[2 * i]? = some c := Table.getElem?_of_drop hrest
    have hbehind := Table.drop_of_drop hrest
    have hc' : string[2 * i + 1]? = some c' := Table.getElem?_of_drop hbehind
    have hrest' : string.drop (2 * (i + 1)) = rest' := Table.drop_of_drop hbehind
    have hlength' : rest'.length = 2 * left := by
      simp only [List.length_cons] at hlength
      omega
    simp only [clientLoop, hc, hc', Option.bind_eq_bind, Option.bind_some]
    by_cases haccepted : Accepted c c'
    · rw [if_neg (not_accepted_iff.not.mpr (not_not.mpr haccepted))]
      obtain ⟨r, client', hloop, hreturn, hbytes⟩ := ih
        (client.set i (UInt8.ofNat (strtoul 16 [c, c']).value)) hrest' hlength' (by omega)
      refine ⟨r, client', hloop, ?_, fun hr => ?_⟩
      · rw [hreturn, pairsOf, List.forall_mem_cons]
        exact (and_iff_right haccepted).symm
      · have hi : i < client.bytes.length := by
          rw [client.length_bytes]
          omega
        rw [hbytes hr, ClientId.set, Table.take_succ_set hi, pairsOf, List.map_cons,
          List.append_assoc]
        rfl
    · rw [if_pos (not_accepted_iff.mpr haccepted)]
      have hne : (-1 : ℤ) ≠ 0 := by decide
      refine ⟨-1, client, rfl, iff_of_false hne fun hall => ?_, fun hr => absurd hr hne⟩
      exact haccepted (hall (c, c') (List.mem_cons_self ..))

/-- A string of even length is made up of its pairs. -/
theorem forall_mem_pairsOf {P : UInt8 → Prop} {chars : List UInt8} {n : ℕ}
    (h : chars.length = 2 * n) :
    (∀ p ∈ pairsOf chars, P p.1 ∧ P p.2) ↔ ∀ c ∈ chars, P c := by
  induction n generalizing chars with
  | zero =>
    obtain rfl := List.length_eq_zero_iff.mp h
    simp [pairsOf]
  | succ n ih =>
    match chars, h with
    | c :: c' :: rest, h =>
      rw [pairsOf, List.forall_mem_cons, List.forall_mem_cons, List.forall_mem_cons, and_assoc,
        ih (by simpa [Nat.mul_succ] using h)]

/-- What is stored for hexadecimal digits gives them back, in lower case. -/
theorem flatMap_hexByte {chars : List UInt8} {n : ℕ} (h : chars.length = 2 * n)
    (hpairs : ∀ p ∈ pairsOf chars, HexPair p.1 p.2) :
    ((pairsOf chars).map fun p => pairValue p.1 p.2).flatMap hexByte = chars.map lowerCase := by
  induction n generalizing chars with
  | zero =>
    obtain rfl := List.length_eq_zero_iff.mp h
    rfl
  | succ n ih =>
    match chars, h with
    | c :: c' :: rest, h =>
      rw [pairsOf, List.forall_mem_cons] at hpairs
      rw [pairsOf, List.map_cons, List.flatMap_cons, hpairs.1.hexByte,
        ih (by simpa [Nat.mul_succ] using h) hpairs.2]
      rfl

/-- What `get_client_value` does. -/
theorem getClientValue_outcome (string : CString) (client : ClientId) :
    ∃ r client', getClientValue string client = some (r, client') ∧
      (r = 0 ↔ string.chars.length = 2 * clientIdLength ∧
        ∀ p ∈ pairsOf string.chars, Accepted p.1 p.2) ∧
      (r = 0 → client'.bytes = (pairsOf string.chars).map fun p => pairValue p.1 p.2) := by
  rw [getClientValue]
  split
  · rename_i hlength
    have hne : (-1 : ℤ) ≠ 0 := by decide
    exact ⟨-1, client, rfl, iff_of_false hne fun h => hlength h.1, fun hr => absurd hr hne⟩
  · rename_i hlength
    rw [ne_eq, not_not] at hlength
    obtain ⟨r, client', hloop, hreturn, hbytes⟩ := clientLoop_outcome client
      (show string.chars.drop (2 * 0) = _ from rfl) hlength (Nat.zero_add _)
    exact ⟨r, client', hloop, hreturn.trans (and_iff_right hlength).symm, hbytes⟩

/-! ### Lenient strings -/

/-- For whatever array, `get_client_value` returns `0` exactly for client ids, and stores what is
written there. -/
def ClientIdExact (string : CString) : Prop :=
  ∀ client, ∃ r client', getClientValue string client = some (r, client') ∧
    (r = 0 ↔ IsHexId string.chars) ∧
    (r = 0 → client'.bytes.flatMap hexByte = string.chars.map lowerCase)

/-- A string that is accepted although it has pairs that are not hexadecimal digits. -/
structure Lenient (chars : List UInt8) : Prop where
  /-- It has the length of a client id. -/
  length : chars.length = 2 * clientIdLength
  /-- Every pair is accepted. -/
  pairs : ∀ p ∈ pairsOf chars, HexPair p.1 p.2 ∨ LaxPair p.1 p.2
  /-- Some pair begins with white space or a sign. -/
  lax : ∃ p ∈ pairsOf chars, LaxPair p.1 p.2

theorem isHexId_iff {chars : List UInt8} :
    IsHexId chars ↔
      chars.length = 2 * clientIdLength ∧ ∀ p ∈ pairsOf chars, HexPair p.1 p.2 := by
  constructor
  · intro h
    exact ⟨h.length, (forall_mem_pairsOf h.length).mpr h.digits⟩
  · rintro ⟨hlength, hpairs⟩
    exact ⟨hlength, (forall_mem_pairsOf hlength).mp hpairs⟩

/-- No pair is both. -/
theorem LaxPair.not_hexPair {c c' : UInt8} (h : LaxPair c c') : ¬HexPair c c' := by
  intro hhex
  have hsome := isSome_digit_iff.mpr hhex.1
  obtain ⟨hplus, hminus⟩ := ne_sign_of_digit hsome
  rcases h with ⟨hspace | hc, -⟩ | ⟨hc, -⟩
  · rw [isSpace_of_digit hsome] at hspace
    exact Bool.false_ne_true hspace
  · exact hplus hc
  · exact hminus hc

/-- **Exactly the client ids.** A string is accepted for what it is unless it is lenient. -/
theorem clientIdExact_iff (string : CString) :
    ClientIdExact string ↔ ¬Lenient string.chars := by
  constructor
  · rintro hexact ⟨hlength, hpairs, p, hp, hlax⟩
    -- what the array holds before makes no difference
    obtain ⟨r, client', hget, hreturn, -⟩ := hexact ⟨_, length_zeroClient⟩
    obtain ⟨r', client'', hget', hreturn', -⟩ :=
      getClientValue_outcome string ⟨_, length_zeroClient⟩
    obtain ⟨rfl, -⟩ := Prod.mk.inj (Option.some.inj (hget.symm.trans hget'))
    have haccepted := hreturn'.mpr ⟨hlength, fun p hp => accepted_iff.mpr (hpairs p hp)⟩
    exact hlax.not_hexPair ((isHexId_iff.mp (hreturn.mp haccepted)).2 p hp)
  · intro hlenient client
    obtain ⟨r, client', hget, hreturn, hbytes⟩ := getClientValue_outcome string client
    have hhex : r = 0 ↔ IsHexId string.chars := by
      rw [hreturn, isHexId_iff]
      refine and_congr_right fun hlength => ?_
      constructor
      · intro haccepted p hp
        have hpairs := fun p hp => accepted_iff.mp (haccepted p hp)
        refine (hpairs p hp).resolve_right fun hlax => ?_
        exact hlenient ⟨hlength, hpairs, p, hp, hlax⟩
      · intro hpairs p hp
        exact accepted_iff.mpr (Or.inl (hpairs p hp))
    refine ⟨r, client', hget, hhex, fun hr => ?_⟩
    obtain ⟨hlength, hpairs⟩ := isHexId_iff.mp (hhex.mp hr)
    rw [hbytes hr, flatMap_hexByte hlength hpairs]

/-- A blank and 31 zeros. -/
def blankId : CString := ⟨0x20 :: List.replicate 31 0x30, by decide⟩

/-- The client id of zeros. -/
def zeroId : ClientId := ⟨List.replicate clientIdLength 0, length_zeroClient⟩

/-- The blank passes for a zero. -/
theorem getClientValue_blankId : getClientValue blankId zeroId = some (0, zeroId) := by
  decide

/-- The blank is not a hexadecimal digit. -/
theorem blankId_not_exact : ¬ClientIdExact blankId := by
  intro hexact
  obtain ⟨r, client', hget, hreturn, -⟩ := hexact zeroId
  obtain ⟨rfl, -⟩ := Prod.mk.inj (Option.some.inj (getClientValue_blankId.symm.trans hget))
  have hblank : IsHexDigit 0x20 := (hreturn.mp rfl).digits 0x20 (List.mem_cons_self ..)
  exact absurd hblank (by rw [IsHexDigit]; decide)

end DnsTools
