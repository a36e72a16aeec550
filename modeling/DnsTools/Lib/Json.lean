import DnsTools.Lib.Decimal
import Mathlib.Algebra.Order.Field.Rat
import Mathlib.Data.List.Basic

/-!
# JSON texts

A decoder for JSON texts (`Json.decode`). Of a number it tells whether it is written as an integer,
and leaves it as it is written if not; `Json.numberValue` tells what it stands for. Escapes for
halves of surrogate pairs are not decoded.

Each function takes what is left of the text and returns it together with what it has read; a
failure is `none`. The recursion of values, elements and members is on fuel, and the text itself is
fuel enough for a text that makes sense.

## Reading what was printed

A printer and a decoder of a format are seldom each other's inverse: many texts stand for one value,
and a printer that writes piece by piece has no value at hand to print. So there is no printer here,
and the lemmas say what is read of a text that begins in a certain way, whatever stands behind. To
read a text that a program prints, one applies them from the last piece to the first.

Two things about what stands behind do matter. White space in front of a token is skipped, so
hypotheses are about `skip cs` and not about `cs`. And a number ends where no digit, point or
exponent follows, which is what `Ends` says of the rest; a bracket, a comma and white space will do.

## The rules

* `Json.value_int` — a number
* `Json.value_array`, `Json.elements_last`, `Json.elements_more` — an array
* `Json.value_object`, `Json.members_last`, `Json.members_more` — an object
* `Json.elements_separated` — a list printed with separators between its entries
-/

/-- A JSON value. -/
inductive Json
  | null
  | bool (b : Bool)
  | int (i : ℤ)
  | real (literal : List Char)
  | string (s : List Char)
  | array (elements : List Json)
  | object (members : List (List Char × Json))
deriving Repr

namespace Json

/-! ### The decoder -/

/-- The characters that may stand between tokens. -/
def isSpace (c : Char) : Bool := c = ' ' || c = '\t' || c = '\n' || c = '\r'

/-- Skip what does not matter. -/
def skip (cs : List Char) : List Char := cs.dropWhile isSpace

/-- The value of a hexadecimal digit. -/
def hexDigit (c : Char) : Option ℕ :=
  if c.isDigit then some (c.toNat - 48)
  else if 'a' ≤ c ∧ c ≤ 'f' then some (c.toNat - 87)
  else if 'A' ≤ c ∧ c ≤ 'F' then some (c.toNat - 55)
  else none

/-- The characters that stand for themselves or another one behind a backslash. -/
def escaped (c : Char) : Option Char :=
  match c with
  | '"' => some '"'
  | '\\' => some '\\'
  | '/' => some '/'
  | 'b' => some (Char.ofNat 8)
  | 'f' => some (Char.ofNat 12)
  | 'n' => some '\n'
  | 'r' => some '\r'
  | 't' => some '\t'
  | _ => none

/-- A string, behind its opening quote. -/
def stringBody : List Char → Option (List Char × List Char)
  | [] => none
  | '"' :: cs => some ([], cs)
  | '\\' :: 'u' :: c₁ :: c₂ :: c₃ :: c₄ :: cs => do
    let code := (← hexDigit c₁) * 4096 + (← hexDigit c₂) * 256 + (← hexDigit c₃) * 16 +
      (← hexDigit c₄)
    if 0xD800 ≤ code ∧ code < 0xE000 then none
    else
      let (s, rest) ← stringBody cs
      return (Char.ofNat code :: s, rest)
  | '\\' :: c :: cs => do
    let c ← escaped c
    let (s, rest) ← stringBody cs
    return (c :: s, rest)
  | c :: cs =>
    if c.toNat < 32 then none
    else do
      let (s, rest) ← stringBody cs
      return (c :: s, rest)

/-- The digits at the head of a text, if there are any. -/
def digits (cs : List Char) : Option (List Char × List Char) :=
  let ds := cs.takeWhile Char.isDigit
  if ds = [] then none else some (ds, cs.dropWhile Char.isDigit)

/-- The fraction of a number, which may be missing. -/
def fraction (cs : List Char) : Option (List Char × List Char) :=
  match cs with
  | '.' :: cs => do
    let (ds, rest) ← digits cs
    return ('.' :: ds, rest)
  | _ => some ([], cs)

/-- The exponent of a number, which may be missing. -/
def exponent (cs : List Char) : Option (List Char × List Char) :=
  match cs with
  | c :: cs =>
    if c = 'e' ∨ c = 'E' then
      match cs with
      | sign :: cs' =>
        if sign = '+' ∨ sign = '-' then do
          let (ds, rest) ← digits cs'
          return (c :: sign :: ds, rest)
        else do
          let (ds, rest) ← digits cs
          return (c :: ds, rest)
      | [] => none
    else some ([], c :: cs)
  | [] => some ([], [])

/-- A number without its sign: the integer part has no leading zeros. -/
def unsigned (negative : Bool) (cs : List Char) : Option (Json × List Char) := do
  let (ds, cs) ← digits cs
  if ds.head? = some '0' ∧ ds ≠ ['0'] then none
  else
    let (frac, cs) ← fraction cs
    let (exp, cs) ← exponent cs
    let n : ℤ := Nat.ofDigitChars 10 ds 0
    if frac = [] ∧ exp = [] then return (.int (if negative then -n else n), cs)
    else return (.real ((if negative then ['-'] else []) ++ ds ++ frac ++ exp), cs)

/-- A number. -/
def number : List Char → Option (Json × List Char)
  | '-' :: cs => unsigned true cs
  | cs => unsigned false cs

/-- A word, behind its first letter. -/
def word (rest : List Char) (v : Json) (cs : List Char) : Option (Json × List Char) :=
  if rest.isPrefixOf cs then some (v, cs.drop rest.length) else none

mutual

/-- A value. -/
def value : ℕ → List Char → Option (Json × List Char)
  | 0, _ => none
  | fuel + 1, cs =>
    match skip cs with
    | [] => none
    | c :: cs =>
      if c = '[' then
        if (skip cs).head? = some ']' then some (.array [], (skip cs).tail)
        else do
          let (vs, cs) ← elements fuel cs
          return (.array vs, cs)
      else if c = '{' then
        if (skip cs).head? = some '}' then some (.object [], (skip cs).tail)
        else do
          let (ms, cs) ← members fuel cs
          return (.object ms, cs)
      else if c = '"' then do
        let (s, cs) ← stringBody cs
        return (.string s, cs)
      else if c = 't' then word ['r', 'u', 'e'] (.bool true) cs
      else if c = 'f' then word ['a', 'l', 's', 'e'] (.bool false) cs
      else if c = 'n' then word ['u', 'l', 'l'] .null cs
      else number (c :: cs)

/-- The elements of an array that is not empty, with its closing bracket. -/
def elements : ℕ → List Char → Option (List Json × List Char)
  | 0, _ => none
  | fuel + 1, cs => do
    let (v, cs) ← value fuel cs
    match skip cs with
    | ',' :: cs =>
      let (vs, cs) ← elements fuel cs
      return (v :: vs, cs)
    | ']' :: cs => return ([v], cs)
    | _ => none

/-- The members of an object that is not empty, with its closing brace. -/
def members : ℕ → List Char → Option (List (List Char × Json) × List Char)
  | 0, _ => none
  | fuel + 1, cs =>
    match skip cs with
    | '"' :: cs => do
      let (key, cs) ← stringBody cs
      match skip cs with
      | ':' :: cs =>
        let (v, cs) ← value fuel cs
        match skip cs with
        | ',' :: cs =>
          let (ms, cs) ← members fuel cs
          return ((key, v) :: ms, cs)
        | '}' :: cs => return ([(key, v)], cs)
        | _ => none
      | _ => none
    | _ => none

end

/-- The value of a JSON text. -/
def decode (cs : List Char) : Option Json := do
  let (v, rest) ← value (cs.length + 1) cs
  if skip rest = [] then some v else none

/-- What an exponent stands for. -/
def exponentValue : List Char → ℤ
  | _ :: '-' :: ds => -Nat.ofDigitChars 10 ds 0
  | _ :: '+' :: ds => Nat.ofDigitChars 10 ds 0
  | _ :: ds => Nat.ofDigitChars 10 ds 0
  | [] => 0

/-- What the literal of a number that is no integer stands for, without its sign. -/
def unsignedValue (cs : List Char) : Option ℚ := do
  let (ds, cs) ← digits cs
  let (frac, cs) ← fraction cs
  let (exp, _) ← exponent cs
  let mantissa : ℚ := Nat.ofDigitChars 10 (ds ++ frac.tail) 0
  return mantissa * 10 ^ (exponentValue exp - frac.tail.length)

/-- The value of a number. -/
def numberValue : Json → Option ℚ
  | .int i => some i
  | .real ('-' :: cs) => (unsignedValue cs).map (-·)
  | .real cs => unsignedValue cs
  | _ => none

/-! ### What is skipped -/

section Rules

variable {α : Type*} {c : Char} {cs cs' rest : List Char} {fuel : ℕ}

theorem skip_append {ws : List Char} (h : ∀ c ∈ ws, isSpace c = true) :
    skip (ws ++ cs) = skip cs := by
  rw [skip, List.dropWhile_append_of_pos h]
  rfl

theorem skip_cons (h : isSpace c = false) : skip (c :: cs) = c :: cs := by
  rw [skip, List.dropWhile_cons_of_neg (by rw [h]; decide)]

/-- The characters that may stand behind a number. -/
def delimiters : List Char := [',', ']', '}', ' ', '\t', '\n', '\r']

/-- A number before this text is at its end. -/
def Ends (cs : List Char) : Prop := ∀ c, cs.head? = some c → c ∈ delimiters

theorem ends_cons (h : c ∈ delimiters) : Ends (c :: cs) := by
  intro d hd
  rwa [← Option.some.inj hd]

theorem ends_append {ws : List Char} (hws : ∀ c ∈ ws, isSpace c = true) (h : c ∈ delimiters) :
    Ends (ws ++ c :: cs) := by
  cases ws with
  | nil => exact ends_cons h
  | cons d ws =>
    have hd := hws d List.mem_cons_self
    refine ends_cons ?_
    simp only [isSpace, Bool.or_eq_true, decide_eq_true_eq] at hd
    rcases hd with ((rfl | rfl) | rfl) | rfl <;> decide

/-! ### Numbers -/

theorem digits_append {n : ℕ} (hrest : Ends rest) :
    digits (Nat.toDigits 10 n ++ rest) = some (Nat.toDigits 10 n, rest) := by
  have hdigit : ∀ c ∈ Nat.toDigits 10 n, c.isDigit = true := fun c hc => Decimal.isDigit_of_mem hc
  have hdelimiter : ∀ c ∈ delimiters, c.isDigit = false := by simp [delimiters]
  have hstop : rest.takeWhile Char.isDigit = [] ∧ rest.dropWhile Char.isDigit = rest := by
    cases rest with
    | nil => exact ⟨rfl, rfl⟩
    | cons c rest => simp [hdelimiter c (hrest c rfl)]
  rw [digits, List.takeWhile_append_of_pos hdigit, List.dropWhile_append_of_pos hdigit, hstop.1,
    hstop.2, List.append_nil]
  exact if_neg Nat.toDigits_ne_nil

theorem fraction_of_ends (h : Ends cs) : fraction cs = some ([], cs) := by
  cases cs with
  | nil => rfl
  | cons c cs =>
    have hne : c ≠ '.' := by
      rintro rfl
      exact absurd (h '.' rfl) (by decide)
    rw [fraction]
    rintro cs' ⟨⟩
    exact hne rfl

theorem exponent_of_ends (h : Ends cs) : exponent cs = some ([], cs) := by
  cases cs with
  | nil => rfl
  | cons c cs =>
    have hne : ¬ (c = 'e' ∨ c = 'E') := by
      rintro (rfl | rfl)
      · exact absurd (h 'e' rfl) (by decide)
      · exact absurd (h 'E' rfl) (by decide)
    rw [exponent.eq_def]
    exact if_neg hne

theorem unsigned_append {n : ℕ} (negative : Bool) (hrest : Ends rest) :
    unsigned negative (Nat.toDigits 10 n ++ rest) =
      some (.int (if negative then -n else n), rest) := by
  have hzero : ¬ ((Nat.toDigits 10 n).head? = some '0' ∧ Nat.toDigits 10 n ≠ ['0']) := by
    rintro ⟨hhead, hne⟩
    rcases n.eq_zero_or_pos with rfl | hpos
    · exact hne (Nat.toDigits_zero 10)
    · exact Decimal.head_toDigits_ne_zero hpos hhead
  rw [unsigned, digits_append hrest]
  simp only [Option.bind_eq_bind, Option.bind_some, if_neg hzero, fraction_of_ends hrest,
    exponent_of_ends hrest, Nat.ofDigitChars_ten_toDigits]
  rfl

theorem number_of_ne (h : c ≠ '-') : number (c :: cs) = unsigned false (c :: cs) := by
  rw [number]
  rintro cs' ⟨⟩
  exact h rfl

theorem number_append {i : ℤ} (hrest : Ends rest) :
    number (Decimal.formatInt i ++ rest) = some (.int i, rest) := by
  cases i with
  | ofNat n =>
    obtain ⟨c, ds, hds⟩ := List.exists_cons_of_ne_nil (Nat.toDigits_ne_nil (n := n) (b := 10))
    have hc : c ≠ '-' := by
      rintro rfl
      exact Decimal.sign_ne_head hds
    have hunsigned := unsigned_append (n := n) false hrest
    rw [hds] at hunsigned
    rw [Decimal.formatInt, hds, List.cons_append, number_of_ne hc]
    exact hunsigned
  | negSucc n =>
    show unsigned true (Nat.toDigits 10 (n + 1) ++ rest) = _
    rw [unsigned_append true hrest]
    rfl

/-- An integer is read as what it stands for. -/
theorem value_int {i : ℤ} (hskip : skip cs = Decimal.formatInt i ++ rest) (hrest : Ends rest) :
    value (fuel + 1) cs = some (.int i, rest) := by
  obtain ⟨c, ds, hds⟩ := List.exists_cons_of_ne_nil (Decimal.formatInt_ne_nil i)
  have hnumber := number_append (i := i) hrest
  rw [hds] at hskip hnumber
  rw [List.cons_append] at hskip hnumber
  have hother : ∀ d ∈ ['[', '{', '"', 't', 'f', 'n'], ¬ (d.isDigit = true ∨ d = '-') := by simp
  have hne : ∀ d ∈ ['[', '{', '"', 't', 'f', 'n'], c ≠ d := by
    rintro d hd rfl
    exact hother c hd (Decimal.isDigit_or_sign (hds ▸ List.mem_cons_self))
  rw [value, hskip]
  simp only [List.forall_mem_cons] at hne
  simp only [hne, if_false]
  exact hnumber

/-- Nothing is skipped before a number. -/
theorem skip_formatInt (i : ℤ) : skip (Decimal.formatInt i ++ cs) = Decimal.formatInt i ++ cs := by
  obtain ⟨c, ds, hds⟩ := List.exists_cons_of_ne_nil (Decimal.formatInt_ne_nil i)
  have hspace : ∀ d ∈ [' ', '\t', '\n', '\r'], ¬ (d.isDigit = true ∨ d = '-') := by simp
  have hc := Decimal.isDigit_or_sign (hds ▸ List.mem_cons_self : c ∈ Decimal.formatInt i)
  rw [hds, List.cons_append]
  refine skip_cons (Bool.eq_false_iff.mpr fun h => ?_)
  simp only [isSpace, Bool.or_eq_true, decide_eq_true_eq] at h
  exact hspace c (by simpa [or_assoc] using h) hc

/-! ### Arrays -/

/-- An array whose first element does not look like its end. -/
theorem value_array {vs : List Json} (hskip : skip cs = '[' :: cs')
    (hne : (skip cs').head? ≠ some ']') (hvs : elements fuel cs' = some (vs, rest)) :
    value (fuel + 1) cs = some (.array vs, rest) := by
  rw [value, hskip]
  simp only [if_true, if_neg hne, hvs]
  rfl

theorem value_array_nil (hskip : skip cs = '[' :: cs') (hclose : skip cs' = ']' :: rest) :
    value (fuel + 1) cs = some (.array [], rest) := by
  rw [value, hskip]
  simp only [if_true, hclose, List.head?_cons, List.tail_cons]

theorem elements_last {v : Json} (hv : value fuel cs = some (v, cs'))
    (hclose : skip cs' = ']' :: rest) : elements (fuel + 1) cs = some ([v], rest) := by
  rw [elements, hv, Option.bind_eq_bind, Option.bind_some]
  simp only [hclose]
  rfl

theorem elements_more {v : Json} {vs : List Json} {cs'' : List Char}
    (hv : value fuel cs = some (v, cs')) (hcomma : skip cs' = ',' :: cs'')
    (hvs : elements fuel cs'' = some (vs, rest)) :
    elements (fuel + 1) cs = some (v :: vs, rest) := by
  rw [elements, hv, Option.bind_eq_bind, Option.bind_some]
  simp only [hcomma, hvs]
  rfl

/-- No value begins like the end of an array. -/
theorem value_of_close (h : (skip cs).head? = some ']') : value fuel cs = none := by
  cases fuel with
  | zero => rw [value]
  | succ fuel =>
    obtain ⟨cs', hcs⟩ : ∃ cs', skip cs = ']' :: cs' := by
      cases hskip : skip cs with
      | nil => rw [hskip] at h; cases h
      | cons c cs' => exact ⟨cs', by rw [hskip] at h; rw [Option.some.inj h]⟩
    rw [value, hcs]
    rfl

theorem head_ne_close {vs : List Json} (h : elements fuel cs = some (vs, rest)) :
    (skip cs).head? ≠ some ']' := by
  intro hclose
  cases fuel with
  | zero => rw [elements] at h; cases h
  | succ fuel =>
    rw [elements, value_of_close hclose] at h
    cases h

/-- A list of one number. -/
theorem value_singleton (i : ℤ)
    (hskip : skip cs = '[' :: (Decimal.formatInt i ++ ']' :: rest)) :
    value (fuel + 3) cs = some (.array [.int i], rest) := by
  have helements : elements (fuel + 2) _ = some ([.int i], rest) :=
    elements_last (value_int (skip_formatInt i) (ends_cons (by decide))) (skip_cons (by decide))
  exact value_array hskip (head_ne_close helements) helements

/-- A list of three numbers, with a space behind each comma. -/
theorem value_triple (i j k : ℤ)
    (hskip : skip cs = '[' :: (Decimal.formatInt i ++ ',' :: ' ' :: (Decimal.formatInt j ++
      ',' :: ' ' :: (Decimal.formatInt k ++ ']' :: rest)))) :
    value (fuel + 5) cs = some (.array [.int i, .int j, .int k], rest) := by
  have hlast : elements (fuel + 2) (' ' :: _) = some ([.int k], rest) :=
    elements_last (value_int (skip_formatInt k) (ends_cons (by decide))) (skip_cons (by decide))
  have hmore : elements (fuel + 3) (' ' :: _) = some ([.int j, .int k], rest) :=
    elements_more (value_int (skip_formatInt j) (ends_cons (by decide))) (skip_cons (by decide))
      hlast
  have helements : elements (fuel + 4) _ = some ([.int i, .int j, .int k], rest) :=
    elements_more (value_int (skip_formatInt i) (ends_cons (by decide))) (skip_cons (by decide))
      hmore
  exact value_array hskip (head_ne_close helements) helements

/-! ### Objects -/

/-- A key that stands for itself. -/
def PlainKey (key : List Char) : Prop := ∀ c ∈ key, c ≠ '"' ∧ c ≠ '\\' ∧ 32 ≤ c.toNat

theorem stringBody_plain {key : List Char} (hkey : PlainKey key) :
    stringBody (key ++ '"' :: cs) = some (key, cs) := by
  induction key with
  | nil => rfl
  | cons c key ih =>
    obtain ⟨hquote, hescape, hcontrol⟩ := hkey c List.mem_cons_self
    have htail := ih fun d hd => hkey d (List.mem_cons_of_mem _ hd)
    rw [List.cons_append, stringBody.eq_def]
    split
    case h_1 heq => cases heq
    case h_2 heq => exact absurd (List.cons.inj heq).1 hquote
    case h_3 heq => exact absurd (List.cons.inj heq).1 hescape
    case h_4 heq => exact absurd (List.cons.inj heq).1 hescape
    case h_5 heq =>
      obtain ⟨rfl, rfl⟩ := List.cons.inj heq
      rw [if_neg (by omega), htail]
      rfl

theorem value_object {ms : List (List Char × Json)} (hskip : skip cs = '{' :: cs')
    (hne : (skip cs').head? ≠ some '}') (hms : members fuel cs' = some (ms, rest)) :
    value (fuel + 1) cs = some (.object ms, rest) := by
  have hbracket : ¬ ('{' : Char) = '[' := by decide
  rw [value, hskip]
  simp only [if_neg hbracket, if_true, if_neg hne, hms]
  rfl

theorem members_append {ws : List Char} (h : ∀ c ∈ ws, isSpace c = true) :
    members fuel (ws ++ cs) = members fuel cs := by
  cases fuel with
  | zero => rw [members, members]
  | succ fuel => rw [members, members, skip_append h]

theorem members_last {key : List Char} {v : Json} {cs₁ cs₂ cs₃ : List Char}
    (hkey : skip cs = '"' :: key ++ '"' :: cs₁) (hplain : PlainKey key)
    (hcolon : skip cs₁ = ':' :: cs₂) (hv : value fuel cs₂ = some (v, cs₃))
    (hclose : skip cs₃ = '}' :: rest) : members (fuel + 1) cs = some ([(key, v)], rest) := by
  rw [members, hkey, List.cons_append]
  simp only [stringBody_plain hplain, Option.bind_eq_bind, Option.bind_some, hcolon, hv, hclose]
  rfl

theorem members_more {key : List Char} {v : Json} {ms : List (List Char × Json)}
    {cs₁ cs₂ cs₃ cs₄ : List Char} (hkey : skip cs = '"' :: key ++ '"' :: cs₁)
    (hplain : PlainKey key) (hcolon : skip cs₁ = ':' :: cs₂)
    (hv : value fuel cs₂ = some (v, cs₃)) (hcomma : skip cs₃ = ',' :: cs₄)
    (hms : members fuel cs₄ = some (ms, rest)) :
    members (fuel + 1) cs = some ((key, v) :: ms, rest) := by
  rw [members, hkey, List.cons_append]
  simp only [stringBody_plain hplain, Option.bind_eq_bind, Option.bind_some, hcolon, hv, hcomma,
    hms]
  rfl

theorem decode_eq {v : Json} (hv : value (cs.length + 1) cs = some (v, rest))
    (hrest : skip rest = []) : decode cs = some v := by
  rw [decode, hv, Option.bind_eq_bind, Option.bind_some]
  exact if_pos hrest

/-! ### Printed lists -/

/-- Print the entries with commas between them, each between two texts of its own. -/
def separated (pre post : List Char) (item : α → List Char) : List α → List Char
  | [] => []
  | [x] => pre ++ item x ++ post
  | x :: xs => pre ++ item x ++ ',' :: separated pre post item xs

theorem separated_singleton {pre post : List Char} {item : α → List Char} {x : α} :
    separated pre post item [x] = pre ++ item x ++ post := rfl

theorem separated_cons_cons {pre post : List Char} {item : α → List Char} {x y : α} {ys : List α} :
    separated pre post item (x :: y :: ys) =
      pre ++ item x ++ ',' :: separated pre post item (y :: ys) := rfl

/-- Entries that can be read one by one can be read as the elements of an array. -/
theorem elements_separated {pre post : List Char} {item : α → List Char} {val : α → Json} {d : ℕ}
    (hpost : ∀ c ∈ post, isSpace c = true) {xs : List α} (hne : xs ≠ [])
    (hitem : ∀ x ∈ xs, ∀ fuel, d ≤ fuel → ∀ rest, Ends rest →
      value fuel (pre ++ item x ++ rest) = some (val x, rest))
    (hfuel : d + xs.length ≤ fuel) :
    elements fuel (separated pre post item xs ++ ']' :: rest) = some (xs.map val, rest) := by
  induction xs generalizing fuel with
  | nil => exact absurd rfl hne
  | cons x xs ih =>
    rw [List.length_cons] at hfuel
    obtain ⟨fuel, rfl⟩ := Nat.exists_eq_add_one_of_ne_zero (show fuel ≠ 0 by omega)
    have hx := hitem x List.mem_cons_self fuel (by omega)
    cases xs with
    | nil =>
      have hends : Ends (post ++ ']' :: rest) := ends_append hpost (by decide)
      have hskip : skip (post ++ ']' :: rest) = ']' :: rest := by
        rw [skip_append hpost, skip_cons (by decide)]
      have hlast := elements_last (hx _ hends) hskip
      rw [List.append_assoc] at hlast
      rw [separated_singleton, List.append_assoc, List.append_assoc]
      exact hlast
    | cons y ys =>
      have hys := ih (List.cons_ne_nil y ys) (fun z hz => hitem z (List.mem_cons_of_mem x hz))
        (show d + (y :: ys).length ≤ fuel by omega)
      have hmore := elements_more (hx _ (ends_cons (by decide))) (skip_cons (by decide)) hys
      rw [separated_cons_cons, List.append_assoc, List.cons_append]
      exact hmore

/-- A printed list is read as an array, also if it is empty. -/
theorem value_separated {pre post : List Char} {item : α → List Char} {val : α → Json} {d : ℕ}
    {xs : List α} (hskip : skip cs = '[' :: (separated pre post item xs ++ ']' :: rest))
    (hpost : ∀ c ∈ post, isSpace c = true)
    (hitem : ∀ x ∈ xs, ∀ fuel, d ≤ fuel → ∀ rest, Ends rest →
      value fuel (pre ++ item x ++ rest) = some (val x, rest))
    (hfuel : d + xs.length ≤ fuel) :
    value (fuel + 1) cs = some (.array (xs.map val), rest) := by
  by_cases hnil : xs = []
  · subst hnil
    exact value_array_nil hskip (skip_cons (by decide))
  · have helements : elements fuel _ = some (_, rest) :=
      elements_separated hpost hnil hitem hfuel
    exact value_array hskip (head_ne_close helements) helements

theorem length_le_separated {pre post : List Char} {item : α → List Char} {xs : List α}
    (hpre : 0 < pre.length) : xs.length ≤ (separated pre post item xs).length := by
  induction xs with
  | nil => exact Nat.zero_le _
  | cons x xs ih =>
    cases xs with
    | nil =>
      rw [separated_singleton, List.length_append, List.length_append, List.length_singleton]
      omega
    | cons y ys =>
      rw [separated_cons_cons]
      simp only [List.length_append, List.length_cons] at ih ⊢
      omega

end Rules

end Json
