import DnsTools.Analyser.Process
import DnsTools.Lib.Decimal
import DnsTools.Lib.FloatingPoint
import DnsTools.Lib.StableSort

/-!
# The inputs of grinder

`enumerate_inputs` of `grinder.py`, and the beginning of its `main`: the files are listed, and if
each of them has a speed in its name they are sorted by speed and get labels. A file that is not
found in a directory has no speed, whatever its name is.

Names are those of Python 2, whose strings are bytes: `\d` and `lower` know ASCII only. A label in
thousands is made of a floating-point number with 53 bits. For speeds below `labelledSpeeds` three
decimal places of it are exact; further on there are speeds that share a label. The exponent of the
number has no limit here: a name of a file is too short for a speed that would be too large for it.

## Main results

* `thousandths_scaledLabel` — a label tells the speed, as long as this is not too large
* `inputs_sound` — which inputs there are, in which order, and with which labels
-/

namespace DnsTools

namespace Grinder

open Decimal FloatingPoint

/-! ### The files -/

/-- What `main` sees of the file system. -/
structure Files where
  /-- The names in a directory, if there is one of this name. -/
  listdir : String → Option (List String)
  /-- What a file contains. -/
  read : String → List Char

/-- `os.path.splitext(name)[1]`, of a name without directories. -/
def extension (name : List Char) : List Char :=
  let body := name.dropWhile (· = '.')
  if '.' ∈ body then '.' :: (body.reverse.takeWhile (· ≠ '.')).reverse else []

/-- `os.path.splitext(name)[1].lower() == ".json"`. -/
def isJson (name : String) : Bool := (extension name.toList).map Char.toLower = ".json".toList

/-- The speed that `NAME_REGEX` finds in a name. The regular expression ignores the case, and
`isJson` has made sure that nothing follows the extension. -/
def speedOf (name : String) : Option ℕ :=
  let name := name.toList.map Char.toLower
  let digits := (name.drop 5).takeWhile Char.isDigit
  if name.take 5 = "test-".toList ∧ digits ≠ [] ∧
      (name.drop 5).dropWhile Char.isDigit = ".json".toList then
    some (Nat.ofDigitChars 10 digits 0)
  else none

/-- `os.path.join(item, name)`. -/
def join (item name : String) : String :=
  if item.toList.getLast? = some '/' then item ++ name else item ++ "/" ++ name

/-- An input as it is found. -/
structure Found where
  /-- `i`. -/
  i : ℕ
  /-- `name`. -/
  name : String
  /-- `speed`. -/
  speed : Option ℕ
deriving DecidableEq, Repr

/-- The body of the loop of `enumerate_inputs`. -/
def filesOf (files : Files) (item : String) : List (String × Option ℕ) :=
  match files.listdir item with
  | some names => (names.filter isJson).map fun name => (join item name, speedOf name)
  | none => [(item, none)]

/-- `enumerate_inputs`. -/
def enumerateInputs (files : Files) (inputs : List String) : List Found :=
  (inputs.flatMap (filesOf files)).zipIdx.map fun (file, i) =>
    { i, name := file.1, speed := file.2 }

/-! ### The labels -/

/-- `"%.1f" % x`, and so on, of a number that is not negative. -/
def formatFixed (places : ℕ) (x : ℚ) : List Char := fixed places (roundEven (x * 10 ^ places)).toNat

/-- `speed/1000.`: the speed is made a floating-point number, and then divided. -/
def inThousands (speed : ℕ) : ℚ := roundTo 53 (roundTo 53 (speed : ℚ) / 1000)

/-- `"%s" % speed`. -/
def plainLabel (speed : ℕ) : List Char := Nat.toDigits 10 speed

/-- The label in thousands, with as few decimal places as it needs. -/
def scaledLabel (speed : ℕ) : List Char :=
  (if speed % 1000 = 0 then Nat.toDigits 10 (speed / 1000)
    else if speed % 100 = 0 then formatFixed 1 (inThousands speed)
    else if speed % 10 = 0 then formatFixed 2 (inThousands speed)
    else formatFixed 3 (inThousands speed)) ++ ['k']

/-- The speed of an input that has one. -/
def Found.key (found : Found) : ℕ := found.speed.getD 0

/-- `label` of a speed, where `scaled_speed` of `count` inputs have at least 1000. -/
def labelOf (scaledSpeed count speed : ℕ) : List Char :=
  if 3 * scaledSpeed < count then plainLabel speed else scaledLabel speed

/-- The inputs of the loop of `main`. -/
def inputsOf (files : Files) (found : List Found) : List Input :=
  if found.any (·.speed.isNone) then
    found.map fun item =>
      { i := item.i, text := files.read item.name, label := none, speed := none }
  else
    let scaledSpeed := found.countP (1000 ≤ ·.key)
    (found.mergeSort (·.key ≤ ·.key)).map fun item =>
      { i := item.i
        text := files.read item.name
        label := some (String.ofList (labelOf scaledSpeed found.length item.key))
        speed := some item.key }

/-! ### Reading a label -/

/-- The number that stands in a label of thousands, without its point. -/
def thousandths (label : List Char) : ℕ :=
  let whole := label.takeWhile Char.isDigit
  let fraction := (label.drop (whole.length + 1)).takeWhile Char.isDigit
  Nat.ofDigitChars 10 (whole ++ fraction) 0 * 10 ^ (3 - fraction.length)

/-- The digits in front of something that is not a digit. -/
theorem takeWhile_digits {ds rest : List Char} {c : Char} (hds : ∀ d ∈ ds, d.isDigit)
    (hc : ¬c.isDigit) : (ds ++ c :: rest).takeWhile Char.isDigit = ds := by
  rw [List.takeWhile_append_of_pos hds, List.takeWhile_cons_of_neg hc, List.append_nil]

theorem thousandths_whole (n : ℕ) : thousandths (Nat.toDigits 10 n ++ ['k']) = n * 1000 := by
  have hwhole : (Nat.toDigits 10 n ++ ['k']).takeWhile Char.isDigit = Nat.toDigits 10 n :=
    takeWhile_digits (fun d hd => isDigit_of_mem hd) (by decide)
  rw [thousandths, hwhole]
  simp

theorem thousandths_fixed {places : ℕ} (hplaces : 0 < places) (n : ℕ) :
    thousandths (fixed places n ++ ['k']) = n * 10 ^ (3 - places) := by
  have hpos : 0 < 10 ^ places := Nat.pow_pos (by decide)
  have hsplit : fixed places n ++ ['k'] = Nat.toDigits 10 (n / 10 ^ places) ++
      '.' :: (padded places (n % 10 ^ places) ++ ['k']) := by
    rw [fixed, List.append_assoc, List.cons_append]
  have hwhole : (fixed places n ++ ['k']).takeWhile Char.isDigit =
      Nat.toDigits 10 (n / 10 ^ places) := by
    rw [hsplit]
    exact takeWhile_digits (fun d hd => isDigit_of_mem hd) (by decide)
  have hrest : (fixed places n ++ ['k']).drop ((Nat.toDigits 10 (n / 10 ^ places)).length + 1) =
      padded places (n % 10 ^ places) ++ ['k'] := by
    rw [hsplit, ← List.drop_drop, List.drop_left]
    rfl
  have hfraction : (padded places (n % 10 ^ places) ++ ['k']).takeWhile Char.isDigit =
      padded places (n % 10 ^ places) :=
    takeWhile_digits (fun d hd => isDigit_of_mem_padded hd) (by decide)
  rw [thousandths, hwhole, hrest, hfraction, ofDigitChars_fixed hplaces,
    length_padded hplaces (Nat.mod_lt n hpos)]

/-- The speeds up to here are told apart by three decimal places of a floating-point number. -/
def labelledSpeeds : ℕ := 1000 * 2 ^ 43

/-- Below it the floating-point number is off by less than half of the last decimal place. -/
theorem abs_inThousands_sub_lt {speed : ℕ} (hspeed : speed < labelledSpeeds) :
    |inThousands speed - speed / 1000| < 1 / 2000 := by
  have hexact : roundTo 53 (speed : ℚ) = speed :=
    roundTo_natCast (hspeed.trans (by rw [labelledSpeeds]; norm_num))
  rw [inThousands, hexact]
  rcases Nat.eq_zero_or_pos speed with rfl | hpos
  · have hzero : roundTo 53 (((0 : ℕ) : ℚ) / 1000) = 0 := by
      rw [Nat.cast_zero, zero_div]
      exact_mod_cast roundTo_natCast (K := ℚ) (show 0 < 2 ^ 53 by norm_num)
    rw [hzero]
    norm_num
  have hpos' : (0 : ℚ) < speed / 1000 := by positivity
  have hlt : (speed : ℚ) / 1000 < 2 ^ (43 : ℤ) := by
    have hcast : (speed : ℚ) < (labelledSpeeds : ℕ) := Nat.cast_lt.mpr hspeed
    rw [labelledSpeeds] at hcast
    rw [div_lt_iff₀ (by norm_num)]
    push_cast at hcast
    norm_num at hcast ⊢
    linarith
  have hulp := ulp_le (p := 53) hpos' hlt
  calc |roundTo 53 ((speed : ℚ) / 1000) - speed / 1000|
      ≤ ulp 53 ((speed : ℚ) / 1000) / 2 := abs_roundTo_sub_le _ _
    _ ≤ 2 ^ ((43 : ℤ) - (53 : ℕ)) / 2 := by linarith
    _ < 1 / 2000 := by norm_num

/-- A number in thousands that has no more decimal places is printed as it is. -/
theorem formatFixed_eq {places speed n : ℕ} (hplaces : places ≤ 3)
    (hn : speed = n * 10 ^ (3 - places)) (hspeed : speed < labelledSpeeds) :
    formatFixed places (inThousands speed) = fixed places n := by
  have hpow : (10 : ℚ) ^ (3 - places) * 10 ^ places = 1000 := by
    rw [← pow_add, Nat.sub_add_cancel hplaces]
    norm_num
  have hvalue : (speed / 1000 : ℚ) * 10 ^ places = n := by
    rw [hn, div_mul_eq_mul_div, div_eq_iff (by norm_num)]
    push_cast
    rw [mul_assoc, hpow]
  have hle : (10 : ℚ) ^ places ≤ 1000 := by
    calc (10 : ℚ) ^ places ≤ 10 ^ 3 := pow_le_pow_right₀ (by norm_num) hplaces
      _ = 1000 := by norm_num
  have hround : roundEven (inThousands speed * 10 ^ places) = n := by
    refine roundEven_eq ?_
    have hdiff : inThousands speed * 10 ^ places - ((n : ℤ) : ℚ) =
        (inThousands speed - speed / 1000) * 10 ^ places := by
      rw [sub_mul, hvalue, Int.cast_natCast]
    rw [hdiff, abs_mul, abs_of_pos (by positivity : (0 : ℚ) < 10 ^ places)]
    calc |inThousands speed - speed / 1000| * 10 ^ places
        ≤ |inThousands speed - speed / 1000| * 1000 := mul_le_mul_of_nonneg_left hle (abs_nonneg _)
      _ < 1 / 2000 * 1000 := mul_lt_mul_of_pos_right (abs_inThousands_sub_lt hspeed) (by norm_num)
      _ = 1 / 2 := by norm_num
  rw [formatFixed, hround, Int.toNat_natCast]

/-- **A label tells the speed.** -/
theorem thousandths_scaledLabel {speed : ℕ} (hspeed : speed < labelledSpeeds) :
    thousandths (scaledLabel speed) = speed := by
  have hplaces {places n : ℕ} (hpos : 0 < places) (hle : places ≤ 3)
      (hn : speed = n * 10 ^ (3 - places)) :
      thousandths (formatFixed places (inThousands speed) ++ ['k']) = speed := by
    rw [formatFixed_eq hle hn hspeed, thousandths_fixed hpos, ← hn]
  rw [scaledLabel]
  split_ifs with hthousand hhundred hten
  · rw [thousandths_whole, Nat.div_mul_cancel (Nat.dvd_of_mod_eq_zero hthousand)]
  · exact hplaces (n := speed / 100) (by decide) (by decide) (by omega)
  · exact hplaces (n := speed / 10) (by decide) (by decide) (by omega)
  · exact hplaces (n := speed) (by decide) (by decide) (by omega)

/-- Further on it does not. -/
example : scaledLabel 9007199254740992 = scaledLabel 9007199254740993 := by decide +kernel

/-- A label tells the speeds apart if they are not in thousands, or not too large. -/
theorem eq_of_labelOf_eq {scaledSpeed count speed speed' : ℕ}
    (hspeeds : 3 * scaledSpeed < count ∨ speed < labelledSpeeds ∧ speed' < labelledSpeeds)
    (h : labelOf scaledSpeed count speed = labelOf scaledSpeed count speed') : speed = speed' := by
  rw [labelOf, labelOf] at h
  split_ifs at h with hplain
  · exact toDigits_injective h
  · obtain ⟨hspeed, hspeed'⟩ := hspeeds.resolve_left hplain
    rw [← thousandths_scaledLabel hspeed, h, thousandths_scaledLabel hspeed']

/-! ### Names of files -/

variable {files : Files} {found : List Found}

/-- The files are numbered as they are found. -/
theorem map_i_enumerateInputs (files : Files) (names : List String) :
    (enumerateInputs files names).map (·.i) = List.range (enumerateInputs files names).length := by
  rw [enumerateInputs, List.map_map, List.length_map, List.length_zipIdx, List.range_eq_range',
    ← List.zipIdx_map_snd 0]
  rfl

theorem pairwise_enumerateInputs (files : Files) (names : List String) :
    (enumerateInputs files names).Pairwise fun a b => a.i < b.i := by
  rw [← List.pairwise_map (f := Found.i) (R := (· < ·)), map_i_enumerateInputs]
  exact List.pairwise_lt_range

/-- Each of the files has a speed, or one of them has none. -/
theorem any_isNone : (found.any (·.speed.isNone)) = true ↔ ∃ item ∈ found, item.speed = none := by
  simp

theorem inputsOf_unsorted (h : ∃ item ∈ found, item.speed = none) :
    inputsOf files found = found.map fun item =>
      { i := item.i, text := files.read item.name, label := none, speed := none } :=
  if_pos (any_isNone.mpr h)

/-- The input of a file that has a speed. -/
def labelled (files : Files) (found : List Found) (item : Found) : Input where
  i := item.i
  text := files.read item.name
  label := some (String.ofList (labelOf (found.countP (1000 ≤ ·.key)) found.length item.key))
  speed := some item.key

theorem inputsOf_sorted (h : ∀ item ∈ found, item.speed ≠ none) :
    inputsOf files found = (found.mergeSort (·.key ≤ ·.key)).map (labelled files found) := by
  refine if_neg fun hany => ?_
  obtain ⟨item, hitem, hnone⟩ := any_isNone.mp hany
  exact h item hitem hnone

/-- What holds of the inputs of the loop of `main`. -/
structure InputsSound (files : Files) (found : List Found) (inputs : List Input) : Prop where
  /-- They are the files found, each of them once and with its number. -/
  files : (inputs.map fun input => (input.i, input.text)).Perm
    (found.map fun item => (item.i, files.read item.name))
  /-- If each has a speed, these are their speeds. -/
  speeds : (∀ item ∈ found, item.speed ≠ none) →
    (inputs.map fun input => (input.i, input.speed)).Perm
      (found.map fun item => (item.i, item.speed.map Nat.cast))
  /-- They are in the order of the speeds, and those of one speed in the order of the files. -/
  sorted : (∀ item ∈ found, item.speed ≠ none) → inputs.Pairwise fun a b =>
    ∃ v w, a.speed = some v ∧ b.speed = some w ∧ (v < w ∨ v = w ∧ a.i < b.i)
  /-- If one has none, they are in the order of the files, and there are no labels. -/
  unsorted : (∃ item ∈ found, item.speed = none) → inputs.map (·.i) = List.range found.length ∧
    ∀ input ∈ inputs, input.label = none ∧ input.speed = none
  /-- A label tells the speeds apart if they are not in thousands, or not too large. -/
  labels : ∀ a ∈ inputs, ∀ b ∈ inputs,
    (3 * found.countP (1000 ≤ ·.key) < found.length ∨
      ∀ v : ℤ, a.speed = some v ∨ b.speed = some v → v < labelledSpeeds) →
    a.label = b.label → a.speed = b.speed

theorem inputsSound_of_unsorted (hi : found.map (·.i) = List.range found.length)
    (h : ∃ item ∈ found, item.speed = none) : InputsSound files found (inputsOf files found) := by
  rw [inputsOf_unsorted h]
  have hall : ¬∀ item ∈ found, item.speed ≠ none := by
    intro hall
    obtain ⟨item, hitem, hnone⟩ := h
    exact hall item hitem hnone
  constructor
  case files => rw [List.map_map]; exact List.Perm.refl _
  case speeds => exact fun hsome => absurd hsome hall
  case sorted => exact fun hsome => absurd hsome hall
  case unsorted =>
    intro _
    rw [List.map_map]
    refine ⟨hi, ?_⟩
    rw [List.forall_mem_map]
    exact fun _ _ => ⟨rfl, rfl⟩
  case labels =>
    intro a ha b hb _ _
    obtain ⟨_, -, rfl⟩ := List.mem_map.mp ha
    obtain ⟨_, -, rfl⟩ := List.mem_map.mp hb
    rfl

theorem inputsSound_of_sorted (hi : found.Pairwise fun a b => a.i < b.i)
    (h : ∀ item ∈ found, item.speed ≠ none) : InputsSound files found (inputsOf files found) := by
  have hsort := stablySorted_mergeSort Found.key found
  rw [inputsOf_sorted h]
  constructor
  case files =>
    rw [List.map_map]
    exact hsort.perm.map _
  case speeds =>
    intro _
    rw [List.map_map]
    refine (hsort.perm.map _).trans (List.Perm.of_eq (List.map_congr_left fun item hitem => ?_))
    obtain ⟨speed, hspeed⟩ := Option.ne_none_iff_exists'.mp (h item hitem)
    simp only [Function.comp_apply, labelled, Found.key, hspeed, Option.getD_some, Option.map_some]
  case sorted =>
    intro _
    rw [List.pairwise_map]
    refine (hsort.pairwise hi).imp fun hab => ⟨_, _, rfl, rfl, ?_⟩
    exact hab.imp Int.ofNat_lt.mpr fun heq => ⟨congrArg Nat.cast heq.1, heq.2⟩
  case unsorted =>
    rintro ⟨item, hitem, hnone⟩
    exact absurd hnone (h item hitem)
  case labels =>
    simp only [List.forall_mem_map]
    intro a _ b _ hspeeds hlabel
    have hkeys := hspeeds.imp_right fun hsmall =>
      And.intro (Int.ofNat_lt.mp (hsmall _ (.inl rfl))) (Int.ofNat_lt.mp (hsmall _ (.inr rfl)))
    have hkey := eq_of_labelOf_eq hkeys (String.ofList_injective (Option.some.inj hlabel))
    exact congrArg (fun speed : ℕ => some (speed : ℤ)) hkey

/-- **The inputs of grinder.** Every file found is an input once, with its number; if each has a
speed they are sorted by speed, and a label tells the speeds apart, as long as these are not in
thousands, or not too large. -/
theorem inputs_sound (files : Files) (names : List String) :
    InputsSound files (enumerateInputs files names)
      (inputsOf files (enumerateInputs files names)) := by
  by_cases h : ∃ item ∈ enumerateInputs files names, item.speed = none
  · exact inputsSound_of_unsorted (map_i_enumerateInputs files names) h
  · refine inputsSound_of_sorted (pairwise_enumerateInputs files names) fun item hitem hnone => ?_
    exact h ⟨item, hitem, hnone⟩

end Grinder

end DnsTools
