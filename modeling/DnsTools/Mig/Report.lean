import DnsTools.Lib.Json
import DnsTools.Mig.Main

/-!
# The report of mig

What `main` of `main.c` prints behind its loops: the arrays `sends`, `receives` and `pairs` with
three loops of one shape, in which the last entry has a line of its own. A report is `none` where a
loop reads past the end of its array.

`%llu` and `%lld` print the numeral of an `unsigned long long` and of a `long long`. A difference of
two times is computed as the one and printed as the other.
-/

namespace DnsTools

/-- The loop over all entries but the last, from entry `i` on, and the entry behind it. -/
def printFrom (entry : ℕ → Option (List Char)) (i : ℕ) : ℕ → Option (List Char)
  | 0 => do return "\n\t\t".toList ++ (← entry i) ++ "\n\t".toList
  | left + 1 => do
    let line ← entry i
    let rest ← printFrom entry (i + 1) left
    return "\n\t\t".toList ++ line ++ ",".toList ++ rest

/-- The entries of an array. -/
def printEntries (entry : ℕ → Option (List Char)) (count : ℕ) : Option (List Char) :=
  if 0 < count then printFrom entry 0 (count - 1) else some []

/-- A time, with `%llu`. -/
def printTime (t : Timespec) : List Char := Nat.toDigits 10 t.nsec

/-- `received - sent`, with `%lld`. -/
def printDelay (received sent : Timespec) : List Char :=
  let delay := (received.nsec + (sizeModulus - sent.nsec)) % sizeModulus
  Decimal.formatInt (Int.bmod delay sizeModulus)

/-- A pair. -/
def printPair (pair : PairTimespec) : List Char :=
  if 0 < pair.answer then
    "[".toList ++ printTime pair.sent ++ ", ".toList ++ printTime pair.received ++ ", ".toList ++
      printDelay pair.received pair.sent ++ "]".toList
  else "[".toList ++ printTime pair.sent ++ "]".toList

/-- The report. -/
def Mig.report (s : Mig) : Option (List Char) := do
  let sends ← printEntries (fun i => (s.sends[i]?).map printTime) s.count
  let receives ← printEntries (fun i => (s.receives[i]?).map printTime) s.count
  let pairs ← printEntries (fun i => (s.pairs[i]?).map printPair) s.count
  return "\x7b\"sends\":\n\t[".toList ++ sends ++ "],\n \"receives\":\n\t[".toList ++ receives ++
    "],\n \"pairs\":\n\t[".toList ++ pairs ++ "]\n\x7d\n".toList

/-! ### What is printed -/

/-- The entries of an array of the right length, with commas between them. -/
theorem printFrom_eq {α : Type*} {item : α → List Char} {xs : List α} {i left : ℕ} {x : α}
    {rest : List α} (hdrop : xs.drop i = x :: rest) (hleft : rest.length = left) :
    printFrom (fun i => (xs[i]?).map item) i left =
      some (Json.separated "\n\t\t".toList "\n\t".toList item (x :: rest)) := by
  induction left generalizing i x rest with
  | zero =>
    obtain rfl := List.length_eq_zero_iff.mp hleft
    rw [printFrom, Table.getElem?_of_drop hdrop]
    rfl
  | succ left ih =>
    obtain ⟨y, ys, rfl⟩ := List.exists_cons_of_length_eq_add_one hleft
    have hnext := Table.drop_of_drop hdrop
    rw [printFrom, Table.getElem?_of_drop hdrop, ih hnext (Nat.succ.inj hleft)]
    simp [Json.separated_cons_cons]

theorem printEntries_eq {α : Type*} {item : α → List Char} {xs : List α} {count : ℕ}
    (hlength : xs.length = count) :
    printEntries (fun i => (xs[i]?).map item) count =
      some (Json.separated "\n\t\t".toList "\n\t".toList item xs) := by
  cases xs with
  | nil =>
    obtain rfl : 0 = count := hlength
    rfl
  | cons x xs =>
    rw [List.length_cons] at hlength
    rw [printEntries, if_pos (by omega)]
    exact printFrom_eq rfl (by omega)

end DnsTools
