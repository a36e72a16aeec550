import Mathlib.Data.List.Basic

/-!
# Reading a text line by line

`bufio.Scanner` of the Go library, with the split function it begins with, `bufio.ScanLines`. It
yields the lines of a text one after another, without the newline that ends a line and without a
carriage return in front of that. It holds a line in a buffer that does not grow beyond a limit, and
`Scan` returns false when the text has come to its end and also when the buffer is full.

A text is given by the pieces between its newlines, the last of which no newline ends.

## Main results

* `scan_of_fits` — where every piece fits into the buffer, all lines are yielded
* `scan_of_not_fits` — where one does not, the lines before it are
-/

namespace Scanner

/-- `'\n'`. -/
def newline : UInt8 := 0x0a

/-- `'\r'`. -/
def carriageReturn : UInt8 := 0x0d

/-- `bufio.MaxScanTokenSize`. -/
def maxScanTokenSize : ℕ := 64 * 1024

/-- `dropCR`. -/
def dropCR (line : List UInt8) : List UInt8 :=
  if line.getLast? = some carriageReturn then line.dropLast else line

/-- The lines of a text: there is none behind the last newline if the text ends with it. -/
def linesOf : List (List UInt8) → List (List UInt8)
  | [] => []
  | [piece] => if piece = [] then [] else [dropCR piece]
  | piece :: pieces => dropCR piece :: linesOf pieces

/-- What the calls of `Scan` up to the one that returns false amount to. -/
structure Scanned where
  /-- The lines yielded. -/
  lines : List (List UInt8)
  /-- The buffer was full: `Err` returns `bufio.ErrTooLong`. -/
  tooLong : Bool
deriving DecidableEq, Repr

/-- All calls of `Scan`, for the pieces of the text that are left. A piece of `limit` bytes fills
the buffer before its newline, or the end of the text, is seen. -/
def scan (limit : ℕ) : List (List UInt8) → Scanned
  | [] => ⟨[], false⟩
  | [piece] =>
    if limit ≤ piece.length then ⟨[], true⟩
    else if piece = [] then ⟨[], false⟩
    else ⟨[dropCR piece], false⟩
  | piece :: pieces =>
    if limit ≤ piece.length then ⟨[], true⟩
    else
      let rest := scan limit pieces
      { rest with lines := dropCR piece :: rest.lines }

variable {limit : ℕ} {pieces : List (List UInt8)}

theorem linesOf_cons_cons (piece piece' : List UInt8) (pieces : List (List UInt8)) :
    linesOf (piece :: piece' :: pieces) = dropCR piece :: linesOf (piece' :: pieces) := rfl

/-- All lines are yielded. -/
theorem scan_of_fits (h : ∀ piece ∈ pieces, piece.length < limit) :
    scan limit pieces = ⟨linesOf pieces, false⟩ := by
  induction pieces with
  | nil => rfl
  | cons piece pieces ih =>
    obtain ⟨hpiece, hpieces⟩ := List.forall_mem_cons.mp h
    cases pieces with
    | nil =>
      rw [scan, if_neg (Nat.not_le.mpr hpiece), linesOf]
      split <;> rfl
    | cons piece' pieces =>
      rw [scan, if_neg (Nat.not_le.mpr hpiece), ih hpieces, linesOf_cons_cons]
      simp

/-- The lines in front of a piece that is too long are yielded. -/
theorem scan_of_not_fits (h : ¬∀ piece ∈ pieces, piece.length < limit) :
    (scan limit pieces).tooLong = true ∧ (scan limit pieces).lines <+: linesOf pieces := by
  induction pieces with
  | nil => exact absurd (List.forall_mem_nil _) h
  | cons piece pieces ih =>
    by_cases hpiece : limit ≤ piece.length
    · have hscan : scan limit (piece :: pieces) = ⟨[], true⟩ := by
        cases pieces with
        | nil => rw [scan, if_pos hpiece]
        | cons piece' pieces =>
          rw [scan, if_pos hpiece]
          simp
      rw [hscan]
      exact ⟨rfl, List.nil_prefix⟩
    · have hpieces : ¬∀ piece ∈ pieces, piece.length < limit := fun hall =>
        h (List.forall_mem_cons.mpr ⟨Nat.not_le.mp hpiece, hall⟩)
      obtain ⟨hlong, hlines⟩ := ih hpieces
      cases pieces with
      | nil => exact absurd (List.forall_mem_nil _) hpieces
      | cons piece' pieces =>
        have hscan : scan limit (piece :: piece' :: pieces)
            = ⟨dropCR piece :: (scan limit (piece' :: pieces)).lines,
              (scan limit (piece' :: pieces)).tooLong⟩ := by
          rw [scan, if_neg hpiece]
          simp
        rw [hscan, linesOf_cons_cons]
        exact ⟨hlong, List.cons_prefix_cons.mpr ⟨rfl, hlines⟩⟩

end Scanner
