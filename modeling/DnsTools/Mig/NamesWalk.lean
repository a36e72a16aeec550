import DnsTools.Mig.Queries
import Mathlib.Data.List.TakeWhile

/-!
# Walking over the names by `strlen`

Both loops of `make_queries` go through the buffer of names by `strlen`, and start again when they
come to the zero byte that closes it. `StringTable` describes such a buffer without reference to
names: strings back to back, each with a terminator.

What is read for a string is `cString`, the bytes in front of its first zero byte. As long as no
string has one the walk goes through the strings cyclically, and it reads the first string that has
one only in part.

## The end of the buffer

The walk knows the end by a string of length zero. So no string of the table may be empty, or start
with a zero byte, which is the same to `strlen`; for names this means that a length byte is not
zero. The zero byte that closes the table is then read as the empty string, and the walk begins anew
at offset zero, in the same turn in which it has come to the end.

The lemmas count the strings cyclically from where the walk stands. They ask for strings without a
zero byte only for those that the walk passes over, and not for the last that it reads, as that one
may be cut off and still has been read.
-/

namespace DnsTools

open Memory

/-- The bytes of a string up to its first zero byte, as a C program reads them. -/
def cString (s : List UInt8) : List UInt8 := s.takeWhile (· ≠ 0)

theorem cString_eq_self {s : List UInt8} (h : 0 ∉ s) : cString s = s := by
  rw [cString, List.takeWhile_eq_self_iff]
  intro b hb
  rw [decide_eq_true_iff]
  rintro rfl
  exact h hb

theorem zero_notMem_cString (s : List UInt8) : ∀ b ∈ cString s, b ≠ 0 := by
  intro b hb
  have := List.mem_takeWhile_imp hb
  simpa using this

/-- A terminated string begins with what a C program reads, and a terminator. -/
theorem exists_eq_cString_append (s : List UInt8) :
    ∃ rest, s ++ [0] = cString s ++ [0] ++ rest ∧ (0 ∉ s → rest = []) ∧
      (0 ∈ s → rest ≠ []) := by
  induction s with
  | nil => exact ⟨[], rfl, fun _ => rfl, fun h => absurd h List.not_mem_nil⟩
  | cons b s ih =>
    obtain ⟨rest, hrest, hproper, hcut⟩ := ih
    by_cases hb : b = 0
    · subst hb
      exact ⟨s ++ [0], by simp [cString], fun h => absurd (List.mem_cons_self ..) h, by simp⟩
    · refine ⟨rest, ?_, fun h => hproper fun hmem => h (List.mem_cons_of_mem b hmem), fun h => ?_⟩
      · rw [List.cons_append, hrest, cString, cString,
          List.takeWhile_cons_of_pos (by simpa using hb)]
        rfl
      · exact hcut ((List.mem_cons.mp h).resolve_left fun heq => hb heq.symm)

/-- A string with a zero byte is read in part. -/
theorem length_cString_lt {s : List UInt8} (h : 0 ∈ s) : (cString s).length < s.length := by
  obtain ⟨rest, hrest, -, hcut⟩ := exists_eq_cString_append s
  have hlen := congrArg List.length hrest
  have := List.length_pos_of_ne_nil (hcut h)
  simp only [List.length_append, List.length_singleton] at hlen
  omega

/-- The strings lie in the block from its start on, each with a terminator, and behind them is
another zero byte. None is empty or begins with a zero byte. -/
structure StringTable (names : Block) (strings : List (List UInt8)) : Prop where
  /-- The strings. -/
  holds : names.Holds 0 (strings.flatMap (· ++ [0]) ++ [0])
  /-- Each has a first byte. -/
  first : ∀ s ∈ strings, ∃ b rest, s = b :: rest ∧ b ≠ 0

/-- Where string number `j` starts. -/
def stringOffset (strings : List (List UInt8)) (j : ℕ) : ℕ :=
  Block.chunkOffset (· ++ [0]) strings j

/-- String number `i`, counted cyclically. -/
def stringOf (strings : List (List UInt8)) (hne : strings ≠ []) (i : ℕ) : List UInt8 :=
  strings.get ⟨i % strings.length, Nat.mod_lt i (List.length_pos_of_ne_nil hne)⟩

/-- `name` after `n` turns of either loop of `make_queries`. -/
def nameAfter (names : Block) : ℕ → ℕ → Option ℕ
  | 0, name => some name
  | n + 1, name => do
    let nameSize := (← names.strlen name) + 1
    let name ← nextName names name nameSize
    nameAfter names n name

section StringTable

variable {names : Block} {strings : List (List UInt8)}

/-- The table around string number `j`. -/
theorem StringTable.split (h : StringTable names strings) {j : ℕ} (hj : j < strings.length) :
    names.Holds (stringOffset strings j)
      (strings[j] ++ [0] ++ ((strings.drop (j + 1)).flatMap (· ++ [0]) ++ [0])) := by
  have hholds := h.holds
  rw [Block.flatMap_eq_at (· ++ [0]) hj, List.append_assoc, List.append_assoc,
    Block.holds_append, Nat.zero_add] at hholds
  exact hholds.2

/-- What a turn of the walk does at string number `j`. -/
theorem StringTable.turn (h : StringTable names strings) {j : ℕ} (hj : j < strings.length) :
    names.strlen (stringOffset strings j) = some (cString strings[j]).length ∧
      names.load (stringOffset strings j) ((cString strings[j]).length + 1)
        = some (cString strings[j] ++ [0]) ∧
      ∃ next, nextName names (stringOffset strings j) ((cString strings[j]).length + 1)
          = some next ∧
        (0 ∉ strings[j] → next = stringOffset strings ((j + 1) % strings.length)) := by
  obtain ⟨rest, hrest, hproper, -⟩ := exists_eq_cString_append strings[j]
  have hsplit := h.split hj
  rw [hrest, List.append_assoc, Block.holds_append, List.length_append, List.length_singleton]
    at hsplit
  obtain ⟨hstring, htail⟩ := hsplit
  refine ⟨Block.strlen_of_holds hstring (zero_notMem_cString _), ?_, ?_⟩
  · simpa using hstring.load
  -- the next byte is the first of what follows
  obtain ⟨c, tail, htail_eq⟩ : ∃ c tail,
      rest ++ ((strings.drop (j + 1)).flatMap (· ++ [0]) ++ [0]) = c :: tail :=
    List.exists_cons_of_ne_nil (by simp)
  rw [htail_eq] at htail
  have hload : names.load (stringOffset strings j + ((cString strings[j]).length + 1)) 1
      = some [c] := (Block.holds_cons.mp htail).1.load
  refine ⟨_, by rw [nextName, hload]; rfl, fun hzero => ?_⟩
  obtain rfl := hproper hzero
  rw [cString_eq_self hzero]
  rcases Nat.lt_or_ge (j + 1) strings.length with hlt | hge
  · obtain ⟨b, bs, hcons, hb⟩ := h.first _ (List.getElem_mem hlt)
    rw [List.drop_eq_getElem_cons hlt, List.flatMap_cons, hcons] at htail_eq
    obtain ⟨rfl, -⟩ := List.cons.inj htail_eq
    have hne : [b] ≠ [(0 : UInt8)] := by simpa using hb
    have hsucc := Block.chunkOffset_succ (f := (· ++ [0])) hj
    rw [List.length_append, List.length_singleton] at hsucc
    rw [if_neg hne, Nat.mod_eq_of_lt hlt]
    exact hsucc.symm
  · have hlast : j + 1 = strings.length := by omega
    rw [hlast, List.drop_length] at htail_eq
    obtain ⟨rfl, -⟩ := List.cons.inj htail_eq
    rw [if_pos rfl, hlast, Nat.mod_self]
    rfl

/-- **The walk is cyclic** up to the first string with a zero byte, which it reads in part. -/
theorem StringTable.nameWalk_succ (h : StringTable names strings) (hne : strings ≠ []) (n i : ℕ)
    (hzero : ∀ t, i ≤ t → t < i + n → 0 ∉ stringOf strings hne t) :
    nameWalk names (n + 1) (stringOffset strings (i % strings.length))
      = some ((List.range' i (n + 1)).map fun t => cString (stringOf strings hne t) ++ [0]) := by
  induction n generalizing i with
  | zero =>
    obtain ⟨hstrlen, hload, next, hnext, -⟩ :=
      h.turn (Nat.mod_lt i (List.length_pos_of_ne_nil hne))
    simp only [nameWalk, hstrlen, hload, hnext, Option.bind_eq_bind, Option.bind_some]
    rfl
  | succ n ih =>
    obtain ⟨hstrlen, hload, next, hnext, hcyclic⟩ :=
      h.turn (Nat.mod_lt i (List.length_pos_of_ne_nil hne))
    have hturn := hcyclic (hzero i (Nat.le_refl i) (by omega))
    rw [Nat.mod_add_mod] at hturn
    subst hturn
    have hrest := ih (i + 1) fun t hle hlt => hzero t (by omega) (by omega)
    rw [nameWalk]
    simp only [hstrlen, hload, hnext, hrest, Option.bind_eq_bind, Option.bind_some]
    rfl

/-- The walk through strings without zero bytes. -/
theorem StringTable.nameWalk (h : StringTable names strings) (hne : strings ≠ [])
    (hzero : ∀ s ∈ strings, 0 ∉ s) (n i : ℕ) :
    nameWalk names n (stringOffset strings (i % strings.length))
      = some ((List.range' i n).map fun t => stringOf strings hne t ++ [0]) := by
  have hmem : ∀ t, 0 ∉ stringOf strings hne t := fun t => hzero _ (List.get_mem ..)
  cases n with
  | zero => rfl
  | succ n =>
    rw [h.nameWalk_succ hne n i fun t _ _ => hmem t]
    simp only [fun t => cString_eq_self (hmem t)]

/-- Where the walk stands after `n` turns. -/
theorem StringTable.nameAfter (h : StringTable names strings) (hne : strings ≠ [])
    (hzero : ∀ s ∈ strings, 0 ∉ s) (n i : ℕ) :
    nameAfter names n (stringOffset strings (i % strings.length))
      = some (stringOffset strings ((i + n) % strings.length)) := by
  induction n generalizing i with
  | zero => rfl
  | succ n ih =>
    have hi := Nat.mod_lt i (List.length_pos_of_ne_nil hne)
    obtain ⟨hstrlen, -, next, hnext, hcyclic⟩ := h.turn hi
    have hturn := hcyclic (hzero _ (List.getElem_mem hi))
    rw [Nat.mod_add_mod] at hturn
    subst hturn
    simp only [DnsTools.nameAfter, hstrlen, hnext, ih (i + 1), Option.bind_eq_bind,
      Option.bind_some]
    congr 3
    omega

/-- Only the first string starts at the beginning. -/
theorem StringTable.stringOffset_pos {j : ℕ} (hpos : 0 < j) (hj : j < strings.length) :
    0 < stringOffset strings j := by
  obtain ⟨k, rfl⟩ := Nat.exists_eq_succ_of_ne_zero (Nat.pos_iff_ne_zero.mp hpos)
  rw [stringOffset, Block.chunkOffset_succ (by omega), List.length_append, List.length_singleton]
  omega

/-- **One round.** The walk comes back to the start after as many turns as there are strings, and
not before. -/
theorem StringTable.returns (h : StringTable names strings) (hne : strings ≠ [])
    (hzero : ∀ s ∈ strings, 0 ∉ s) {n : ℕ} (hpos : 0 < n) (hle : n ≤ strings.length) :
    DnsTools.nameAfter names n 0 = some 0 ↔ n = strings.length := by
  have hafter := h.nameAfter hne hzero n 0
  rw [Nat.zero_mod, Nat.zero_add] at hafter
  have hstart : stringOffset strings 0 = 0 := rfl
  rw [hstart] at hafter
  rw [hafter, Option.some.injEq]
  rcases Nat.lt_or_eq_of_le hle with hlt | rfl
  · rw [Nat.mod_eq_of_lt hlt]
    have := stringOffset_pos hpos hlt
    omega
  · rw [Nat.mod_self]
    exact iff_of_true rfl rfl

end StringTable

end DnsTools
