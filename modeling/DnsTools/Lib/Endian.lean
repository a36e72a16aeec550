import Mathlib.Data.Nat.Notation
import Mathlib.Tactic.Ring

/-!
# Integers as byte strings

A machine integer of `w` bytes lies in memory as the list of its base-`256` digits. `leBytes w n`
is that list with the least significant digit first, `beBytes w n` the same list reversed, and
`leNat`, `beNat` read one back.

## Total, truncating semantics

`leBytes w n` is defined for every `n` and keeps its low `w` digits. A bound on `n` is a
hypothesis of the theorems that read it back, never part of a definition.

## Main results

* `Endian.leNat_leBytes` — writing, then reading, keeps the number modulo `256 ^ w`
* `Endian.leBytes_leNat` — reading, then writing, gives the bytes back
* `Endian.leBytes_swap16` — exchanging the two bytes of a half word turns one order into the other
* `Endian.swap16_and`, `Endian.swap16_or` — masks may be applied before or after the exchange
-/

namespace Endian

/-! ### Least significant byte first -/

/-- The number a byte string spells, least significant byte first. -/
def leNat : List UInt8 → ℕ
  | [] => 0
  | b :: bs => b.toNat + 256 * leNat bs

/-- The low `w` base-`256` digits of a number, least significant first. -/
def leBytes : ℕ → ℕ → List UInt8
  | 0, _ => []
  | w + 1, n => UInt8.ofNat n :: leBytes w (n / 256)

@[simp] theorem length_leBytes (w n : ℕ) : (leBytes w n).length = w := by
  induction w generalizing n with
  | zero => rfl
  | succ w ih => simp [leBytes, ih]

/-- **Read after write.** Exactly the low digits survive. -/
theorem leNat_leBytes (w n : ℕ) : leNat (leBytes w n) = n % 256 ^ w := by
  induction w generalizing n with
  | zero => simp [leBytes, leNat, Nat.mod_one]
  | succ w ih =>
    rw [leBytes, leNat, ih, UInt8.toNat_ofNat', pow_succ' 256 w, Nat.mod_mul]

theorem leNat_leBytes_of_lt {w n : ℕ} (h : n < 256 ^ w) : leNat (leBytes w n) = n := by
  rw [leNat_leBytes, Nat.mod_eq_of_lt h]

/-- **Write after read.** Every byte string is the encoding of the number it spells. -/
theorem leBytes_leNat (bs : List UInt8) : leBytes bs.length (leNat bs) = bs := by
  induction bs with
  | nil => rfl
  | cons b bs ih =>
    have hb : b.toNat < 256 := b.toNat_lt
    have hdigit : UInt8.ofNat (b.toNat + 256 * leNat bs) = b := by
      apply UInt8.toNat_inj.mp
      rw [UInt8.toNat_ofNat']
      omega
    have hrest : (b.toNat + 256 * leNat bs) / 256 = leNat bs := by omega
    rw [List.length_cons, leNat, leBytes, hdigit, hrest, ih]

theorem leNat_lt (bs : List UInt8) : leNat bs < 256 ^ bs.length := by
  induction bs with
  | nil => exact Nat.one_pos
  | cons b bs ih =>
    have hb : b.toNat < 256 := b.toNat_lt
    rw [leNat, List.length_cons, pow_succ']
    omega

/-! ### Most significant byte first -/

/-- The number a byte string spells, most significant byte first. -/
def beNat (bs : List UInt8) : ℕ := leNat bs.reverse

/-- The low `w` base-`256` digits of a number, most significant first. -/
def beBytes (w n : ℕ) : List UInt8 := (leBytes w n).reverse

@[simp] theorem length_beBytes (w n : ℕ) : (beBytes w n).length = w := by simp [beBytes]

theorem beNat_beBytes (w n : ℕ) : beNat (beBytes w n) = n % 256 ^ w := by
  rw [beNat, beBytes, List.reverse_reverse, leNat_leBytes]

theorem beNat_beBytes_of_lt {w n : ℕ} (h : n < 256 ^ w) : beNat (beBytes w n) = n := by
  rw [beNat_beBytes, Nat.mod_eq_of_lt h]

/-- Every byte string is the encoding of the number it spells, most significant byte first. -/
theorem beBytes_beNat (bs : List UInt8) : beBytes bs.length (beNat bs) = bs := by
  rw [beBytes, beNat, ← List.length_reverse, leBytes_leNat, List.reverse_reverse]

theorem beNat_lt (bs : List UInt8) : beNat bs < 256 ^ bs.length := by
  rw [← List.length_reverse]
  exact leNat_lt bs.reverse

/-! ### Half words -/

/-- The half word with its two bytes exchanged. -/
def swap16 (x : UInt16) : UInt16 := UInt16.ofNat (x.toNat % 256 * 256 + x.toNat / 256)

theorem toNat_swap16 (x : UInt16) : (swap16 x).toNat = x.toNat % 256 * 256 + x.toNat / 256 := by
  have hx : x.toNat < 65536 := x.toNat_lt
  rw [swap16, UInt16.toNat_ofNat']
  omega

@[simp] theorem swap16_swap16 (x : UInt16) : swap16 (swap16 x) = x := by
  have hx : x.toNat < 65536 := x.toNat_lt
  apply UInt16.toNat_inj.mp
  rw [toNat_swap16, toNat_swap16]
  omega

/-- Storing the exchanged half word in one byte order stores the half word in the other. -/
theorem leBytes_swap16 (x : UInt16) : leBytes 2 (swap16 x).toNat = beBytes 2 x.toNat := by
  have hx : x.toNat < 65536 := x.toNat_lt
  have hlow : UInt8.ofNat (swap16 x).toNat = UInt8.ofNat (x.toNat / 256) := by
    apply UInt8.toNat_inj.mp
    rw [toNat_swap16, UInt8.toNat_ofNat', UInt8.toNat_ofNat']
    omega
  have hdiv : (swap16 x).toNat / 256 = x.toNat % 256 := by
    rw [toNat_swap16, Nat.add_comm, Nat.add_mul_div_right _ _ (by omega),
      Nat.div_eq_of_lt (by omega), Nat.zero_add]
  have hhigh : UInt8.ofNat ((swap16 x).toNat / 256) = UInt8.ofNat x.toNat := by
    apply UInt8.toNat_inj.mp
    rw [hdiv, UInt8.toNat_ofNat', UInt8.toNat_ofNat']
    omega
  simp only [beBytes, leBytes, hlow, hhigh, List.reverse_cons, List.reverse_nil, List.nil_append,
    List.singleton_append]

/-- The exchange moves every bit by eight places. -/
theorem testBit_swap16 (x : UInt16) (i : ℕ) :
    (swap16 x).toNat.testBit i
      = if i < 8 then x.toNat.testBit (i + 8) else decide (i < 16) && x.toNat.testBit (i - 8) := by
  have hx : x.toNat < 65536 := x.toNat_lt
  have hlow : x.toNat / 256 < 2 ^ 8 := by omega
  have hform : (swap16 x).toNat = 2 ^ 8 * (x.toNat % 2 ^ 8) + x.toNat / 2 ^ 8 := by
    rw [toNat_swap16, Nat.mul_comm]
    rfl
  rw [hform, Nat.testBit_two_pow_mul_add _ (by omega)]
  split
  · rw [Nat.testBit_div_two_pow]
  · rw [Nat.testBit_mod_two_pow]
    congr 1
    rw [decide_eq_decide]
    omega

theorem swap16_and (x y : UInt16) : swap16 (x &&& y) = swap16 x &&& swap16 y := by
  refine UInt16.toNat_inj.mp (Nat.eq_of_testBit_eq fun i => ?_)
  rw [UInt16.toNat_and, Nat.testBit_and, testBit_swap16, testBit_swap16, testBit_swap16,
    UInt16.toNat_and]
  split
  · rw [Nat.testBit_and]
  · rw [Nat.testBit_and]
    cases decide (i < 16) <;> simp

theorem swap16_or (x y : UInt16) : swap16 (x ||| y) = swap16 x ||| swap16 y := by
  refine UInt16.toNat_inj.mp (Nat.eq_of_testBit_eq fun i => ?_)
  rw [UInt16.toNat_or, Nat.testBit_or, testBit_swap16, testBit_swap16, testBit_swap16,
    UInt16.toNat_or]
  split
  · rw [Nat.testBit_or]
  · rw [Nat.testBit_or]
    cases decide (i < 16) <;> simp

end Endian
