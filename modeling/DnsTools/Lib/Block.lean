import DnsTools.Lib.Endian
import Mathlib.Data.List.Basic

/-!
# Allocated blocks of memory

A block is what one call of an allocator returns: a run of bytes that is addressed by offsets from
its start. Every access is checked. `load`, `store` and `strlen` return `none` when they would
touch a byte outside the block, which in the languages this stands for is undefined behaviour, so
a computation over blocks that returns `some` has stayed inside them.

## The history of stores

A block carries the list of the stores made into it, newest first, as pairs of an offset and a
length. No operation reads it. It lets a theorem speak of the bytes a computation *wrote*, which
the contents alone do not show: storing a byte over an equal byte leaves no other trace.

## Assertions

`b.Holds off bs` says that the bytes `bs` lie in `b` from offset `off` on. Proofs about blocks are
done with four rules and do not unfold the operations: `holds_append` splits and joins runs,
`store_of_le` says when a store succeeds, `Holds.of_store` and `Holds.store_of_disjoint` say what
holds after it.
-/

namespace Memory

open Endian

/-- An allocated block: its bytes, and the stores made into it so far. -/
structure Block where
  /-- The contents. -/
  bytes : List UInt8
  /-- Offset and length of every store, newest first. -/
  stores : List (ℕ × ℕ) := []
deriving DecidableEq, Repr

namespace Block

/-- The number of bytes allocated. -/
def size (b : Block) : ℕ := b.bytes.length

/-! ### Access -/

/-- The `n` bytes from offset `off` on. -/
def load (b : Block) (off n : ℕ) : Option (List UInt8) :=
  if off + n ≤ b.size then some ((b.bytes.drop off).take n) else none

/-- Overwrite the bytes from offset `off` on with `bs`. -/
def store (b : Block) (off : ℕ) (bs : List UInt8) : Option Block :=
  if off + bs.length ≤ b.size then
    some ⟨b.bytes.take off ++ bs ++ b.bytes.drop (off + bs.length), (off, bs.length) :: b.stores⟩
  else none

/-- The number of bytes from offset `off` to the first zero byte. Running off the end of the
block without meeting one is an access outside it. -/
def strlen (b : Block) (off : ℕ) : Option ℕ :=
  (b.bytes.drop off).findIdx? (· == 0)

/-- The half word at offset `off`, as a little-endian machine reads it. -/
def load16 (b : Block) (off : ℕ) : Option UInt16 :=
  (b.load off 2).map fun bs => UInt16.ofNat (leNat bs)

/-- Store a half word at offset `off`, as a little-endian machine does. -/
def store16 (b : Block) (off : ℕ) (x : UInt16) : Option Block :=
  b.store off (leBytes 2 x.toNat)

/-! ### What a block holds -/

/-- The bytes `bs` lie in the block from offset `off` on. -/
def Holds (b : Block) (off : ℕ) (bs : List UInt8) : Prop := b.load off bs.length = some bs

instance (b : Block) (off : ℕ) (bs : List UInt8) : Decidable (b.Holds off bs) :=
  inferInstanceAs (Decidable (_ = _))

variable {b b' : Block} {off o n : ℕ} {bs cs xs ys : List UInt8}

theorem load_of_le (h : off + n ≤ b.size) : b.load off n = some ((b.bytes.drop off).take n) :=
  if_pos h

theorem Holds.load (h : b.Holds off bs) : b.load off bs.length = some bs := h

/-- The byte-by-byte reading of `Holds`, through which the rules below are proved. -/
theorem holds_iff : b.Holds off bs ↔
    off + bs.length ≤ b.size ∧ ∀ i < bs.length, b.bytes[off + i]? = bs[i]? := by
  unfold Holds Block.load
  split
  · rename_i hle
    simp only [hle, true_and, Option.some.injEq]
    constructor
    · intro h i hi
      rw [← h, List.getElem?_take_of_lt (by omega), List.getElem?_drop]
    · intro h
      refine List.ext_getElem? fun i => ?_
      by_cases hi : i < bs.length
      · rw [List.getElem?_take_of_lt hi, List.getElem?_drop, h i hi]
      · rw [List.getElem?_eq_none (by simp only [List.length_take]; omega),
          List.getElem?_eq_none (by omega)]
  · rename_i hle
    simp [hle]

theorem Holds.le (h : b.Holds off bs) : off + bs.length ≤ b.size := (holds_iff.mp h).1

theorem Holds.getElem? (h : b.Holds off bs) {i : ℕ} (hi : i < bs.length) :
    b.bytes[off + i]? = bs[i]? := (holds_iff.mp h).2 i hi

theorem le_of_load (h : b.load off n = some bs) : off + n ≤ b.size := by
  by_contra hlt
  simp [Block.load, hlt] at h

theorem length_of_load (h : b.load off n = some bs) : bs.length = n := by
  have hle : off + n ≤ b.bytes.length := le_of_load h
  rw [load_of_le hle, Option.some.injEq] at h
  rw [← h, List.length_take, List.length_drop]
  omega

/-- What can be loaded from a block can be loaded from any that begins with the same bytes. -/
theorem load_extend (h : b.load off n = some bs) {b' : Block} (hstarts : b.bytes <+: b'.bytes) :
    b'.load off n = some bs := by
  obtain ⟨rest, hrest⟩ := hstarts
  have hle := le_of_load h
  have hle' : off + n ≤ b'.size := by
    rw [size, ← hrest, List.length_append]
    exact Nat.le_trans hle (Nat.le_add_right ..)
  rw [size] at hle
  rw [load_of_le hle, Option.some.injEq] at h
  rw [load_of_le hle', ← hrest, List.drop_append_of_le_length (by omega),
    List.take_append_of_le_length (by rw [List.length_drop]; omega), h]

theorem holds_of_load (h : b.load off n = some bs) : b.Holds off bs := by
  rw [Holds, length_of_load h]
  exact h

/-- A block holds its contents. -/
theorem holds_bytes (b : Block) : b.Holds 0 b.bytes := by
  rw [Holds, load_of_le (by simp [size]), List.drop_zero, List.take_length]

@[simp] theorem holds_nil : b.Holds off [] ↔ off ≤ b.size := by simp [holds_iff]

theorem holds_singleton {x : UInt8} : b.Holds off [x] ↔ b.bytes[off]? = some x := by
  rw [holds_iff]
  constructor
  · rintro ⟨-, h⟩
    exact h 0 (by simp)
  · intro h
    obtain ⟨hlt, -⟩ := List.getElem?_eq_some_iff.mp h
    refine ⟨hlt, fun i hi => ?_⟩
    obtain rfl : i = 0 := by simpa using hi
    exact h

/-- **Splitting and joining.** Two runs lie back to back exactly when their concatenation lies
there. -/
theorem holds_append :
    b.Holds off (xs ++ ys) ↔ b.Holds off xs ∧ b.Holds (off + xs.length) ys := by
  simp only [holds_iff, List.length_append]
  constructor
  · rintro ⟨hle, h⟩
    refine ⟨⟨by omega, fun i hi => ?_⟩, by omega, fun i hi => ?_⟩
    · rw [h i (by omega), List.getElem?_append_left hi]
    · rw [Nat.add_assoc, h (xs.length + i) (by omega),
        List.getElem?_append_right (by omega), Nat.add_sub_cancel_left]
  · rintro ⟨⟨_, hx⟩, hle, hy⟩
    refine ⟨by omega, fun i hi => ?_⟩
    rcases Nat.lt_or_ge i xs.length with hlt | hge
    · rw [hx i hlt, List.getElem?_append_left hlt]
    · obtain ⟨j, rfl⟩ := Nat.exists_eq_add_of_le hge
      rw [← Nat.add_assoc, hy j (by omega), List.getElem?_append_right (by omega),
        Nat.add_sub_cancel_left]

theorem holds_cons {x : UInt8} :
    b.Holds off (x :: xs) ↔ b.Holds off [x] ∧ b.Holds (off + 1) xs := by
  rw [← List.singleton_append, holds_append, List.length_singleton]

/-! ### Chunks laid back to back -/

section Chunks

variable {α : Type*} {f : α → List UInt8} {l : List α} {i : ℕ}

/-- Where chunk number `i` starts when the items of a list are encoded back to back. -/
def chunkOffset (f : α → List UInt8) (l : List α) (i : ℕ) : ℕ := ((l.take i).flatMap f).length

@[simp] theorem chunkOffset_zero (f : α → List UInt8) (l : List α) : chunkOffset f l 0 = 0 := rfl

theorem chunkOffset_succ (hi : i < l.length) :
    chunkOffset f l (i + 1) = chunkOffset f l i + (f l[i]).length := by
  rw [chunkOffset, chunkOffset, List.take_succ_eq_append_getElem hi, List.flatMap_append,
    List.length_append, List.flatMap_singleton]

theorem chunkOffset_length (f : α → List UInt8) (l : List α) :
    chunkOffset f l l.length = (l.flatMap f).length := by
  rw [chunkOffset, List.take_length]

/-- The chunks before, at and after a position. -/
theorem flatMap_eq_at (f : α → List UInt8) (hi : i < l.length) :
    l.flatMap f = (l.take i).flatMap f ++ (f l[i] ++ (l.drop (i + 1)).flatMap f) := by
  rw [← List.flatMap_cons, ← List.flatMap_append, List.getElem_cons_drop, List.take_append_drop]

/-- What lies from chunk number `i` on. -/
theorem Holds.chunk (h : b.Holds off (l.flatMap f)) (hi : i < l.length) :
    b.Holds (off + chunkOffset f l i) (f l[i] ++ (l.drop (i + 1)).flatMap f) := by
  rw [flatMap_eq_at f hi, holds_append] at h
  exact h.2

theorem length_chunk_le (f : α → List UInt8) (hi : i < l.length) :
    (f l[i]).length ≤ (l.flatMap f).length := by
  rw [flatMap_eq_at f hi, List.length_append, List.length_append]
  omega

end Chunks

/-! ### What a store does -/

theorem store_of_le (b : Block) (off : ℕ) (bs : List UInt8) (h : off + bs.length ≤ b.size) :
    ∃ b', b.store off bs = some b' :=
  ⟨_, if_pos h⟩

theorem le_of_store (h : b.store off bs = some b') : off + bs.length ≤ b.size := by
  by_contra hlt
  simp [store, hlt] at h

theorem bytes_of_store (h : b.store off bs = some b') :
    b'.bytes = b.bytes.take off ++ bs ++ b.bytes.drop (off + bs.length) := by
  rw [store, if_pos (le_of_store h), Option.some.injEq] at h
  rw [← h]

theorem stores_of_store (h : b.store off bs = some b') :
    b'.stores = (off, bs.length) :: b.stores := by
  rw [store, if_pos (le_of_store h), Option.some.injEq] at h
  rw [← h]

theorem size_of_store (h : b.store off bs = some b') : b'.size = b.size := by
  have hle : off + bs.length ≤ b.bytes.length := le_of_store h
  have hlen : b'.bytes.length = b.bytes.length := by
    rw [bytes_of_store h, List.length_append, List.length_append, List.length_take,
      List.length_drop]
    omega
  exact hlen

/-- Reading one byte after a store. -/
theorem getElem?_of_store (h : b.store off bs = some b') (i : ℕ) :
    b'.bytes[i]? =
      if i < off then b.bytes[i]?
      else if i < off + bs.length then bs[i - off]? else b.bytes[i]? := by
  have hle : off + bs.length ≤ b.bytes.length := le_of_store h
  have htake : (b.bytes.take off).length = off := by rw [List.length_take]; omega
  rw [bytes_of_store h, List.append_assoc]
  split
  · rename_i hlt
    rw [List.getElem?_append_left (by omega), List.getElem?_take_of_lt hlt]
  · rename_i hge
    rw [List.getElem?_append_right (by omega), htake]
    split
    · rename_i hlt
      rw [List.getElem?_append_left (by omega)]
    · rename_i hge'
      rw [List.getElem?_append_right (by omega), List.getElem?_drop]
      congr 1
      omega

/-- **Read after write.** -/
theorem Holds.of_store (h : b.store off bs = some b') : b'.Holds off bs := by
  refine holds_iff.mpr ⟨by rw [size_of_store h]; exact le_of_store h, fun i hi => ?_⟩
  rw [getElem?_of_store h, if_neg (by omega), if_pos (by omega), Nat.add_sub_cancel_left]

/-- **Frame.** What lies beside a store is still there after it. -/
theorem Holds.store_of_disjoint (hc : b.Holds o cs) (h : b.store off bs = some b')
    (hd : o + cs.length ≤ off ∨ off + bs.length ≤ o) : b'.Holds o cs := by
  refine holds_iff.mpr ⟨by rw [size_of_store h]; exact hc.le, fun i hi => ?_⟩
  rw [getElem?_of_store h, ← hc.getElem? hi]
  split
  · rfl
  · rw [if_neg (by omega)]

/-! ### Overwriting part of a run -/

/-- The bytes `bs` with those from offset `off` on replaced by `xs`. -/
def overwrite (bs : List UInt8) (off : ℕ) (xs : List UInt8) : List UInt8 :=
  bs.take off ++ (xs ++ bs.drop (off + xs.length))

/-- The bytes in front stay. -/
theorem take_overwrite {k : ℕ} (hk : k ≤ off) (h : off ≤ bs.length) :
    (overwrite bs off xs).take k = bs.take k := by
  rw [overwrite, List.take_append_of_le_length (by rw [List.length_take]; omega), List.take_take,
    Nat.min_eq_left hk]

theorem length_overwrite (h : off + xs.length ≤ bs.length) :
    (overwrite bs off xs).length = bs.length := by
  simp only [overwrite, List.length_append, List.length_take, List.length_drop]
  omega

/-- Overwriting one piece of a concatenation. -/
theorem overwrite_append {as bs cs xs : List UInt8} {off : ℕ} (hoff : off = as.length)
    (hlen : xs.length = bs.length) :
    overwrite (as ++ (bs ++ cs)) off xs = as ++ (xs ++ cs) := by
  rw [overwrite, hoff, List.take_left, hlen, ← List.drop_drop, List.drop_left, List.drop_left]

/-- A store inside a run that the block starts with. -/
theorem Holds.store_inside (hb : b.Holds 0 bs) (h : b.store off xs = some b')
    (hle : off + xs.length ≤ bs.length) : b'.Holds 0 (overwrite bs off xs) := by
  have hsplit :
      bs.take off ++ ((bs.drop off).take xs.length ++ bs.drop (off + xs.length)) = bs := by
    rw [← List.drop_drop, List.take_append_drop, List.take_append_drop]
  have htake : (bs.take off).length = off := by rw [List.length_take]; omega
  have hmid : ((bs.drop off).take xs.length).length = xs.length := by
    rw [List.length_take, List.length_drop]; omega
  rw [← hsplit, holds_append, holds_append, htake, hmid, Nat.zero_add] at hb
  obtain ⟨hleft, -, hright⟩ := hb
  rw [overwrite, holds_append, holds_append, htake, Nat.zero_add]
  refine ⟨hleft.store_of_disjoint h ?_, .of_store h, hright.store_of_disjoint h ?_⟩
  · rw [htake, Nat.zero_add]
    exact Or.inl (Nat.le_refl _)
  · exact Or.inr (Nat.le_refl _)

/-! ### Scanning for a zero byte -/

/-- The scan of a terminated string stops at its terminator. -/
theorem strlen_of_holds (h : b.Holds off (cs ++ [0])) (hz : ∀ c ∈ cs, c ≠ 0) :
    b.strlen off = some cs.length := by
  obtain ⟨hle, hget⟩ := holds_iff.mp h
  rw [List.length_append, List.length_singleton] at hle
  rw [strlen, List.findIdx?_eq_some_iff_getElem]
  have hlen : cs.length < (b.bytes.drop off).length := by
    rw [List.length_drop]
    exact Nat.lt_sub_of_add_lt (by rw [Nat.add_comm]; exact hle)
  refine ⟨hlen, ?_, fun j hj => ?_⟩
  · have hat := hget cs.length (by simp)
    rw [List.getElem?_append_right (Nat.le_refl _), Nat.sub_self,
      ← List.getElem?_drop, List.getElem?_eq_getElem hlen] at hat
    simpa using hat
  · have hat := hget j (by simp; omega)
    have hjlt : j < (b.bytes.drop off).length := Nat.lt_trans hj hlen
    rw [List.getElem?_append_left hj, ← List.getElem?_drop, List.getElem?_eq_getElem hjlt,
      List.getElem?_eq_getElem hj, Option.some.injEq] at hat
    rw [hat]
    simpa using hz cs[j] (List.getElem_mem hj)

/-- What a successful scan found: a terminated string. -/
theorem holds_of_strlen (h : b.strlen off = some n) :
    ∃ cs, cs.length = n ∧ (∀ c ∈ cs, c ≠ 0) ∧ b.Holds off (cs ++ [0]) := by
  rw [strlen, List.findIdx?_eq_some_iff_getElem] at h
  obtain ⟨hlt, hzero, hnz⟩ := h
  refine ⟨(b.bytes.drop off).take n, by rw [List.length_take]; omega, fun c hc => ?_, ?_⟩
  · obtain ⟨j, hj, rfl⟩ := List.mem_iff_getElem.mp hc
    rw [List.length_take] at hj
    have hjn : j < n := by omega
    simpa using hnz j hjn
  · have hz : (b.bytes.drop off)[n] = 0 := by simpa using hzero
    have hsplit : (b.bytes.drop off).take n ++ [0] = (b.bytes.drop off).take (n + 1) := by
      rw [List.take_succ_eq_append_getElem hlt, hz]
    have hle : off + (n + 1) ≤ b.size := by
      rw [List.length_drop] at hlt
      rw [size]
      omega
    rw [hsplit]
    exact holds_of_load (load_of_le hle)

/-- A block that holds bytes from its start on starts with them. -/
theorem Holds.bytes_eq (h : b.Holds 0 bs) : b.bytes = bs ++ b.bytes.drop bs.length := by
  have hload := h.load
  have hle := h.le
  rw [load_of_le hle, List.drop_zero, Option.some.injEq] at hload
  calc b.bytes = b.bytes.take bs.length ++ b.bytes.drop bs.length :=
        (List.take_append_drop _ _).symm
    _ = bs ++ b.bytes.drop bs.length := by rw [hload]

/-- The scan from inside the bytes a block starts with: it stops at a zero byte among them, or
else not before their end. -/
theorem Holds.strlen_eq (h : b.Holds 0 bs) (hoff : off ≤ bs.length) :
    b.strlen off = ((bs.drop off).findIdx? (· == 0)).or
      ((b.bytes.drop bs.length).findIdx? (· == 0) |>.map (· + (bs.length - off))) := by
  rw [strlen, h.bytes_eq, List.drop_append_of_le_length hoff, List.findIdx?_append,
    List.length_drop, ← h.bytes_eq]

/-! ### Half words -/

/-- The half word at offset `off` of a byte string, as a little-endian machine reads it. -/
def halfWord (bs : List UInt8) (off : ℕ) : UInt16 := UInt16.ofNat (leNat ((bs.drop off).take 2))

/-- The half word at a number of two bytes in network byte order. -/
theorem halfWord_append {as bs : List UInt8} {n off : ℕ} (hoff : off = as.length) (hn : n < 65536) :
    halfWord (as ++ (beBytes 2 n ++ bs)) off = swap16 (UInt16.ofNat n) := by
  have hdrop : ((as ++ (beBytes 2 n ++ bs)).drop off).take 2 = beBytes 2 n := by
    rw [hoff, List.drop_left, List.take_left' (length_beBytes 2 n)]
  have hnat : (UInt16.ofNat n).toNat = n := by
    rw [UInt16.toNat_ofNat']
    exact Nat.mod_eq_of_lt hn
  have hbytes := leBytes_swap16 (UInt16.ofNat n)
  rw [hnat] at hbytes
  have hlt : (swap16 (UInt16.ofNat n)).toNat < 256 ^ 2 := (swap16 (UInt16.ofNat n)).toNat_lt
  rw [halfWord, hdrop, ← hbytes, leNat_leBytes_of_lt hlt, UInt16.ofNat_toNat]

theorem Holds.load16_eq (h : b.Holds 0 bs) (hle : off + 2 ≤ bs.length) :
    b.load16 off = some (halfWord bs off) := by
  have hsize := h.le
  rw [load16, load_of_le (by omega), Option.map_some, h.bytes_eq,
    List.drop_append_of_le_length (by omega), List.take_append_of_le_length
      (by rw [List.length_drop]; omega), halfWord]

end Block

/-! ### Allocation -/

/-- An allocator: `alloc n` is `none` when it fails, and otherwise a block of `n` bytes with
arbitrary contents. -/
structure Malloc where
  /-- The outcome of a request for `n` bytes. -/
  alloc : ℕ → Option Block
  /-- An allocated block has the size asked for. -/
  size_alloc : ∀ {n : ℕ} {b : Block}, alloc n = some b → b.size = n

/-- The allocator that never fails and clears what it returns. -/
def Malloc.zeroed : Malloc where
  alloc n := some ⟨List.replicate n 0, []⟩
  size_alloc h := by
    obtain rfl := Option.some.inj h
    exact List.length_replicate

end Memory
