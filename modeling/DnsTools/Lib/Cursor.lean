import DnsTools.Lib.Block

/-!
# Writing through an advancing pointer

The idiom `memcpy(p, x, n); p += n;` as a library. A cursor is a block together with the offset
the next bytes go to, and `Cursor.emit` stores a byte string there and advances past it.

`Cursor.Emitted c bs c'` is what a sequence of emissions amounts to: `c'` has advanced by the
length of `bs`, the block now holds `bs` over the stretch advanced over, and nothing outside that
stretch was written. Its two rules are `emit_of_le`, for one emission, and `Emitted.trans`, which
composes two; a function that emits field after field is proved with one application of each per
field.
-/

namespace Memory

namespace Block

/-- `b'` is `b` after stores that all lie in `[lo, hi)`. -/
structure WroteWithin (lo hi : ℕ) (b b' : Block) : Prop where
  /-- Stores do not resize a block. -/
  size : b'.size = b.size
  /-- The stores made in between. -/
  stores : ∃ new, b'.stores = new ++ b.stores ∧ ∀ p ∈ new, lo ≤ p.1 ∧ p.1 + p.2 ≤ hi
  /-- Whatever lay outside is still there. -/
  frame : ∀ {o cs}, b.Holds o cs → o + cs.length ≤ lo ∨ hi ≤ o → b'.Holds o cs

variable {b b' b'' : Block} {lo hi mid off : ℕ} {bs : List UInt8}

theorem WroteWithin.refl (lo hi : ℕ) (b : Block) : WroteWithin lo hi b b :=
  ⟨rfl, ⟨[], rfl, by simp⟩, fun h _ => h⟩

theorem WroteWithin.trans (h : WroteWithin lo hi b b') (h' : WroteWithin lo hi b' b'') :
    WroteWithin lo hi b b'' := by
  obtain ⟨new, hnew, hin⟩ := h.stores
  obtain ⟨new', hnew', hin'⟩ := h'.stores
  refine ⟨h'.size.trans h.size, ⟨new' ++ new, by rw [hnew', hnew, List.append_assoc], ?_⟩,
    fun hc hd => h'.frame (h.frame hc hd) hd⟩
  intro p hp
  rcases List.mem_append.mp hp with hp | hp
  · exact hin' p hp
  · exact hin p hp

theorem WroteWithin.mono {lo' hi' : ℕ} (h : WroteWithin lo hi b b') (hlo : lo' ≤ lo)
    (hhi : hi ≤ hi') : WroteWithin lo' hi' b b' := by
  obtain ⟨new, hnew, hin⟩ := h.stores
  refine ⟨h.size, ⟨new, hnew, fun p hp => ?_⟩, fun hc hd => h.frame hc (by omega)⟩
  have := hin p hp
  omega

theorem WroteWithin.of_store (h : b.store off bs = some b') :
    WroteWithin off (off + bs.length) b b' := by
  refine ⟨size_of_store h, ⟨[(off, bs.length)], stores_of_store h, ?_⟩,
    fun hc hd => hc.store_of_disjoint h hd⟩
  intro p hp
  rw [List.mem_singleton.mp hp]
  exact ⟨Nat.le_refl _, Nat.le_refl _⟩

end Block

/-- A block and the offset the next bytes go to. -/
structure Cursor where
  /-- The block written into. -/
  block : Block
  /-- Where the next byte goes. -/
  off : ℕ

namespace Cursor

variable {c c' c'' : Cursor} {bs xs ys : List UInt8}

/-- Store `bs` at the cursor and advance past it. -/
def emit (c : Cursor) (bs : List UInt8) : Option Cursor :=
  (c.block.store c.off bs).map fun block => ⟨block, c.off + bs.length⟩

/-- From `c` to `c'` exactly the bytes `bs` were emitted. -/
structure Emitted (c : Cursor) (bs : List UInt8) (c' : Cursor) : Prop where
  /-- The cursor has advanced past them. -/
  off : c'.off = c.off + bs.length
  /-- They lie where the cursor was. -/
  holds : c'.block.Holds c.off bs
  /-- Nothing else was written. -/
  wrote : c.block.WroteWithin c.off c'.off c'.block

theorem Emitted.size (h : Emitted c bs c') : c'.block.size = c.block.size := h.wrote.size

theorem Emitted.le (h : Emitted c bs c') : c'.off ≤ c'.block.size := by
  rw [h.off]
  exact h.holds.le

theorem Emitted.refl (h : c.off ≤ c.block.size) : Emitted c [] c :=
  ⟨rfl, Block.holds_nil.mpr h, .refl _ _ _⟩

/-- **Composition.** Emitting twice emits the concatenation. -/
theorem Emitted.trans (h : Emitted c xs c') (h' : Emitted c' ys c'') :
    Emitted c (xs ++ ys) c'' := by
  have hoff : c''.off = c.off + (xs ++ ys).length := by
    rw [h'.off, h.off, List.length_append, Nat.add_assoc]
  refine ⟨hoff, Block.holds_append.mpr ⟨h'.wrote.frame h.holds ?_, ?_⟩, ?_⟩
  · rw [h.off]
    exact Or.inl (Nat.le_refl _)
  · rw [← h.off]
    exact h'.holds
  · have := h.off
    have := h'.off
    exact (h.wrote.mono (Nat.le_refl _) (by omega)).trans (h'.wrote.mono (by omega) (Nat.le_refl _))

theorem emitted_of_emit (h : c.emit bs = some c') : Emitted c bs c' := by
  obtain ⟨block, hstore, rfl⟩ := Option.map_eq_some_iff.mp h
  exact ⟨rfl, Block.Holds.of_store hstore, Block.WroteWithin.of_store hstore⟩

/-- An emission succeeds when there is room for it. -/
theorem emit_of_le (c : Cursor) (bs : List UInt8) (h : c.off + bs.length ≤ c.block.size) :
    ∃ c', c.emit bs = some c' ∧ Emitted c bs c' := by
  obtain ⟨block, hstore⟩ := Block.store_of_le _ _ _ h
  have hemit : c.emit bs = some ⟨block, c.off + bs.length⟩ := by rw [emit, hstore, Option.map_some]
  exact ⟨_, hemit, emitted_of_emit hemit⟩

theorem emit_eq_none (h : c.block.size < c.off + bs.length) : c.emit bs = none := by
  rw [emit, Block.store, if_neg (Nat.not_le.mpr h), Option.map_none]

/-! ### Emitting a list of fields -/

/-- Emit one byte string after another. -/
def emits (c : Cursor) (fields : List (List UInt8)) : Option Cursor := fields.foldlM emit c

theorem emits_nil (c : Cursor) : c.emits [] = some c := rfl

theorem emits_cons (c : Cursor) (bs : List UInt8) (fields : List (List UInt8)) :
    c.emits (bs :: fields) = (c.emit bs).bind fun c' => c'.emits fields := rfl

theorem emits_singleton (c : Cursor) (bs : List UInt8) : c.emits [bs] = c.emit bs := by
  rw [emits_cons]
  exact Option.bind_fun_some _

theorem emits_append (c : Cursor) (fields fields' : List (List UInt8)) :
    c.emits (fields ++ fields') = (c.emits fields).bind fun c' => c'.emits fields' :=
  List.foldlM_append

/-- A list of fields is emitted as their concatenation, given room for all of them. -/
theorem emits_of_le (c : Cursor) (fields : List (List UInt8))
    (h : c.off + fields.flatten.length ≤ c.block.size) :
    ∃ c', c.emits fields = some c' ∧ Emitted c fields.flatten c' := by
  induction fields generalizing c with
  | nil => exact ⟨c, emits_nil c, .refl (by simpa using h)⟩
  | cons bs fields ih =>
    rw [List.flatten_cons, List.length_append] at h
    obtain ⟨c₁, hemit, h₁⟩ := emit_of_le c bs (by omega)
    obtain ⟨c₂, hemits, h₂⟩ := ih c₁ (by rw [h₁.off, h₁.size]; omega)
    refine ⟨c₂, ?_, by rw [List.flatten_cons]; exact h₁.trans h₂⟩
    rw [emits_cons, hemit, Option.bind_some, hemits]

/-- A list of fields that was emitted was emitted as their concatenation. -/
theorem emitted_of_emits {fields : List (List UInt8)} (hoff : c.off ≤ c.block.size)
    (h : c.emits fields = some c') : Emitted c fields.flatten c' := by
  induction fields generalizing c with
  | nil =>
    rw [emits_nil, Option.some.injEq] at h
    subst h
    exact .refl hoff
  | cons bs fields ih =>
    rw [emits_cons] at h
    obtain ⟨c₁, hemit, hrest⟩ := Option.bind_eq_some_iff.mp h
    have h₁ := emitted_of_emit hemit
    rw [List.flatten_cons]
    exact h₁.trans (ih (h₁.size ▸ h₁.le) hrest)

end Cursor

end Memory
