import Mathlib.Data.List.Nodup
import Mathlib.Data.List.ReduceOption
import Mathlib.Data.Nat.Notation

/-!
# Which blocks have been released

Every block that is allocated gets a number of its own, in the order of the allocations, and the
ledger lists the blocks that were passed to `free`, in that order. A pointer to a block is its
number, and `none` is the null pointer. An address may be used again after the block has been
released; a number is not.

## Main results

* `Ledger.Sound.malloc`, `Ledger.Sound.free` — each block is released at most once as long as only
  live blocks are
* `Ledger.Sound.live_malloc` — a block just allocated is live
-/

namespace Memory

/-- The blocks allocated and released so far. -/
structure Ledger where
  /-- The number of blocks allocated. -/
  allocated : ℕ
  /-- The blocks released. -/
  released : List ℕ
deriving DecidableEq, Repr

namespace Ledger

/-- A successful call of `malloc`: the new block, and the ledger with it. -/
def malloc (l : Ledger) : ℕ × Ledger := (l.allocated, { l with allocated := l.allocated + 1 })

/-- `free`, which does nothing with a null pointer. -/
def free (l : Ledger) : Option ℕ → Ledger
  | none => l
  | some block => { l with released := l.released ++ [block] }

/-- The block has been allocated and not released. -/
def Live (l : Ledger) (block : ℕ) : Prop := block < l.allocated ∧ block ∉ l.released

/-- What the pointer points to has not been released. -/
def Valid (l : Ledger) (pointer : Option ℕ) : Prop := ∀ block ∈ pointer, block ∉ l.released

/-- No block has been released twice, or before it was allocated. -/
structure Sound (l : Ledger) : Prop where
  /-- Each block is released at most once. -/
  once : l.released.Nodup
  /-- Only blocks that have been allocated are. -/
  allocated : ∀ block ∈ l.released, block < l.allocated

variable {l : Ledger} {block block' : ℕ}

theorem sound_empty : Sound ⟨0, []⟩ := ⟨List.nodup_nil, by simp⟩

theorem Sound.malloc (h : l.Sound) : l.malloc.2.Sound :=
  ⟨h.once, fun block hblock => Nat.lt_succ_of_lt (h.allocated block hblock)⟩

theorem Live.malloc (h : l.Live block) : l.malloc.2.Live block := ⟨Nat.lt_succ_of_lt h.1, h.2⟩

/-- A block just allocated is live. -/
theorem Sound.live_malloc (h : l.Sound) : l.malloc.2.Live l.malloc.1 :=
  ⟨Nat.lt_succ_self _, fun hmem => Nat.lt_irrefl _ (h.allocated _ hmem)⟩

/-- A live block may be released. -/
theorem Sound.free (h : l.Sound) (hlive : l.Live block) : (l.free (some block)).Sound := by
  constructor
  · rw [Ledger.free, ← List.concat_eq_append]
    exact h.once.concat hlive.2
  · intro block' hblock'
    rcases List.mem_append.mp hblock' with hblock' | hblock'
    · exact h.allocated block' hblock'
    · exact List.mem_singleton.mp hblock' ▸ hlive.1

/-- Other blocks stay live. -/
theorem Live.free (h : l.Live block) (hne : block ≠ block') : (l.free (some block')).Live block :=
  ⟨h.1, by simpa [Ledger.free] using ⟨h.2, hne⟩⟩

/-- A pointer to a live block may be passed to `free`, as may a null pointer. -/
theorem Sound.free_pointer (h : l.Sound) {pointer : Option ℕ}
    (hlive : ∀ block ∈ pointer, l.Live block) : (l.free pointer).Sound := by
  cases pointer with
  | none => exact h
  | some block => exact h.free (hlive block rfl)

/-- A block that is released right after it was allocated makes no difference. -/
theorem Sound.malloc_free (h : l.Sound) : (l.malloc.2.free (some l.malloc.1)).Sound :=
  h.malloc.free h.live_malloc

theorem Live.malloc_free (h : l.Live block) : (l.malloc.2.free (some l.malloc.1)).Live block :=
  h.malloc.free (Nat.ne_of_lt h.1)

@[simp] theorem allocated_free (l : Ledger) (pointer : Option ℕ) :
    (l.free pointer).allocated = l.allocated := by
  cases pointer <;> rfl

@[simp] theorem released_free (l : Ledger) (pointer : Option ℕ) :
    (l.free pointer).released = l.released ++ pointer.toList := by
  cases pointer with
  | none => exact (List.append_nil _).symm
  | some block => rfl

/-! ### Several pointers -/

/-- `free` for one pointer after another. -/
def frees (l : Ledger) (pointers : List (Option ℕ)) : Ledger := pointers.foldl free l

variable {pointers : List (Option ℕ)}

theorem allocated_frees (l : Ledger) (pointers : List (Option ℕ)) :
    (l.frees pointers).allocated = l.allocated := by
  induction pointers generalizing l with
  | nil => rfl
  | cons pointer pointers ih => exact (ih _).trans (l.allocated_free pointer)

theorem released_frees (l : Ledger) (pointers : List (Option ℕ)) :
    (l.frees pointers).released = l.released ++ pointers.reduceOption := by
  induction pointers generalizing l with
  | nil => exact (List.append_nil _).symm
  | cons pointer pointers ih =>
    refine (ih _).trans ?_
    cases pointer with
    | none => rw [List.reduceOption_cons_of_none, free]
    | some block =>
      rw [List.reduceOption_cons_of_some, free, List.append_assoc, List.singleton_append]

/-- Different live blocks may be released one after another. -/
theorem Sound.frees (h : l.Sound) (hnodup : pointers.reduceOption.Nodup)
    (hlive : ∀ block ∈ pointers.reduceOption, l.Live block) : (l.frees pointers).Sound := by
  constructor
  · rw [released_frees]
    exact h.once.append hnodup fun block hmem hmem' => (hlive block hmem').2 hmem
  · intro block hmem
    rw [released_frees, List.mem_append] at hmem
    rw [allocated_frees]
    exact hmem.elim (h.allocated block) fun hmem' => (hlive block hmem').1

end Ledger

end Memory
