import DnsTools.MessageQueueFifo

/-!
# What a push may write to

`push_message` stores through bare pointers, and it stores the wrap flag without looking at a
limit. This module says which bytes of the buffer are in use and shows that no push, whether it
succeeds or fails, writes one of them or a byte outside the buffer.

`MessageQueue.Live` describes the bytes in use through the code alone: those `get_message` would
read now, and those it would read after the caller has removed the record it returned. Nothing in
it mentions the layouts of `Represents`, from which `not_live_of_free` then computes it.
-/

namespace DnsTools

open Memory Endian

/-- Where the record `get_message` returns begins: behind the wrap flag, if the head rests on
it. -/
def MessageQueue.recordStart (q : MessageQueue) : ℕ :=
  if q.buffer.load q.head 1 = some [queueWrapFlag] then 0 else q.head

/-- The offset of a byte in use. -/
inductive MessageQueue.Live : MessageQueue → ℕ → Prop
  /-- The wrap flag the head rests on. -/
  | flag {q : MessageQueue} (hne : isQueueEmpty q = false)
      (hflag : q.buffer.load q.head 1 = some [queueWrapFlag]) : Live q q.head
  /-- A byte of the oldest record. -/
  | record {q : MessageQueue} {got : GotMessage} {i : ℕ} (hget : getMessage q = some (some got))
      (hlo : q.recordStart ≤ i) (hhi : i < got.newHead) : Live q i
  /-- A byte that is in use once the oldest record is removed. -/
  | later {q : MessageQueue} {got : GotMessage} {i : ℕ} (hget : getMessage q = some (some got))
      (hlive : Live (q.commit got) i) : Live q i

/-! ### The bytes in use in each layout -/

theorem not_live_of_empty {q : MessageQueue} {i : ℕ} (h : q.head = q.tail) : ¬ q.Live i := by
  have hget : getMessage q = some none := by rw [getMessage, if_pos h]
  intro hlive
  cases hlive with
  | flag hne _ => simp [isQueueEmpty, h] at hne
  | record hget' _ _ => simp [hget] at hget'
  | later hget' _ => simp [hget] at hget'

/-- One step along the queue. -/
theorem live_iff_of_getMessage {q : MessageQueue} {got : GotMessage} {i : ℕ}
    (hget : getMessage q = some (some got)) :
    q.Live i ↔ q.buffer.load q.head 1 = some [queueWrapFlag] ∧ i = q.head ∨
      q.recordStart ≤ i ∧ i < got.newHead ∨ (q.commit got).Live i := by
  have hne : isQueueEmpty q = false := by
    rw [isQueueEmpty, beq_eq_false_iff_ne]
    intro hempty
    rw [getMessage, if_pos hempty] at hget
    simp at hget
  constructor
  · intro hlive
    cases hlive with
    | flag _ hflag => exact Or.inl ⟨hflag, rfl⟩
    | record hget' hlo hhi =>
      obtain rfl : got = _ := by simpa [hget] using hget'
      exact Or.inr (Or.inl ⟨hlo, hhi⟩)
    | later hget' hlive =>
      obtain rfl : got = _ := by simpa [hget] using hget'
      exact Or.inr (Or.inr hlive)
  · rintro (⟨hflag, rfl⟩ | ⟨hlo, hhi⟩ | hlive)
    · exact .flag hne hflag
    · exact .record hget hlo hhi
    · exact .later hget hlive

/-- A record does not start with the wrap flag. -/
theorem load_of_holds_encode {buffer : Block} {p : ℕ} {e : Entry}
    (h : buffer.Holds p e.encode) : buffer.load p 1 ≠ some [queueWrapFlag] := by
  have hflag : buffer.load p 1 = some [messageFlag] := (holds_encode h).1.load
  rw [hflag]
  decide

/-- In the flat layout the bytes in use are those between the head and the tail. -/
theorem Flat.live_iff {q : MessageQueue} {es : List Entry} {i : ℕ} (h : Flat q es)
    (hfits : ∀ e ∈ es, e.Fits) : q.Live i ↔ q.head ≤ i ∧ i < q.tail := by
  induction es generalizing q with
  | nil =>
    have htail : q.head = q.tail := by simpa using h.tail_eq.symm
    have hnot := not_live_of_empty (i := i) htail
    constructor
    · intro hlive
      exact absurd hlive hnot
    · intro hbounds
      omega
  | cons e es ih =>
    obtain ⟨hrecord, hget, hrest⟩ := h.getMessage_cons (hfits e (List.mem_cons_self ..))
    have hflag := load_of_holds_encode hrecord
    have htail := hrest.tail_eq
    rw [live_iff_of_getMessage hget, ih hrest fun e' he' => hfits e' (List.mem_cons_of_mem e he'),
      MessageQueue.recordStart, if_neg hflag]
    simp only [hflag, false_and, false_or]
    simp only [MessageQueue.commit, recordAt] at htail ⊢
    omega

/-- In the wrapped layout the bytes in use are those in front of the tail, and those from the head
to the wrap flag, which is one of them. -/
theorem Wrapped.live_iff {q : MessageQueue} {old new : List Entry} {i : ℕ}
    (hsize : q.buffer.size = q.size) (h : Wrapped q old new) (hfits : ∀ e ∈ old ++ new, e.Fits) :
    q.Live i ↔ i < q.tail ∨ q.head ≤ i ∧ i ≤ q.head + (encodeAll old).length := by
  induction old generalizing q with
  | nil =>
    obtain ⟨e, new, rfl⟩ := List.exists_cons_of_ne_nil h.new_ne_nil
    obtain ⟨hflag, hrecord, hget, hrest⟩ :=
      h.getMessage_nil hsize (hfits e (by simp))
    have hload : q.buffer.load q.head 1 = some [queueWrapFlag] := hflag.load
    have htail := hrest.tail_eq
    rw [live_iff_of_getMessage hget, hrest.live_iff fun e' he' => hfits e' (by simp [he']),
      MessageQueue.recordStart, if_pos hload]
    simp only [hload, true_and, encodeAll_nil, List.length_nil]
    simp only [MessageQueue.commit, recordAt] at htail ⊢
    omega
  | cons e old ih =>
    obtain ⟨hrecord, hget, hrest⟩ := h.getMessage_cons (hfits e (by simp))
    have hflag := load_of_holds_encode hrecord
    have hlt := h.tail_lt
    rw [live_iff_of_getMessage hget,
      ih (q := q.commit (recordAt q.head e)) hsize hrest fun e' he' =>
        hfits e' (List.mem_cons_of_mem e he'),
      MessageQueue.recordStart, if_neg hflag]
    simp only [hflag, false_and, false_or, encodeAll_cons, List.length_append]
    simp only [MessageQueue.commit, recordAt]
    omega

/-! ### The bytes that are free -/

/-- The offset of a byte in front of the head that the tail may still reach. -/
def MessageQueue.Free (q : MessageQueue) (i : ℕ) : Prop :=
  if q.tail < q.head then q.tail ≤ i ∧ i < q.head else i < q.head ∨ q.tail ≤ i ∧ i < q.size

/-- **Free bytes are not in use.** -/
theorem not_live_of_free {q : MessageQueue} {es : List Entry} {i : ℕ} (h : Represents q es)
    (hfree : q.Free i) : i < q.size ∧ ¬ q.Live i := by
  obtain ⟨hhead, -⟩ := h.bounds
  rw [MessageQueue.Free] at hfree
  rcases h.layout with hflat | ⟨old, new, rfl, hwrapped⟩
  · have htail := hflat.tail_eq
    rw [hflat.live_iff h.fits]
    rw [if_neg (by omega)] at hfree
    omega
  · have hlt := hwrapped.tail_lt
    rw [hwrapped.live_iff h.size h.fits]
    rw [if_pos hlt] at hfree
    omega

/-- The stores between two buffers all lie on free bytes of the queue. -/
def StoresFree (q : MessageQueue) (buffer : Block) : Prop :=
  ∃ new, buffer.stores = new ++ q.buffer.stores ∧
    ∀ p ∈ new, ∀ i, p.1 ≤ i → i < p.1 + p.2 → q.Free i

theorem StoresFree.of_wroteWithin {q : MessageQueue} {buffer : Block} {lo hi : ℕ}
    (h : q.buffer.WroteWithin lo hi buffer) (hfree : ∀ i, lo ≤ i → i < hi → q.Free i) :
    StoresFree q buffer := by
  obtain ⟨new, hnew, hin⟩ := h.stores
  refine ⟨new, hnew, fun p hp i hlo hhi => ?_⟩
  have := hin p hp
  exact hfree i (by omega) (by omega)

/-- Whatever a push does, it stores to free bytes only. -/
theorem PushOutcome.storesFree {q q' : MessageQueue} {es : List Entry} {e : Entry} {r : ℤ}
    (h : Represents q es) (hout : PushOutcome q e r q') :
    StoresFree q q'.buffer := by
  obtain ⟨-, htail⟩ := h.bounds
  cases hout with
  | gapFull => exact ⟨[], rfl, by simp⟩
  | backFull => exact ⟨[], rfl, by simp⟩
  | gap hlt hroom hemitted =>
    refine .of_wroteWithin hemitted.wrote fun i hlo hhi => ?_
    simp only [MessageQueue.Free, if_pos hlt] at hlo hhi ⊢
    omega
  | back hle hroom hemitted =>
    refine .of_wroteWithin hemitted.wrote fun i hlo hhi => ?_
    simp only [MessageQueue.Free, if_neg (Nat.not_lt.mpr hle)] at hlo hhi ⊢
    omega
  | flagged hle _ _ _ hflag =>
    refine .of_wroteWithin (Block.WroteWithin.of_store hflag) fun i hlo hhi => ?_
    rw [List.length_singleton] at hhi
    rw [MessageQueue.Free, if_neg (Nat.not_lt.mpr hle)]
    omega
  | @wrapped hle _ hfront buffer buffer' hflag hemitted =>
    -- the flag goes to the tail and the record in front of the head
    obtain ⟨new, hnew, hin⟩ := (Block.WroteWithin.of_store hflag).stores
    obtain ⟨new', hnew', hin'⟩ := hemitted.wrote.stores
    have hstores : buffer'.stores = (new' ++ new) ++ q.buffer.stores := by
      rw [List.append_assoc, ← hnew]
      exact hnew'
    refine ⟨new' ++ new, hstores, fun p hp i hlo hhi => ?_⟩
    rw [MessageQueue.Free, if_neg (Nat.not_lt.mpr hle)]
    rcases List.mem_append.mp hp with hp | hp
    · have := hin' p hp
      simp only at this
      omega
    · have := hin p hp
      rw [List.length_singleton] at this
      omega

/-! ### Every history -/

/-- In a buffer of at least one byte the head and the tail are offsets of bytes. -/
theorem Represents.offsets {q : MessageQueue} {es : List Entry} (h : Represents q es)
    (hsize : 1 ≤ q.size) : q.head < q.size ∧ q.tail < q.size := by
  have hbuffer := h.size
  obtain ⟨-, htail⟩ := h.bounds
  rcases h.layout with hflat | ⟨old, new, -, hwrapped⟩
  · have := hflat.tail_eq
    omega
  · have hle := hwrapped.records_old.le
    have := hwrapped.tail_lt
    rw [List.length_append, List.length_singleton] at hle
    omega

/-- **A push writes inside the buffer and beside the bytes in use.** After any history of a queue
of at least one byte, the head and the tail are offsets of bytes, and every byte the next push
stores, whatever it returns, lies in the buffer and is not in use. -/
theorem pushMessage_writes_free_bytes (malloc : Malloc) (size : ℕ) (hsize : 1 ≤ size)
    {queue : MessageQueue} (hmake : makeMessageQueue malloc size = some queue)
    (ops : List QueueOp) (e : Entry) (he : e.Fits) :
    ∃ events q r q', Fifo.runEvents QueueOp.apply queue ops = some (events, q) ∧
      q.head < size ∧ q.tail < size ∧ pushMessage q e = some (r, q') ∧
      ∃ new, q'.buffer.stores = new ++ q.buffer.stores ∧
        ∀ p ∈ new, ∀ i, p.1 ≤ i → i < p.1 + p.2 → i < size ∧ ¬ q.Live i := by
  have hsize₀ : queue.size = size := by
    obtain ⟨buffer, -, rfl⟩ := Option.map_eq_some_iff.mp hmake
    rfl
  obtain ⟨events, q, contents, hrun, -, h, rfl⟩ :=
    Fifo.exists_trace_of_simulation (R := fun q es => Represents q es ∧ q.size = size)
      (P := fun _ => True)
      (QueueOp.apply_simulates_with (fun _ _ hq _ hout => hout.size.trans hq) fun _ hq _ => hq)
      ⟨represents_makeMessageQueue hmake, hsize₀⟩ (fun op (_ : op ∈ ops) => trivial)
  obtain ⟨hhead, htail⟩ := h.offsets hsize
  obtain ⟨r, q', hpush, hout⟩ := pushMessage_outcome h he
  obtain ⟨new, hnew, hfree⟩ := hout.storesFree h
  refine ⟨events, q, r, q', hrun, hhead, htail, hpush, new, hnew, ?_⟩
  intro p hp i hlo hhi
  exact not_live_of_free h (hfree p hp i hlo hhi)

/-- A push and a removal on 24 bytes, and then a push that has to wrap. -/
theorem pushMessage_writes_free_bytes_wrap :
    ∃ events q r q', Fifo.runEvents QueueOp.apply ⟨24, ⟨List.replicate 24 0, []⟩, 0, 0⟩
        [.push ⟨[], [1, 2]⟩ (by decide), .get true] = some (events, q) ∧
      q.head < 24 ∧ q.tail < 24 ∧ pushMessage q ⟨[], []⟩ = some (r, q') ∧
      ∃ new, q'.buffer.stores = new ++ q.buffer.stores ∧
        ∀ p ∈ new, ∀ i, p.1 ≤ i → i < p.1 + p.2 → i < 24 ∧ ¬ q.Live i :=
  pushMessage_writes_free_bytes .zeroed 24 (by decide) rfl _ _ (by decide)

end DnsTools
