import DnsTools.MessageQueue
import DnsTools.Lib.Fifo

/-!
# The message queue is a FIFO

The queue of `MessageQueue` represents a list of entries in one of two layouts:

```
flat      . . . . | r₁ | r₂ | r₃ | . . . .          head ≤ tail
                  head           tail

wrapped   r₃ | r₄ | . . . . | r₁ | r₂ | flag . .    tail < head
                  tail      head
```

In the wrapped layout the head may already rest on the flag. `Represents` says which entries a queue
holds; the queue operations are shown to simulate `Fifo.Step` through it, and what holds of every
sequence of operations is then a matter of FIFOs: `Fifo.exists_trace_of_simulation` gives the trace,
and `Trace.conservation` says that what was taken and what is left is what was added.

## Why a failed push does no harm

The flag a failed push leaves behind lies at the tail, which in the flat layout is outside every
record. It is not part of either layout's description: a later push overwrites it or, if it wraps,
writes it again.

## Records

A record begins with a byte that tells it from the flag at which the queue wraps. Behind it come the
length of the address, the address, the length of the message and the message. The lengths are
`socklen_t` and `size_t`, so an entry has to fit them (`Entry.Fits`), as all datagrams do.

## Main results

* `pushMessage_outcome` — what a push does in either layout
* `getMessage_of_cons`, `getMessage_of_nil` — what a get finds
* `messageQueue_fifo` — every sequence of operations
-/

namespace DnsTools

open Memory Endian

/-! ### The encoding of a record -/

/-- The lengths fit the fields they are stored in, and `message_size` does not wrap. -/
structure Entry.Fits (e : Entry) : Prop where
  /-- The address length is a `socklen_t`. -/
  address : e.address.length < 2 ^ 32
  /-- `message_size` is computed without wrapping. -/
  total : 1 + sizeofSocklen + e.address.length + sizeofSize + e.message.length < sizeModulus

instance (e : Entry) : Decidable e.Fits :=
  decidable_of_iff (e.address.length < 2 ^ 32 ∧
      1 + sizeofSocklen + e.address.length + sizeofSize + e.message.length < sizeModulus)
    ⟨fun h => ⟨h.1, h.2⟩, fun h => ⟨h.1, h.2⟩⟩

/-- The bytes of a record in the buffer. -/
def Entry.encode (e : Entry) : List UInt8 :=
  [messageFlag] ++ (leBytes sizeofSocklen e.address.length ++ (e.address ++
    (leBytes sizeofSize e.message.length ++ e.message)))

/-- Records back to back. -/
def encodeAll (es : List Entry) : List UInt8 := es.flatMap Entry.encode

@[simp] theorem encodeAll_nil : encodeAll [] = [] := rfl

@[simp] theorem encodeAll_cons (e : Entry) (es : List Entry) :
    encodeAll (e :: es) = e.encode ++ encodeAll es := rfl

@[simp] theorem encodeAll_append (es es' : List Entry) :
    encodeAll (es ++ es') = encodeAll es ++ encodeAll es' := List.flatMap_append

theorem Entry.length_encode (e : Entry) :
    e.encode.length = 1 + sizeofSocklen + e.address.length + sizeofSize + e.message.length := by
  simp only [encode, List.length_append, length_leBytes, List.length_singleton]
  omega

theorem Entry.Fits.messageSize {e : Entry} (h : e.Fits) : messageSize e = e.encode.length := by
  rw [DnsTools.messageSize, Nat.mod_eq_of_lt h.total, e.length_encode]

theorem Entry.length_encode_pos (e : Entry) : 0 < e.encode.length := by
  rw [length_encode, sizeofSocklen]
  omega

/-! ### One record -/

/-- Pushing below a limit fails cleanly, or emits exactly the record. -/
theorem pushMessageToTheLimit_cases (buffer : Block) (tail limit : ℕ) {e : Entry} (he : e.Fits)
    (hlimit : limit ≤ buffer.size) :
    (limit ≤ tail + e.encode.length ∧
        pushMessageToTheLimit buffer tail limit e = some (-1, buffer, tail)) ∨
      (tail + e.encode.length < limit ∧
        ∃ buffer', pushMessageToTheLimit buffer tail limit e
            = some (0, buffer', tail + e.encode.length) ∧
          Cursor.Emitted ⟨buffer, tail⟩ e.encode ⟨buffer', tail + e.encode.length⟩) := by
  rw [pushMessageToTheLimit, he.messageSize]
  split
  · rename_i hfull
    exact Or.inl ⟨hfull, rfl⟩
  · rename_i hroom
    have hfields : [[messageFlag], leBytes sizeofSocklen e.address.length, e.address,
        leBytes sizeofSize e.message.length, e.message].flatten = e.encode := by
      simp [Entry.encode]
    obtain ⟨⟨buffer', tail'⟩, hemits, hemitted⟩ := Cursor.emits_of_le
      ⟨buffer, tail⟩ [[messageFlag], leBytes sizeofSocklen e.address.length, e.address,
        leBytes sizeofSize e.message.length, e.message]
      (by rw [hfields]; simp only; omega)
    rw [hfields] at hemitted
    have htail : tail' = tail + e.encode.length := hemitted.off
    subst htail
    refine Or.inr ⟨by omega, buffer', ?_, hemitted⟩
    rw [hemits]
    rfl

/-- What `get_message` reads off a record that starts at `p`. -/
def recordAt (p : ℕ) (e : Entry) : GotMessage :=
  { newHead := p + e.encode.length
    address := p + 1 + sizeofSocklen
    addressLength := e.address.length
    message := p + 1 + sizeofSocklen + e.address.length + sizeofSize
    size := e.message.length }

/-- The parts of a record that lies in the buffer. -/
theorem holds_encode {buffer : Block} {p : ℕ} {e : Entry} (h : buffer.Holds p e.encode) :
    buffer.Holds p [messageFlag] ∧
      buffer.Holds (p + 1) (leBytes sizeofSocklen e.address.length) ∧
      buffer.Holds (p + 1 + sizeofSocklen) e.address ∧
      buffer.Holds (p + 1 + sizeofSocklen + e.address.length)
        (leBytes sizeofSize e.message.length) ∧
      buffer.Holds (p + 1 + sizeofSocklen + e.address.length + sizeofSize) e.message := by
  simpa only [Entry.encode, Block.holds_append, length_leBytes, List.length_singleton] using h

theorem entry_recordAt {buffer : Block} {p : ℕ} {e : Entry} (h : buffer.Holds p e.encode) :
    (recordAt p e).entry buffer = some e := by
  obtain ⟨-, -, haddress, -, hmessage⟩ := holds_encode h
  simp only [GotMessage.entry, recordAt, haddress.load, hmessage.load, Option.bind_eq_bind,
    Option.bind_some]
  rfl

/-- `get_message` at a record: `p` is where the head points, or the start of the buffer when the
head rests on the wrap flag. -/
theorem getMessage_of_holds {queue : MessageQueue} {flag : UInt8} {p : ℕ} {e : Entry}
    (hne : queue.head ≠ queue.tail) (hflag : queue.buffer.Holds queue.head [flag])
    (hp : p = if flag = queueWrapFlag then 0 else queue.head)
    (h : queue.buffer.Holds p e.encode) (he : e.Fits) :
    getMessage queue = some (some (recordAt p e)) := by
  obtain ⟨-, halen, -, hmlen, -⟩ := holds_encode h
  have haddress : leNat (leBytes sizeofSocklen e.address.length) = e.address.length :=
    leNat_leBytes_of_lt he.address
  have hmessage : leNat (leBytes sizeofSize e.message.length) = e.message.length := by
    refine leNat_leBytes_of_lt ?_
    have := he.total
    rw [sizeModulus] at this
    rw [sizeofSize]
    omega
  have hload : queue.buffer.load queue.head 1 = some [flag] := hflag.load
  have hhead : (if [flag] = [queueWrapFlag] then 0 else queue.head) = p := by
    rw [hp]
    simp only [List.cons.injEq, and_true]
  have haload := halen.load
  have hmload := hmlen.load
  rw [length_leBytes] at haload hmload
  simp only [getMessage, hne, if_false, hload, Option.bind_eq_bind, Option.bind_some, hhead,
    haload, haddress, hmload, hmessage, recordAt, e.length_encode]
  simp only [Nat.add_assoc, Option.pure_def]

/-! ### The two layouts -/

/-- The entries lie back to back from the head to the tail. The tail is inside the buffer, except
in the empty buffer of size zero. -/
structure Flat (q : MessageQueue) (es : List Entry) : Prop where
  /-- The records. -/
  records : q.buffer.Holds q.head (encodeAll es)
  /-- They end at the tail. -/
  tail_eq : q.tail = q.head + (encodeAll es).length
  /-- There is room for a flag at the tail. -/
  tail_lt : q.tail < q.size ∨ q.head = 0 ∧ q.tail = 0

/-- The entries `old` lie back to back from the head on and are followed by the wrap flag; the
entries `new` lie at the start of the buffer and end at the tail. -/
structure Wrapped (q : MessageQueue) (old new : List Entry) : Prop where
  /-- The older records and the flag. -/
  records_old : q.buffer.Holds q.head (encodeAll old ++ [queueWrapFlag])
  /-- The newer records. -/
  records_new : q.buffer.Holds 0 (encodeAll new)
  /-- They end at the tail. -/
  tail_eq : q.tail = (encodeAll new).length
  /-- The tail has not caught up with the head. -/
  tail_lt : q.tail < q.head
  /-- Wrapping pushed at least one record. -/
  new_ne_nil : new ≠ []

/-- The queue holds these entries, oldest first. -/
structure Represents (q : MessageQueue) (es : List Entry) : Prop where
  /-- The buffer has the size recorded in the queue. -/
  size : q.buffer.size = q.size
  /-- Every entry can be read back. -/
  fits : ∀ e ∈ es, e.Fits
  /-- The layout. -/
  layout : Flat q es ∨ ∃ old new, es = old ++ new ∧ Wrapped q old new

theorem encodeAll_eq_nil_iff {es : List Entry} : (encodeAll es).length = 0 ↔ es = [] := by
  cases es with
  | nil => simp
  | cons e es =>
    have := e.length_encode_pos
    simp only [encodeAll_cons, List.length_append, reduceCtorEq, iff_false]
    omega

/-- **Empty means empty.** The full buffer is never mistaken for the empty one. -/
theorem Represents.isQueueEmpty_iff {q : MessageQueue} {es : List Entry} (h : Represents q es) :
    isQueueEmpty q = true ↔ es = [] := by
  rw [isQueueEmpty, beq_iff_eq]
  rcases h.layout with hflat | ⟨old, new, rfl, hwrapped⟩
  · have := hflat.tail_eq
    rw [← encodeAll_eq_nil_iff]
    omega
  · have := hwrapped.tail_lt
    constructor
    · intro heq
      omega
    · intro hnil
      exact absurd (List.append_eq_nil_iff.mp hnil).2 hwrapped.new_ne_nil

theorem represents_makeMessageQueue {malloc : Malloc} {size : ℕ} {q : MessageQueue}
    (h : makeMessageQueue malloc size = some q) : Represents q [] := by
  obtain ⟨buffer, halloc, rfl⟩ := Option.map_eq_some_iff.mp h
  exact ⟨malloc.size_alloc halloc, by simp, Or.inl ⟨by simp, rfl, Or.inr ⟨rfl, rfl⟩⟩⟩

/-! ### Pushing -/

/-- Everything `push_message` can do, with the return code and the queue it leaves. -/
inductive PushOutcome (q : MessageQueue) (e : Entry) : ℤ → MessageQueue → Prop
  /-- The tail is behind the head, and the gap between them is too small. -/
  | gapFull (hlt : q.tail < q.head) (hfull : q.head ≤ q.tail + e.encode.length) :
      PushOutcome q e (-1) q
  /-- The record went into the gap between the tail and the head. -/
  | gap (hlt : q.tail < q.head) (hroom : q.tail + e.encode.length < q.head) {buffer : Block}
      (hemitted : Cursor.Emitted ⟨q.buffer, q.tail⟩ e.encode ⟨buffer, q.tail + e.encode.length⟩) :
      PushOutcome q e 0 { q with buffer, tail := q.tail + e.encode.length }
  /-- The record went between the tail and the end of the buffer. -/
  | back (hle : q.head ≤ q.tail) (hroom : q.tail + e.encode.length < q.size) {buffer : Block}
      (hemitted : Cursor.Emitted ⟨q.buffer, q.tail⟩ e.encode ⟨buffer, q.tail + e.encode.length⟩) :
      PushOutcome q e 0 { q with buffer, tail := q.tail + e.encode.length }
  /-- There is no room behind the tail, and none in front of the head. -/
  | backFull (hle : q.head ≤ q.tail) (hfull : q.size ≤ q.tail + e.encode.length)
      (hhead : q.head = 0) : PushOutcome q e (-1) q
  /-- The flag was written, and then the record did not fit in front of the head either. -/
  | flagged (hle : q.head ≤ q.tail) (hfull : q.size ≤ q.tail + e.encode.length)
      (hhead : q.head ≠ 0) (hfront : q.head ≤ e.encode.length) {buffer : Block}
      (hflag : q.buffer.store q.tail [queueWrapFlag] = some buffer) :
      PushOutcome q e (-1) { q with buffer }
  /-- The flag was written and the record went to the start of the buffer. -/
  | wrapped (hle : q.head ≤ q.tail) (hfull : q.size ≤ q.tail + e.encode.length)
      (hfront : e.encode.length < q.head) {buffer buffer' : Block}
      (hflag : q.buffer.store q.tail [queueWrapFlag] = some buffer)
      (hemitted : Cursor.Emitted ⟨buffer, 0⟩ e.encode ⟨buffer', e.encode.length⟩) :
      PushOutcome q e 0 { q with buffer := buffer', tail := e.encode.length }

theorem PushOutcome.size {q q' : MessageQueue} {e : Entry} {r : ℤ}
    (h : PushOutcome q e r q') : q'.size = q.size := by
  cases h <;> rfl

/-- The head stays inside the buffer, and so does the tail once the queue has been used. -/
theorem Represents.bounds {q : MessageQueue} {es : List Entry} (h : Represents q es) :
    q.head ≤ q.size ∧ (q.tail < q.size ∨ q.head = 0 ∧ q.tail = 0) := by
  have hsize := h.size
  rcases h.layout with hflat | ⟨old, new, -, hwrapped⟩
  · have := hflat.tail_lt
    have := hflat.tail_eq
    omega
  · have hle := hwrapped.records_old.le
    have := hwrapped.tail_lt
    rw [List.length_append, List.length_singleton] at hle
    omega

theorem pushMessage_outcome {q : MessageQueue} {es : List Entry} {e : Entry}
    (h : Represents q es) (he : e.Fits) :
    ∃ r q', pushMessage q e = some (r, q') ∧ PushOutcome q e r q' := by
  obtain ⟨hhead, htail⟩ := h.bounds
  have hsize := h.size
  rw [pushMessage]
  split
  · rename_i hlt
    rcases pushMessageToTheLimit_cases q.buffer q.tail q.head he
      (by omega) with ⟨hfull, hpush⟩ | ⟨hroom, buffer', hpush, hemitted⟩
    · exact ⟨-1, q, by rw [hpush]; rfl, .gapFull hlt hfull⟩
    · exact ⟨0, _, by rw [hpush]; rfl, .gap hlt hroom hemitted⟩
  · rename_i hge
    have hle : q.head ≤ q.tail := Nat.not_lt.mp hge
    rcases pushMessageToTheLimit_cases q.buffer q.tail q.size he
      (by omega) with ⟨hfull, hpush⟩ | ⟨hroom, buffer', hpush, hemitted⟩
    · by_cases hzero : q.head = 0
      · refine ⟨-1, q, ?_, .backFull hle hfull hzero⟩
        rw [hpush]
        exact if_pos hzero
      · obtain ⟨buffer₁, hflag⟩ := Block.store_of_le q.buffer q.tail
          [queueWrapFlag] (by rw [List.length_singleton]; omega)
        have hsize₁ := Block.size_of_store hflag
        rcases pushMessageToTheLimit_cases buffer₁ 0 q.head he
          (by omega) with ⟨hfull', hpush'⟩ | ⟨hroom', buffer', hpush', hemitted⟩
        · refine ⟨-1, { q with buffer := buffer₁ }, ?_,
            .flagged hle hfull hzero (by omega) hflag⟩
          rw [hpush]
          simp [hzero, hflag, hpush']
        · rw [Nat.zero_add] at hroom' hpush' hemitted
          refine ⟨0, _, ?_, .wrapped hle hfull hroom' hflag hemitted⟩
          rw [hpush]
          simp [hzero, hflag, hpush']
    · exact ⟨0, _, by rw [hpush]; rfl, .back hle hroom hemitted⟩

/-- A push that returns `0` appends its record; one that returns `-1` appends nothing, whatever it
wrote. -/
theorem PushOutcome.represents {q q' : MessageQueue} {es : List Entry} {e : Entry} {r : ℤ}
    (h : Represents q es) (he : e.Fits) (hout : PushOutcome q e r q') :
    (r = 0 ∧ Represents q' (es ++ [e])) ∨ (r = -1 ∧ Represents q' es) := by
  have hsize := h.size
  have hfits : ∀ e' ∈ es ++ [e], e'.Fits := by
    intro e' he'
    rcases List.mem_append.mp he' with hmem | hmem
    · exact h.fits e' hmem
    · rw [List.mem_singleton.mp hmem]
      exact he
  cases hout with
  | gapFull => exact Or.inr ⟨rfl, h⟩
  | backFull => exact Or.inr ⟨rfl, h⟩
  | gap hlt hroom hemitted =>
    rcases h.layout with hflat | ⟨old, new, rfl, hwrapped⟩
    · have := hflat.tail_eq
      omega
    have hnew := hwrapped.records_new
    have htail := hwrapped.tail_eq
    refine Or.inl ⟨rfl, hemitted.size.trans hsize, hfits,
      Or.inr ⟨old, new ++ [e], List.append_assoc .., ?_⟩⟩
    refine ⟨hemitted.wrote.frame hwrapped.records_old (Or.inr (by simp only; omega)), ?_,
      by simp [htail], by simp only; omega, by simp⟩
    rw [encodeAll_append, encodeAll_cons, encodeAll_nil, List.append_nil, Block.holds_append]
    refine ⟨hemitted.wrote.frame hnew (Or.inl (by simp only; omega)), ?_⟩
    rw [Nat.zero_add, ← htail]
    exact hemitted.holds
  | back hle hroom hemitted =>
    rcases h.layout with hflat | ⟨old, new, rfl, hwrapped⟩
    · have htail := hflat.tail_eq
      refine Or.inl ⟨rfl, hemitted.size.trans hsize, hfits, Or.inl ⟨?_, ?_, Or.inl hroom⟩⟩
      · rw [encodeAll_append, encodeAll_cons, encodeAll_nil, List.append_nil, Block.holds_append]
        refine ⟨hemitted.wrote.frame hflat.records (Or.inl (by simp only; omega)), ?_⟩
        rw [← htail]
        exact hemitted.holds
      · simp only [encodeAll_append, encodeAll_cons, encodeAll_nil, List.append_nil,
          List.length_append]
        omega
    · have := hwrapped.tail_lt
      omega
  | flagged hle hfull hhead hfront hflag =>
    rcases h.layout with hflat | ⟨old, new, rfl, hwrapped⟩
    · have htail := hflat.tail_eq
      refine Or.inr ⟨rfl, (Block.size_of_store hflag).trans hsize, h.fits,
        Or.inl ⟨?_, htail, hflat.tail_lt⟩⟩
      exact hflat.records.store_of_disjoint hflag (Or.inl (by omega))
    · have := hwrapped.tail_lt
      omega
  | wrapped hle hfull hfront hflag hemitted =>
    rcases h.layout with hflat | ⟨old, new, rfl, hwrapped⟩
    · have htail := hflat.tail_eq
      have hwrote := hemitted.wrote
      refine Or.inl ⟨rfl, (hemitted.size.trans (Block.size_of_store hflag)).trans hsize, hfits,
        Or.inr ⟨es, [e], rfl, ?_, ?_, by simp, by simp only; omega, by simp⟩⟩
      · -- the flag lies where the records end, and the new record lies in front of them all
        rw [Block.holds_append]
        refine ⟨hwrote.frame (hflat.records.store_of_disjoint hflag (Or.inl (by omega)))
          (Or.inr (by simp only; omega)), ?_⟩
        rw [← htail]
        exact hwrote.frame (Block.Holds.of_store hflag) (Or.inr (by simp only; omega))
      · simpa using hemitted.holds
    · have := hwrapped.tail_lt
      omega

/-! ### Getting -/

/-- In the flat layout the oldest record is where the head points. -/
theorem Flat.getMessage_cons {q : MessageQueue} {e : Entry} {es : List Entry}
    (h : Flat q (e :: es)) (he : e.Fits) :
    q.buffer.Holds q.head e.encode ∧ getMessage q = some (some (recordAt q.head e)) ∧
      Flat (q.commit (recordAt q.head e)) es := by
  have hnflag : messageFlag ≠ queueWrapFlag := by decide
  have hpos := e.length_encode_pos
  have hrecords := h.records
  rw [encodeAll_cons, Block.holds_append] at hrecords
  obtain ⟨hrecord, hrest⟩ := hrecords
  have htail := h.tail_eq
  have hlt := h.tail_lt
  rw [encodeAll_cons, List.length_append] at htail
  refine ⟨hrecord, getMessage_of_holds (by omega) (holds_encode hrecord).1
    (by rw [if_neg hnflag]) hrecord he, hrest, ?_, ?_⟩
  · simp only [MessageQueue.commit, recordAt]
    omega
  · simp only [MessageQueue.commit, recordAt]
    omega

/-- In the wrapped layout the oldest record is where the head points, unless only the flag is
left there. -/
theorem Wrapped.getMessage_cons {q : MessageQueue} {e : Entry} {old new : List Entry}
    (h : Wrapped q (e :: old) new) (he : e.Fits) :
    q.buffer.Holds q.head e.encode ∧ getMessage q = some (some (recordAt q.head e)) ∧
      Wrapped (q.commit (recordAt q.head e)) old new := by
  have hnflag : messageFlag ≠ queueWrapFlag := by decide
  have hlt := h.tail_lt
  have hrecords := h.records_old
  rw [encodeAll_cons, List.append_assoc, Block.holds_append] at hrecords
  obtain ⟨hrecord, hrest⟩ := hrecords
  refine ⟨hrecord, getMessage_of_holds (by omega) (holds_encode hrecord).1
    (by rw [if_neg hnflag]) hrecord he, hrest, h.records_new, h.tail_eq, ?_, h.new_ne_nil⟩
  simp only [MessageQueue.commit, recordAt]
  omega

/-- When the head rests on the flag, the oldest record starts the buffer. -/
theorem Wrapped.getMessage_nil {q : MessageQueue} {e : Entry} {new : List Entry}
    (hsize : q.buffer.size = q.size) (h : Wrapped q [] (e :: new)) (he : e.Fits) :
    q.buffer.Holds q.head [queueWrapFlag] ∧ q.buffer.Holds 0 e.encode ∧
      getMessage q = some (some (recordAt 0 e)) ∧ Flat (q.commit (recordAt 0 e)) new := by
  have hflag : q.buffer.Holds q.head [queueWrapFlag] := by simpa using h.records_old
  have hrecords := h.records_new
  rw [encodeAll_cons, Block.holds_append] at hrecords
  obtain ⟨hrecord, hrest⟩ := hrecords
  have htail := h.tail_eq
  have hlt := h.tail_lt
  have hle := hflag.le
  rw [encodeAll_cons, List.length_append] at htail
  rw [List.length_singleton] at hle
  refine ⟨hflag, hrecord, getMessage_of_holds (by omega) hflag (by rw [if_pos rfl]) hrecord he,
    hrest, ?_, Or.inl ?_⟩
  · simp only [MessageQueue.commit, recordAt]
    omega
  · simp only [MessageQueue.commit]
    omega

/-- **The oldest entry.** `get_message` finds it, and committing its `new_head` removes it and
nothing else. -/
theorem getMessage_of_cons {q : MessageQueue} {e : Entry} {es : List Entry}
    (h : Represents q (e :: es)) :
    ∃ got, getMessage q = some (some got) ∧ got.entry q.buffer = some e ∧
      Represents (q.commit got) es := by
  have he : e.Fits := h.fits e (List.mem_cons_self ..)
  have hfits : ∀ e' ∈ es, e'.Fits := fun e' he' => h.fits e' (List.mem_cons_of_mem e he')
  rcases h.layout with hflat | ⟨old, new, hsplit, hwrapped⟩
  · obtain ⟨hrecord, hget, hrest⟩ := hflat.getMessage_cons he
    exact ⟨_, hget, entry_recordAt hrecord, h.size, hfits, Or.inl hrest⟩
  · cases old with
    | nil =>
      rw [List.nil_append] at hsplit
      subst hsplit
      obtain ⟨-, hrecord, hget, hrest⟩ := hwrapped.getMessage_nil h.size he
      exact ⟨_, hget, entry_recordAt hrecord, h.size, hfits, Or.inl hrest⟩
    | cons e' old =>
      rw [List.cons_append, List.cons.injEq] at hsplit
      obtain ⟨rfl, rfl⟩ := hsplit
      obtain ⟨hrecord, hget, hrest⟩ := hwrapped.getMessage_cons he
      exact ⟨_, hget, entry_recordAt hrecord, h.size, hfits, Or.inr ⟨old, new, rfl, hrest⟩⟩

theorem getMessage_of_nil {q : MessageQueue} (h : Represents q []) : getMessage q = some none := by
  have hempty : q.head = q.tail := by simpa [isQueueEmpty] using h.isQueueEmpty_iff
  rw [getMessage, if_pos hempty]

/-! ### Every sequence of operations -/

/-- One use of the queue by its owner. -/
inductive QueueOp
  /-- A call of `push_message`, for an entry whose `message_size` does not wrap. -/
  | push (e : Entry) (fits : e.Fits)
  /-- A call of `get_message`, followed by `queue->head = new_head` or not. -/
  | get (commit : Bool)

/-- Perform an operation and show what its return code and the bytes it points to tell. -/
def QueueOp.apply (q : MessageQueue) : QueueOp → Option (Fifo.Event Entry × MessageQueue)
  | .push e _ => do
    let (r, q) ← pushMessage q e
    return (if r = 0 then .accepted e else .refused e, q)
  | .get commit => do
    match ← getMessage q with
    | none => return (.empty, q)
    | some got =>
      let e ← got.entry q.buffer
      return if commit then (.removed e, q.commit got) else (.peeked e, q)

/-- **The invariant rule.** Each operation simulates a step of the abstract queue, and what every
push and every removal preserves holds beside `Represents`. -/
theorem QueueOp.apply_simulates_with {I : MessageQueue → List Entry → Prop} {P : QueueOp → Prop}
    (hpush : ∀ {q q' : MessageQueue} {es : List Entry} {e : Entry} {r : ℤ} (he : e.Fits),
      Represents q es → I q es → P (.push e he) → PushOutcome q e r q' →
        I q' (if r = 0 then es ++ [e] else es))
    (hcommit : ∀ {q : MessageQueue} {e : Entry} {es : List Entry} {got : GotMessage},
      Represents q (e :: es) → I q (e :: es) → getMessage q = some (some got) →
        I (q.commit got) es)
    (q : MessageQueue) (es : List Entry) (op : QueueOp) (h : Represents q es ∧ I q es)
    (hop : P op) :
    ∃ event q' es', op.apply q = some (event, q') ∧ Fifo.Step es event es' ∧
      Represents q' es' ∧ I q' es' := by
  obtain ⟨hrep, hinv⟩ := h
  cases op with
  | push e he =>
    obtain ⟨r, q', hpushed, hout⟩ := pushMessage_outcome hrep he
    have hinv' := hpush he hrep hinv hop hout
    rcases hout.represents hrep he with ⟨rfl, h'⟩ | ⟨rfl, h'⟩
    · exact ⟨.accepted e, q', es ++ [e], by simp [apply, hpushed], .accepted es e, h', hinv'⟩
    · exact ⟨.refused e, q', es, by simp [apply, hpushed], .refused es e, h', hinv'⟩
  | get commit =>
    cases es with
    | nil => exact ⟨.empty, q, [], by simp [apply, getMessage_of_nil hrep], .empty, hrep, hinv⟩
    | cons e es =>
      obtain ⟨got, hget, hentry, h'⟩ := getMessage_of_cons hrep
      cases commit with
      | true =>
        exact ⟨.removed e, q.commit got, es, by simp [apply, hget, hentry], .removed e es, h',
          hcommit hrep hinv hget⟩
      | false =>
        exact ⟨.peeked e, q, e :: es, by simp [apply, hget, hentry], .peeked e es, hrep, hinv⟩

/-- Each operation simulates a step of the abstract queue. -/
theorem QueueOp.apply_simulates (q : MessageQueue) (es : List Entry) (op : QueueOp)
    (h : Represents q es) :
    ∃ event q' es', op.apply q = some (event, q') ∧ Fifo.Step es event es' ∧
      Represents q' es' := by
  obtain ⟨event, q', es', happly, hstep, h', -⟩ :=
    QueueOp.apply_simulates_with (I := fun _ _ => True) (P := fun _ => True)
      (fun _ _ _ _ _ => trivial) (fun _ _ _ => trivial) q es op ⟨h, trivial⟩ trivial
  exact ⟨event, q', es', happly, hstep, h'⟩

/-- **The message queue is a FIFO.** From a fresh queue of any size, every sequence of pushes and
gets runs without leaving the buffer and shows a trace of the abstract queue: what has been accepted
is what has been removed and then what is in the queue, in this order. The emptiness test agrees
with the contents. -/
theorem messageQueue_fifo (malloc : Malloc) (size : ℕ) {queue : MessageQueue}
    (hmake : makeMessageQueue malloc size = some queue) (ops : List QueueOp) :
    ∃ events queue' contents,
      Fifo.runEvents QueueOp.apply queue ops = some (events, queue') ∧
        Fifo.Trace [] events contents ∧
        events.flatMap Fifo.Event.added = events.flatMap Fifo.Event.taken ++ contents ∧
        (isQueueEmpty queue' = true ↔ contents = []) := by
  obtain ⟨events, queue', contents, hrun, htrace, h⟩ :=
    Fifo.exists_trace_of_simulation (R := Represents) (P := fun _ => True)
      (fun q es op h _ => QueueOp.apply_simulates q es op h) (represents_makeMessageQueue hmake)
      (fun op (_ : op ∈ ops) => trivial)
  exact ⟨events, queue', contents, hrun, htrace, htrace.conservation, h.isQueueEmpty_iff⟩

/-- A message of three bytes for the local address. It takes 20 bytes of the queue. -/
def smallRecord (b : UInt8) : Entry := ⟨[127, 0, 0, 1], [b, b, b]⟩

theorem fits_smallRecord (b : UInt8) : (smallRecord b).Fits :=
  ⟨show 4 < 2 ^ 32 by decide, show 20 < sizeModulus by decide⟩

/-- The push of one. -/
def pushSmall (b : UInt8) : QueueOp := .push (smallRecord b) (fits_smallRecord b)

/-- Three pushes and a failed one, which leaves its flag; two gets; a push that wraps and a failed
one; a get that looks, and two gets, the second of them behind the flag; and a last push. -/
def wrappingOps : List QueueOp :=
  [pushSmall 1, pushSmall 2, pushSmall 3, pushSmall 4, .get true, .get true, pushSmall 5,
    pushSmall 6, .get false, .get true, .get true, pushSmall 7]

/-- What they show. -/
def wrappingEvents : List (Fifo.Event Entry) :=
  [.accepted (smallRecord 1), .accepted (smallRecord 2), .accepted (smallRecord 3),
    .refused (smallRecord 4), .removed (smallRecord 1), .removed (smallRecord 2),
    .accepted (smallRecord 5), .refused (smallRecord 6), .peeked (smallRecord 3),
    .removed (smallRecord 3), .removed (smallRecord 5), .accepted (smallRecord 7)]

/-- On 64 bytes. -/
theorem messageQueue_fifo_wrapping : ∃ queue contents,
    Fifo.runEvents QueueOp.apply ⟨64, ⟨List.replicate 64 0, []⟩, 0, 0⟩ wrappingOps
        = some (wrappingEvents, queue) ∧
      Fifo.Trace [] wrappingEvents contents ∧
      wrappingEvents.flatMap Fifo.Event.added
        = wrappingEvents.flatMap Fifo.Event.taken ++ contents ∧
      (isQueueEmpty queue = true ↔ contents = []) := by
  obtain ⟨events, queue, contents, hrun, htrace, hconserved, hempty⟩ :=
    messageQueue_fifo .zeroed 64 rfl wrappingOps
  have hevents : (Fifo.runEvents QueueOp.apply ⟨64, ⟨List.replicate 64 0, []⟩, 0, 0⟩
      wrappingOps).map Prod.fst = some wrappingEvents := by decide +kernel
  rw [hrun, Option.map_some, Option.some.injEq] at hevents
  subst hevents
  exact ⟨queue, contents, hrun, htrace, hconserved, hempty⟩

end DnsTools
