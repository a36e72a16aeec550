import Mathlib.Data.List.Basic
import Mathlib.Tactic.SplitIfs

/-!
# A buffered writer

`bufio.Writer` of the Go library: bytes are collected in a buffer of a fixed size and passed on when
it is full or flushed. Where they go to is a `Sink`, which may take only some of the bytes that it
is given; that is an error, and the writer keeps it: it never passes anything on again.

What is passed on and what is in the buffer make up the stream of a writer (`BufferedWriter.stream`)
and every call appends to it (`BufferedWriter.Took`).

## Main results

* `BufferedWriter.write_took` — a successful `Write` appends its bytes to the stream; after one that
  fails the content of the sink ends somewhere within them
* `BufferedWriter.flush_took` — after a successful `Flush` the sink has all of the stream
-/

/-- Where bytes go to. -/
structure Sink (σ : Type*) where
  /-- `Write`, with the number of bytes that it takes. -/
  write : σ → List UInt8 → σ × ℕ
  /-- What it has taken. -/
  content : σ → List UInt8
  /-- The bytes that it takes are the first ones. -/
  content_write : ∀ s p, content (write s p).1 = content s ++ p.take (write s p).2

/-- `bufio.Writer`. -/
structure BufferedWriter (σ : Type*) where
  /-- `wr`. -/
  wr : σ
  /-- `buf[:n]`. -/
  buffer : List UInt8
  /-- `err` is not `nil`. -/
  failed : Bool
deriving DecidableEq, Repr

namespace BufferedWriter

variable {σ : Type*} (sink : Sink σ) (size : ℕ)

/-- `defaultBufSize`. -/
def defaultSize : ℕ := 4096

/-- `bufio.NewWriter`. -/
def new (wr : σ) : BufferedWriter σ := ⟨wr, [], false⟩

/-- Pass on some bytes, and keep those of them that are not taken. -/
def pass (b : BufferedWriter σ) (p : List UInt8) : BufferedWriter σ × Bool :=
  let (wr, n) := sink.write b.wr p
  if n < p.length then (⟨wr, p.drop n, true⟩, false) else (⟨wr, [], false⟩, true)

/-- `Flush`, and whether it succeeds. -/
def flush (b : BufferedWriter σ) : BufferedWriter σ × Bool :=
  if b.failed then (b, false)
  else if b.buffer = [] then (b, true)
  else pass sink b b.buffer

/-- `Write` while the buffer is empty: bytes for which there is no room in it are not copied. -/
def writeEmpty (b : BufferedWriter σ) (p : List UInt8) : BufferedWriter σ × Bool :=
  if p.length ≤ size then ({ b with buffer := p }, true)
  else
    let (wr, n) := sink.write b.wr p
    ({ b with wr, failed := n < p.length }, !decide (n < p.length))

/-- `Write`, and whether it succeeds: it fills the buffer and flushes it, and what is left finds the
buffer empty. -/
def write (b : BufferedWriter σ) (p : List UInt8) : BufferedWriter σ × Bool :=
  if b.failed then (b, false)
  else if b.buffer.length + p.length ≤ size then ({ b with buffer := b.buffer ++ p }, true)
  else if b.buffer = [] then writeEmpty sink size b p
  else
    let room := size - b.buffer.length
    match flush sink { b with buffer := b.buffer ++ p.take room } with
    | (b, false) => (b, false)
    | (b, true) => writeEmpty sink size b (p.drop room)

/-! ### The stream -/

variable {sink size} {b b' : BufferedWriter σ} {p : List UInt8} {ok : Bool}

/-- The bytes written, as long as nothing has failed. -/
def stream (sink : Sink σ) (b : BufferedWriter σ) : List UInt8 := sink.content b.wr ++ b.buffer

/-- A call has put bytes into a writer in which nothing had failed: all of them, or the sink has
taken a first part of the stream that they would make, and the writer remembers that. -/
structure Took (sink : Sink σ) (b : BufferedWriter σ) (p : List UInt8) (b' : BufferedWriter σ)
    (ok : Bool) : Prop where
  /-- Whether it fails. -/
  failed_eq : b'.failed = !ok
  /-- All of the bytes are taken. -/
  stream_eq : ok = true → b'.stream sink = b.stream sink ++ p
  /-- Or some are. -/
  content_le : sink.content b'.wr <+: b.stream sink ++ p
  /-- What was passed on stays. -/
  le_content : sink.content b.wr <+: sink.content b'.wr

theorem content_write_eq {s s' : σ} {n : ℕ} (h : sink.write s p = (s', n)) :
    sink.content s' = sink.content s ++ p.take n := by
  have hcontent := sink.content_write s p
  rwa [h] at hcontent

theorem Took.append {b'' : BufferedWriter σ} {p' : List UInt8} (h : Took sink b p b' true)
    (h' : Took sink b' p' b'' ok) : Took sink b (p ++ p') b'' ok where
  failed_eq := h'.failed_eq
  stream_eq hok := by rw [h'.stream_eq hok, h.stream_eq rfl, List.append_assoc]
  content_le := by
    have hle := h'.content_le
    rwa [h.stream_eq rfl, List.append_assoc] at hle
  le_content := h.le_content.trans h'.le_content

/-- A call that fails in front of the last bytes. -/
theorem Took.append_failed {p' : List UInt8} (h : Took sink b p b' false) :
    Took sink b (p ++ p') b' false where
  failed_eq := h.failed_eq
  stream_eq := nofun
  content_le := by
    rw [← List.append_assoc]
    exact h.content_le.trans (List.prefix_append _ _)
  le_content := h.le_content

/-- Bytes that only go into the buffer. -/
theorem took_buffer (h : b.failed = false) :
    Took sink b p { b with buffer := b.buffer ++ p } true where
  failed_eq := h
  stream_eq _ := (List.append_assoc _ _ _).symm
  content_le := by
    rw [stream, List.append_assoc]
    exact List.prefix_append _ _
  le_content := List.prefix_refl _

theorem flush_took (hfailed : b.failed = false) (h : flush sink b = (b', ok)) :
    Took sink b [] b' ok ∧ (ok = true → b'.buffer = [] ∧ sink.content b'.wr = b.stream sink) := by
  rw [flush, if_neg (Bool.eq_false_iff.mp hfailed)] at h
  split_ifs at h with hempty
  · cases h
    have hstream : b.stream sink = sink.content b.wr := by rw [stream, hempty, List.append_nil]
    refine ⟨⟨hfailed, fun _ => (List.append_nil _).symm, ?_, List.prefix_refl _⟩,
      fun _ => ⟨hempty, hstream.symm⟩⟩
    rw [hstream]
    exact List.prefix_append _ _
  · rw [pass] at h
    obtain ⟨wr, n, hwrite⟩ : ∃ wr n, sink.write b.wr b.buffer = (wr, n) := ⟨_, _, rfl⟩
    have hcontent := content_write_eq hwrite
    rw [hwrite] at h
    simp only at h
    split_ifs at h with hless
    · cases h
      refine ⟨⟨rfl, nofun, ?_, ?_⟩, nofun⟩
      · rw [hcontent, List.append_nil, stream]
        exact (List.prefix_append_right_inj _).mpr (List.take_prefix _ _)
      · rw [hcontent]
        exact List.prefix_append _ _
    · cases h
      rw [List.take_of_length_le (Nat.not_lt.mp hless)] at hcontent
      have hstream : (⟨wr, [], false⟩ : BufferedWriter σ).stream sink = b.stream sink := by
        rw [stream, stream, hcontent, List.append_nil]
      refine ⟨⟨rfl, fun _ => hstream.trans (List.append_nil _).symm, ?_, ?_⟩,
        fun _ => ⟨rfl, hcontent⟩⟩
      · rw [hcontent]
        exact List.prefix_append _ _
      · rw [hcontent]
        exact List.prefix_append _ _

theorem writeEmpty_took (hfailed : b.failed = false) (hempty : b.buffer = [])
    (h : writeEmpty sink size b p = (b', ok)) : Took sink b p b' ok := by
  rw [writeEmpty] at h
  split_ifs at h with hroom
  · cases h
    have htook : Took sink b p { b with buffer := b.buffer ++ p } true := took_buffer hfailed
    rwa [hempty] at htook
  · obtain ⟨wr, n, hwrite⟩ : ∃ wr n, sink.write b.wr p = (wr, n) := ⟨_, _, rfl⟩
    have hcontent := content_write_eq hwrite
    have hstream : b.stream sink = sink.content b.wr := by rw [stream, hempty, List.append_nil]
    rw [hwrite] at h
    cases h
    constructor
    case failed_eq => exact (Bool.not_not _).symm
    case stream_eq =>
      intro hok
      have hall : p.length ≤ n := by simpa using hok
      rw [hstream, stream, hcontent, List.take_of_length_le hall, hempty, List.append_nil]
    case content_le =>
      rw [hcontent, hstream]
      exact (List.prefix_append_right_inj _).mpr (List.take_prefix _ _)
    case le_content =>
      rw [hcontent]
      exact List.prefix_append _ _

theorem write_took (hfailed : b.failed = false) (h : write sink size b p = (b', ok)) :
    Took sink b p b' ok := by
  rw [write, if_neg (Bool.eq_false_iff.mp hfailed)] at h
  split_ifs at h with hroom hempty
  · cases h
    exact took_buffer hfailed
  · exact writeEmpty_took hfailed hempty h
  · obtain ⟨b₁, ok₁, hflush⟩ : ∃ b₁ ok₁, flush sink
      { b with buffer := b.buffer ++ p.take (size - b.buffer.length) } = (b₁, ok₁) := ⟨_, _, rfl⟩
    obtain ⟨hfilled, hdone⟩ := flush_took (b := { b with
      buffer := b.buffer ++ p.take (size - b.buffer.length) }) hfailed hflush
    have hbuffered : Took sink b (p.take (size - b.buffer.length))
      { b with buffer := b.buffer ++ p.take (size - b.buffer.length) } true := took_buffer hfailed
    have htook := hbuffered.append hfilled
    rw [List.append_nil] at htook
    simp only [hflush] at h
    cases ok₁ with
    | false =>
      cases h
      have hfail : Took sink b (p.take (size - b.buffer.length) ++
        p.drop (size - b.buffer.length)) _ false := htook.append_failed
      rwa [List.take_append_drop] at hfail
    | true =>
      have hrest := writeEmpty_took (by simpa using htook.failed_eq) (hdone rfl).1 h
      have hall := htook.append hrest
      rwa [List.take_append_drop] at hall

/-- A writer that has failed does nothing. -/
theorem write_of_failed (h : b.failed = true) : write sink size b p = (b, false) := by
  rw [write, h, if_pos rfl]

theorem flush_of_failed (h : b.failed = true) : flush sink b = (b, false) := by
  rw [flush, h, if_pos rfl]

end BufferedWriter
