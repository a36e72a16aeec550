import DnsTools.MessageQueueFifo

/-!
# When the queue has room

An empty queue is not rewound to the start of its buffer, and the bytes behind the wrap flag are
not used until the head has passed it. How much of the buffer a refusal can waste therefore
depends on the past: on the record that did not fit and made the tail wrap. `Roomy` bounds the
waste by the largest record ever offered, and from that bound follows when a push succeeds.
-/

namespace DnsTools

open Memory Endian

/-- While the tail is behind the head, the gap between them, the records and one more record of
size `bound` make up the whole buffer. -/
def Roomy (bound : ℕ) (q : MessageQueue) (es : List Entry) : Prop :=
  q.tail < q.head → q.size + q.tail ≤ q.head + (encodeAll es).length + bound

/-- A push of at most `bound` bytes keeps the bound: the record that makes the tail wrap did not
fit behind the tail, so fewer bytes than it needs are left there. -/
theorem PushOutcome.roomy {bound : ℕ} {q q' : MessageQueue} {es : List Entry} {e : Entry} {r : ℤ}
    (h : Represents q es) (hroomy : Roomy bound q es) (hbound : e.encode.length ≤ bound)
    (hout : PushOutcome q e r q') : Roomy bound q' (if r = 0 then es ++ [e] else es) := by
  have hlen : (encodeAll (es ++ [e])).length = (encodeAll es).length + e.encode.length := by
    simp
  cases hout with
  | gapFull => exact hroomy
  | backFull => exact hroomy
  | flagged => exact hroomy
  | gap hlt hroom _ =>
    have hbefore := hroomy hlt
    intro _
    simp only [if_true, hlen]
    omega
  | back hle hroom _ =>
    intro hlt
    simp only at hlt
    omega
  | wrapped hle hfull hfront _ _ =>
    rcases h.layout with hflat | ⟨old, new, -, hwrapped⟩
    · have htail := hflat.tail_eq
      intro _
      simp only [if_true, hlen]
      omega
    · have := hwrapped.tail_lt
      omega

/-- Removing the oldest record keeps the bound. -/
theorem Roomy.commit {bound : ℕ} {q : MessageQueue} {e : Entry} {es : List Entry}
    {got : GotMessage} (h : Represents q (e :: es)) (hroomy : Roomy bound q (e :: es))
    (hget : getMessage q = some (some got)) : Roomy bound (q.commit got) es := by
  have he := h.fits e (List.mem_cons_self ..)
  rcases h.layout with hflat | ⟨old, new, hsplit, hwrapped⟩
  · obtain ⟨-, hget', hrest⟩ := hflat.getMessage_cons he
    obtain rfl : got = recordAt q.head e := by simpa [hget] using hget'
    have htail := hrest.tail_eq
    intro hlt
    omega
  · cases old with
    | nil =>
      rw [List.nil_append] at hsplit
      subst hsplit
      obtain ⟨-, -, hget', hrest⟩ := hwrapped.getMessage_nil h.size he
      obtain rfl : got = recordAt 0 e := by simpa [hget] using hget'
      have htail := hrest.tail_eq
      intro hlt
      omega
    | cons e' old =>
      rw [List.cons_append, List.cons.injEq] at hsplit
      obtain ⟨rfl, rfl⟩ := hsplit
      obtain ⟨-, hget', -⟩ := hwrapped.getMessage_cons he
      obtain rfl : got = recordAt q.head e := by simpa [hget] using hget'
      have hbefore := hroomy hwrapped.tail_lt
      intro _
      simp only [encodeAll_cons, List.length_append] at hbefore
      simp only [MessageQueue.commit, recordAt, List.length_append, encodeAll_append] at hbefore ⊢
      omega

/-- **Room.** With the records, the record offered and the bound fitting in the buffer together,
the push succeeds. -/
theorem PushOutcome.accepted {bound : ℕ} {q q' : MessageQueue} {es : List Entry} {e : Entry}
    {r : ℤ} (h : Represents q es) (hroomy : Roomy bound q es) (hbound : e.encode.length ≤ bound)
    (hroom : (encodeAll es).length + e.encode.length + bound < q.size)
    (hout : PushOutcome q e r q') : r = 0 := by
  cases hout with
  | gap => rfl
  | back => rfl
  | wrapped => rfl
  | gapFull hlt hfull =>
    have := hroomy hlt
    omega
  | backFull hle hfull hhead =>
    rcases h.layout with hflat | ⟨old, new, -, hwrapped⟩
    · have := hflat.tail_eq
      omega
    · have := hwrapped.tail_lt
      omega
  | flagged hle hfull hhead hfront _ =>
    rcases h.layout with hflat | ⟨old, new, -, hwrapped⟩
    · have := hflat.tail_eq
      omega
    · have := hwrapped.tail_lt
      omega

/-! ### Every history -/

/-- The operation offers a record of at most `bound` bytes, or none. -/
def QueueOp.Offers (bound : ℕ) : QueueOp → Prop
  | .push e _ => e.encode.length ≤ bound
  | .get _ => True

/-- **Refusals happen in a nearly full queue only.** After any history that offered records of at
most `bound` bytes, a push of such a record succeeds if the records held, the new record and
`bound` together are smaller than the buffer. In particular an empty queue of more than twice
`bound` accepts every record, wherever its head and tail are. -/
theorem pushMessage_accepts (malloc : Malloc) (size bound : ℕ) {queue : MessageQueue}
    (hmake : makeMessageQueue malloc size = some queue) (ops : List QueueOp)
    (hops : ∀ op ∈ ops, op.Offers bound) :
    ∃ events q contents, Fifo.runEvents QueueOp.apply queue ops = some (events, q) ∧
      Fifo.Trace [] events contents ∧
      ∀ e : Entry, e.Fits → e.encode.length ≤ bound →
        ((encodeAll contents).length + e.encode.length + bound < size →
          ∃ q', pushMessage q e = some (0, q')) ∧
        (isQueueEmpty q = true → 2 * bound < size → ∃ q', pushMessage q e = some (0, q')) := by
  have hsize₀ : queue.size = size ∧ queue.head = 0 := by
    obtain ⟨buffer, -, rfl⟩ := Option.map_eq_some_iff.mp hmake
    exact ⟨rfl, rfl⟩
  obtain ⟨events, q, contents, hrun, htrace, h, hroomy, rfl⟩ :=
    Fifo.exists_trace_of_simulation (P := QueueOp.Offers bound)
      (R := fun q es => Represents q es ∧ Roomy bound q es ∧ q.size = size)
      (QueueOp.apply_simulates_with
        (fun _ hrep hq hoffers hout => ⟨hout.roomy hrep hq.1 hoffers, hout.size.trans hq.2⟩)
        fun hrep hq hget => ⟨hq.1.commit hrep hget, hq.2⟩)
      ⟨represents_makeMessageQueue hmake, fun hlt => by omega, hsize₀.1⟩ hops
  refine ⟨events, q, contents, hrun, htrace, fun e he hbound => ?_⟩
  obtain ⟨r, q', hpush, hout⟩ := pushMessage_outcome h he
  have haccepted : (encodeAll contents).length + e.encode.length + bound < q.size →
      ∃ q', pushMessage q e = some (0, q') := by
    intro hroom
    obtain rfl := hout.accepted h hroomy hbound hroom
    exact ⟨q', hpush⟩
  refine ⟨haccepted, fun hempty hdouble => haccepted ?_⟩
  rw [h.isQueueEmpty_iff.mp hempty, encodeAll_nil, List.length_nil]
  omega

/-- Records of at most 14 bytes in a buffer of 29. -/
theorem pushMessage_accepts_fourteen :
    ∃ events q contents, Fifo.runEvents QueueOp.apply ⟨29, ⟨List.replicate 29 0, []⟩, 0, 0⟩
        [.push ⟨[], [1]⟩ (by decide), .get true] = some (events, q) ∧
      Fifo.Trace [] events contents ∧
      ∀ e : Entry, e.Fits → e.encode.length ≤ 14 →
        ((encodeAll contents).length + e.encode.length + 14 < 29 →
          ∃ q', pushMessage q e = some (0, q')) ∧
        (isQueueEmpty q = true → 2 * 14 < 29 → ∃ q', pushMessage q e = some (0, q')) := by
  refine pushMessage_accepts .zeroed 29 14 rfl _ fun op hop => ?_
  rcases List.mem_pair.mp hop with rfl | rfl
  · exact (by decide : (⟨[], [1]⟩ : Entry).encode.length ≤ 14)
  · trivial

end DnsTools
