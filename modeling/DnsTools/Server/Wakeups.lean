import DnsTools.Server.Traffic

/-!
# What the server waits for

`pselect` clears bits of the sets it is given, so `serve` has to set them again: the bits for
reading wherever they were found cleared, and the bit for writing while there is something to send.
The pointer to the set for writing is `NULL` while there is nothing.

At every call of `pselect` the server waits for the socket and for stdin, and for the socket to
become writable if the queue is not empty. A socket that has once been reported writable, with the
queue drained, is not waited for again before there is something to send.

## Two invariants

Reading and writing are separate. For reading the sets are what `serve` found in them last, and each
bit is set again where it is found cleared, in the same turn of the loop; `Listens` says which of
the bits are set at which point. For writing there is also the pointer. A bit that is set while the
pointer is `NULL` has no effect, so `Settled` is about both: while `serve` waits with an empty queue
the pointer is `NULL`, and on the way to the set for writing either the bit is set or there is
something to send.

When a signal interrupts `pselect`, or it times out, no socket is looked at, and every bit that the
next call needs is set behind it.

## Any network

What is waited for depends on the queue, so the data are carried along, as far as they are needed:
in order, or `serve` has returned. Nothing is assumed of `sendto` here. A message sent in part ends
the run, and more than the message cannot be sent.

## Main results

* `serveStep_outcome` — what a step can do
* `serveStep_listens`, `serveStep_settled` — what a step keeps
* `serve_waits_right` — every call of `pselect` in every run
-/

namespace DnsTools

open Memory

variable {s s' : Server} {contents : List Entry}

/-! ### One step -/

/-- What a step can do, call by call. -/
inductive ServeOutcome (s : Server) : SystemResult → Server → Prop
  /-- The timestamps cannot be dumped. -/
  | dumpFailed {dump : Option Bool} {r : SelectResult} (hpoint : s.point = .selecting)
      (hdump : s.dumpTimestamps dump = none) : ServeOutcome s (.select dump r) s.stop
  /-- `pselect` returns. -/
  | selected {dump : Option Bool} {r : SelectResult} {t : Server} (hpoint : s.point = .selecting)
      (hdump : s.dumpTimestamps dump = some t) :
      ServeOutcome s (.select dump r) (t.prepareSelect.afterSelect r)
  /-- `recv_all` goes on. -/
  | receiving {r : RecvResult} {t : Server} (hpoint : s.point = .receiving)
      (hrecv : recvAll s r = some (t, .again)) : ServeOutcome s (.recvfrom r) t
  /-- `recv_all` is done. -/
  | received {r : RecvResult} {t : Server} (hpoint : s.point = .receiving)
      (hrecv : recvAll s r = some (t, .done)) : ServeOutcome s (.recvfrom r) t.startReading
  /-- `recv_all` fails. -/
  | receiveFailed {r : RecvResult} {t : Server} (hpoint : s.point = .receiving)
      (hrecv : recvAll s r = some (t, .failed)) : ServeOutcome s (.recvfrom r) t.stop
  /-- The stop character has been read, or there is nothing more to read. -/
  | stopped {chunks : List (List UInt8)} {again : Bool} (hpoint : s.point = .reading)
      (hcode : checkIntCode chunks again ≠ 0) : ServeOutcome s (.fread chunks again) s.stop
  /-- It has not. -/
  | read {chunks : List (List UInt8)} {again : Bool} (hpoint : s.point = .reading)
      (hcode : checkIntCode chunks again = 0) : ServeOutcome s (.fread chunks again) s.startSending
  /-- `send_all` goes on. -/
  | sending {r : SendResult} {t : Server} (hpoint : s.point = .sending)
      (hsend : sendAll s r = some (t, .again)) : ServeOutcome s (.sendto r) t.continueSending
  /-- `send_all` is done. -/
  | sent {r : SendResult} {t : Server} (hpoint : s.point = .sending)
      (hsend : sendAll s r = some (t, .done)) : ServeOutcome s (.sendto r) t.afterSending
  /-- `send_all` fails. -/
  | sendFailed {r : SendResult} {t : Server} (hpoint : s.point = .sending)
      (hsend : sendAll s r = some (t, .failed)) : ServeOutcome s (.sendto r) t.stop

theorem serveStep_outcome {i : SystemResult} (h : serveStep s i = some s') :
    ServeOutcome s i s' := by
  unfold serveStep at h
  split at h
  · rename_i dump r hpoint
    cases hdump : s.dumpTimestamps dump with
    | none =>
      rw [hdump] at h
      obtain rfl := Option.some.inj h
      exact .dumpFailed hpoint hdump
    | some t =>
      rw [hdump] at h
      obtain rfl := Option.some.inj h
      exact .selected hpoint hdump
  · rename_i r hpoint
    obtain ⟨⟨t, turn⟩, hrecv, hrest⟩ := Option.bind_eq_some_iff.mp h
    cases turn with
    | again =>
      obtain rfl := Option.some.inj hrest
      exact .receiving hpoint hrecv
    | done =>
      obtain rfl := Option.some.inj hrest
      exact .received hpoint hrecv
    | failed =>
      obtain rfl := Option.some.inj hrest
      exact .receiveFailed hpoint hrecv
  · rename_i chunks again hpoint
    by_cases hcode : checkIntCode chunks again ≠ 0
    · rw [if_pos hcode] at h
      obtain rfl := Option.some.inj h
      exact .stopped hpoint hcode
    · rw [if_neg hcode] at h
      obtain rfl := Option.some.inj h
      exact .read hpoint (not_not.mp hcode)
  · rename_i r hpoint
    obtain ⟨⟨t, turn⟩, hsend, hrest⟩ := Option.bind_eq_some_iff.mp h
    cases turn with
    | again =>
      obtain rfl := Option.some.inj hrest
      exact .sending hpoint hsend
    | done =>
      obtain rfl := Option.some.inj hrest
      exact .sent hpoint hsend
    | failed =>
      obtain rfl := Option.some.inj hrest
      exact .sendFailed hpoint hsend
  · simp at h

/-! ### The queue in any network -/

/-- More than the whole message cannot be sent. -/
theorem sendAll_of_le {e : Entry} (h : s.InOrder (e :: contents)) {n : ℕ}
    (hn : e.message.length ≤ n) (clock : Option Timespec) :
    sendAll s (.returned n clock) = sendAll s (.returned e.message.length clock) := by
  obtain ⟨got, hget, hentry, -⟩ := getMessage_of_cons h.queue
  have hsize := GotMessage.size_of_entry hentry
  have hlt : ¬n < got.size := by omega
  have hlt' : ¬e.message.length < got.size := by omega
  simp only [sendAll, hget, hentry, Option.bind_eq_bind, Option.bind_some, hlt, hlt', if_false,
    List.take_of_length_le hn, List.take_length]

/-- A message sent in part ends the run. -/
theorem serveStep_of_lt {e : Entry} (h : s.InOrder (e :: contents)) (hpoint : s.point = .sending)
    {n : ℕ} (hn : n < e.message.length) {clock : Option Timespec}
    (hstep : serveStep s (.sendto (.returned n clock)) = some s') : s'.point = .returned := by
  obtain ⟨got, hget, hentry, -⟩ := getMessage_of_cons h.queue
  have hlt : n < got.size := (GotMessage.size_of_entry hentry).symm ▸ hn
  simp only [serveStep, hpoint, sendAll, hget, hentry, Option.bind_eq_bind, Option.bind_some, hlt,
    if_true, Option.pure_def, Option.some.injEq] at hstep
  rw [← hstep]
  rfl

/-- Whatever the network does, the data stay in order until `serve` returns. -/
theorem serveStep_inOrder_or_returned (h : s.InOrder contents) {i : SystemResult}
    (hstep : serveStep s i = some s') :
    (∃ contents', s'.InOrder contents') ∨ s'.point = .returned := by
  have hkeep : ∀ {i : SystemResult}, s.WholeDatagrams i → serveStep s i = some s' →
      (∃ contents', s'.InOrder contents') ∨ s'.point = .returned := by
    intro i hwhole hstep
    obtain ⟨contents', h', -⟩ := serveStep_inOrder h hwhole hstep
    exact Or.inl ⟨contents', h'⟩
  cases i with
  | select dump r => exact hkeep (by simp [Server.WholeDatagrams]) hstep
  | recvfrom r => exact hkeep (by simp [Server.WholeDatagrams]) hstep
  | fread chunks again => exact hkeep (by simp [Server.WholeDatagrams]) hstep
  | sendto r =>
    cases r with
    | again => exact hkeep (by simp [Server.WholeDatagrams]) hstep
    | failed => exact hkeep (by simp [Server.WholeDatagrams]) hstep
    | returned n clock =>
      have hpoint : s.point = .sending := by
        cases serveStep_outcome hstep with
        | sending hpoint _ => exact hpoint
        | sent hpoint _ => exact hpoint
        | sendFailed hpoint _ => exact hpoint
      cases contents with
      | nil => exact hkeep (by simp [Server.WholeDatagrams, getMessage_of_nil h.queue]) hstep
      | cons e contents =>
        rcases Nat.lt_or_ge n e.message.length with hlt | hle
        · exact Or.inr (serveStep_of_lt h hpoint hlt hstep)
        · have hsame : serveStep s (.sendto (.returned n clock))
              = serveStep s (.sendto (.returned e.message.length clock)) := by
            simp only [serveStep, hpoint, sendAll_of_le h hle]
          obtain ⟨got, hget, hentry, -⟩ := getMessage_of_cons h.queue
          refine hkeep (fun n clock hr got' hget' => ?_) (hsame.symm.trans hstep)
          obtain ⟨rfl, -⟩ := SendResult.returned.inj (SystemResult.sendto.inj hr)
          obtain rfl := Option.some.inj (Option.some.inj (hget.symm.trans hget'))
          exact (GotMessage.size_of_entry hentry).symm

/-! ### Control -/

/-- The two states differ in the data only. -/
structure Server.SameControl (s s' : Server) : Prop where
  /-- The next system call is the same. -/
  point : s'.point = s.point
  /-- The socket is in `readfds` as before. -/
  readSocket : s'.readSocket = s.readSocket
  /-- Stdin is in `readfds` as before. -/
  readStdin : s'.readStdin = s.readStdin
  /-- The socket is in `writefds` as before. -/
  writeSocket : s'.writeSocket = s.writeSocket
  /-- The pointer is the same. -/
  pwritefds : s'.pwritefds = s.pwritefds

theorem recvAll_sameControl {r : RecvResult} {turn : Turn} (h : recvAll s r = some (s', turn)) :
    s.SameControl s' := by
  cases r with
  | again =>
    obtain ⟨rfl, -⟩ := Prod.mk.inj (Option.some.inj h)
    exact ⟨rfl, rfl, rfl, rfl, rfl⟩
  | failed =>
    obtain ⟨rfl, -⟩ := Prod.mk.inj (Option.some.inj h)
    exact ⟨rfl, rfl, rfl, rfl, rfl⟩
  | datagram d clock =>
    obtain ⟨recvBuffer, -, h⟩ := Option.bind_eq_some_iff.mp h
    obtain ⟨answer, -, h⟩ := Option.bind_eq_some_iff.mp h
    cases answer with
    | none =>
      obtain ⟨rfl, -⟩ := Prod.mk.inj (Option.some.inj h)
      exact ⟨rfl, rfl, rfl, rfl, rfl⟩
    | some p =>
      obtain ⟨message, -, h⟩ := Option.bind_eq_some_iff.mp h
      obtain ⟨⟨r, queue⟩, -, h⟩ := Option.bind_eq_some_iff.mp h
      dsimp only at h
      split at h
      · obtain ⟨rfl, -⟩ := Prod.mk.inj (Option.some.inj h)
        exact ⟨rfl, rfl, rfl, rfl, rfl⟩
      · split at h
        · obtain ⟨rfl, -⟩ := Prod.mk.inj (Option.some.inj h)
          exact ⟨rfl, rfl, rfl, rfl, rfl⟩
        · obtain ⟨rfl, -⟩ := Prod.mk.inj (Option.some.inj h)
          exact ⟨rfl, rfl, rfl, rfl, rfl⟩

theorem sendAll_sameControl {r : SendResult} {turn : Turn} (h : sendAll s r = some (s', turn)) :
    s.SameControl s' := by
  have hrefl : s.SameControl s := ⟨rfl, rfl, rfl, rfl, rfl⟩
  obtain ⟨got, -, h⟩ := Option.bind_eq_some_iff.mp h
  cases got with
  | none =>
    obtain ⟨rfl, -⟩ := Prod.mk.inj (Option.some.inj h)
    exact hrefl
  | some got =>
    obtain ⟨e, -, h⟩ := Option.bind_eq_some_iff.mp h
    cases r with
    | again =>
      obtain ⟨rfl, -⟩ := Prod.mk.inj (Option.some.inj h)
      exact hrefl
    | failed =>
      obtain ⟨rfl, -⟩ := Prod.mk.inj (Option.some.inj h)
      exact hrefl
    | returned n clock =>
      dsimp only at h
      split at h
      · obtain ⟨rfl, -⟩ := Prod.mk.inj (Option.some.inj h)
        exact ⟨rfl, rfl, rfl, rfl, rfl⟩
      · split at h
        · obtain ⟨rfl, -⟩ := Prod.mk.inj (Option.some.inj h)
          exact ⟨rfl, rfl, rfl, rfl, rfl⟩
        · obtain ⟨rfl, -⟩ := Prod.mk.inj (Option.some.inj h)
          exact ⟨rfl, rfl, rfl, rfl, rfl⟩

/-- Unless it fails, `recv_all` queues an answer or changes nothing. -/
theorem recvAll_queue (h : s.InOrder contents) {r : RecvResult} {turn : Turn}
    (hrecv : recvAll s r = some (s', turn)) (hturn : turn ≠ .failed) :
    s' = s ∨ isQueueEmpty s'.queue = false := by
  cases r with
  | again => exact Or.inl (Prod.mk.inj (Option.some.inj hrecv)).1.symm
  | failed => exact absurd (Prod.mk.inj (Option.some.inj hrecv)).2.symm hturn
  | datagram d clock =>
    have hout := recvAll_outcome h d clock
    rw [hrecv] at hout
    cases hout with
    | queued hanswer _ hs' _ =>
      right
      rw [← Bool.not_eq_true, hs'.queue.isQueueEmpty_iff]
      simp
    | refused _ _ _ => exact absurd rfl hturn
    | unanswered _ _ => exact absurd rfl hturn

/-! ### Reading -/

/-- What is to be read stays in the set, or has just been found there. -/
structure Server.Listens (s : Server) : Prop where
  /-- The socket. -/
  socket : s.point ≠ .returned → s.readSocket = true
  /-- Stdin, which is looked at after the socket. -/
  stdin : s.point ≠ .returned → s.point ≠ .receiving → s.readStdin = true

theorem Server.stop_listens (s : Server) : s.stop.Listens :=
  ⟨fun h => absurd rfl h, fun h => absurd rfl h⟩

section Listens

variable (hsocket : s.readSocket = true)

include hsocket

theorem Server.afterSending_listens (hstdin : s.readStdin = true) : s.afterSending.Listens := by
  rw [afterSending]
  split <;> exact ⟨fun _ => hsocket, fun _ _ => hstdin⟩

theorem Server.continueSending_listens (hstdin : s.readStdin = true) :
    s.continueSending.Listens := by
  rw [continueSending]
  split
  · exact afterSending_listens hsocket hstdin
  · exact ⟨fun _ => hsocket, fun _ _ => hstdin⟩

theorem Server.startSending_listens (hstdin : s.readStdin = true) : s.startSending.Listens := by
  rw [startSending]
  split
  · split
    · exact continueSending_listens hsocket hstdin
    · exact ⟨fun _ => hsocket, fun _ _ => hstdin⟩
  · exact ⟨fun _ => hsocket, fun _ _ => hstdin⟩

theorem Server.startReading_listens : s.startReading.Listens := by
  rw [startReading]
  split
  · rename_i hstdin
    exact ⟨fun _ => hsocket, fun _ _ => hstdin⟩
  · exact startSending_listens hsocket rfl

end Listens

theorem Server.startReceiving_listens (s : Server) : s.startReceiving.Listens := by
  rw [startReceiving]
  split
  · rename_i hsocket
    exact ⟨fun _ => hsocket, fun _ h => absurd rfl h⟩
  · exact startReading_listens rfl

theorem Server.afterSelect_listens (s : Server) (r : SelectResult) :
    (s.afterSelect r).Listens := by
  cases r with
  | failed => exact s.stop_listens
  | interrupted => exact ⟨fun _ => rfl, fun _ _ => rfl⟩
  | timeout => exact ⟨fun _ => rfl, fun _ _ => rfl⟩
  | ready socket stdin write => exact startReceiving_listens _

theorem Server.Listens.of_sameControl (h : s.Listens) (hsame : s.SameControl s') :
    s'.Listens := by
  obtain ⟨hsocket, hstdin⟩ := h
  rw [← hsame.point, ← hsame.readSocket] at hsocket
  rw [← hsame.point, ← hsame.readStdin] at hstdin
  exact ⟨hsocket, hstdin⟩

/-- **Reading.** A step keeps listening. -/
theorem serveStep_listens (h : s.Listens) {i : SystemResult} (hstep : serveStep s i = some s') :
    s'.Listens := by
  cases serveStep_outcome hstep with
  | dumpFailed _ _ => exact s.stop_listens
  | selected _ _ => exact Server.afterSelect_listens _ _
  | receiving _ hrecv => exact h.of_sameControl (recvAll_sameControl hrecv)
  | received hpoint hrecv =>
    have hsocket := h.socket (by simp [hpoint])
    exact Server.startReading_listens ((recvAll_sameControl hrecv).readSocket.trans hsocket)
  | receiveFailed _ _ => exact Server.stop_listens _
  | stopped _ _ => exact s.stop_listens
  | read hpoint _ =>
    have hsocket := h.socket (by simp [hpoint])
    exact Server.startSending_listens hsocket (h.stdin (by simp [hpoint]) (by simp [hpoint]))
  | sending hpoint hsend =>
    have hsame := sendAll_sameControl hsend
    have hsocket := hsame.readSocket.trans (h.socket (by simp [hpoint]))
    have hstdin := hsame.readStdin.trans (h.stdin (by simp [hpoint]) (by simp [hpoint]))
    exact Server.continueSending_listens hsocket hstdin
  | sent hpoint hsend =>
    have hsame := sendAll_sameControl hsend
    have hsocket := hsame.readSocket.trans (h.socket (by simp [hpoint]))
    have hstdin := hsame.readStdin.trans (h.stdin (by simp [hpoint]) (by simp [hpoint]))
    exact Server.afterSending_listens hsocket hstdin
  | sendFailed _ _ => exact Server.stop_listens _

/-! ### Writing -/

/-- The server waits for the socket to become writable only if there is something to send. -/
structure Server.Settled (s : Server) : Prop where
  /-- While it waits, the pointer is `NULL` if the queue is empty. -/
  waiting : s.point = .selecting → isQueueEmpty s.queue = true → s.pwritefds = false
  /-- Before it comes to the set for writing, the socket is in it, or there is something to send. -/
  busy : s.point = .receiving ∨ s.point = .reading → s.pwritefds = true →
    s.writeSocket = true ∨ isQueueEmpty s.queue = false

theorem Server.stop_settled (s : Server) : s.stop.Settled :=
  ⟨fun h => ServePoint.noConfusion h, fun h => by simp [stop] at h⟩

theorem Server.afterSending_settled (s : Server) : s.afterSending.Settled := by
  rw [afterSending]
  split
  · exact ⟨fun _ _ => rfl, fun h => by simp at h⟩
  · rename_i hempty
    exact ⟨fun _ h => absurd h hempty, fun h => by simp at h⟩

theorem Server.continueSending_settled (s : Server) : s.continueSending.Settled := by
  rw [continueSending]
  split
  · exact s.afterSending_settled
  · exact ⟨fun h => ServePoint.noConfusion h, fun h => by simp at h⟩

section Settled

variable (hbusy : s.pwritefds = true → s.writeSocket = true ∨ isQueueEmpty s.queue = false)

include hbusy

theorem Server.startSending_settled : s.startSending.Settled := by
  rw [startSending]
  split
  · rename_i hpointer
    split
    · exact s.continueSending_settled
    · rename_i hwrite
      have hempty := (hbusy hpointer).resolve_left hwrite
      exact ⟨fun _ h => Bool.noConfusion (hempty.symm.trans h), fun h => by simp at h⟩
  · rename_i hpointer
    exact ⟨fun _ _ => Bool.not_eq_true _ ▸ hpointer, fun h => by simp at h⟩

theorem Server.startReading_settled : s.startReading.Settled := by
  rw [startReading]
  split
  · exact ⟨fun h => ServePoint.noConfusion h, fun _ => hbusy⟩
  · exact startSending_settled hbusy

theorem Server.startReceiving_settled : s.startReceiving.Settled := by
  rw [startReceiving]
  split
  · exact ⟨fun h => ServePoint.noConfusion h, fun _ => hbusy⟩
  · exact startReading_settled hbusy

end Settled

/-- A call of `pselect` that begins settled. -/
theorem Server.afterSelect_settled (hpoint : s.point = .selecting)
    (hwaiting : isQueueEmpty s.queue = true → s.pwritefds = false) (r : SelectResult) :
    (s.afterSelect r).Settled := by
  cases r with
  | failed => exact s.stop_settled
  | interrupted =>
    exact ⟨fun _ => hwaiting, fun h => by simp [afterSelect, hpoint] at h⟩
  | timeout =>
    exact ⟨fun _ => hwaiting, fun h => by simp [afterSelect, hpoint] at h⟩
  | ready socket stdin write =>
    refine startReceiving_settled fun hpointer => Or.inr ?_
    rw [← Bool.not_eq_true]
    intro hempty
    exact Bool.noConfusion ((hwaiting hempty).symm.trans hpointer)

/-- A call of `pselect` that reports the socket writable. -/
theorem Server.afterSelect_settled_of_write (hwrite : s.writeSocket = true) (socket stdin : Bool) :
    (s.afterSelect (.ready socket stdin true)).Settled := by
  refine startReceiving_settled fun _ => Or.inl ?_
  simp [hwrite]

/-- The state in which `pselect` is called: the timestamps are dumped first, if a signal has asked
for it. -/
def Server.atSelect (s : Server) (dump : Option Bool) : Option Server :=
  (s.dumpTimestamps dump).map Server.prepareSelect

theorem Server.dumpTimestamps_sameControl {dump : Option Bool}
    (h : s.dumpTimestamps dump = some s') : s.SameControl s' := by
  unfold dumpTimestamps at h
  split at h
  · obtain rfl := Option.some.inj h
    exact ⟨rfl, rfl, rfl, rfl, rfl⟩
  · simp at h
  · obtain rfl := Option.some.inj h
    exact ⟨rfl, rfl, rfl, rfl, rfl⟩

/-- What `pselect` is called with. -/
structure Server.AtSelect (s t : Server) : Prop where
  /-- The queue is the same. -/
  queue : t.queue = s.queue
  /-- The call comes next. -/
  point : t.point = s.point
  /-- The socket is in `readfds` as before. -/
  readSocket : t.readSocket = s.readSocket
  /-- Stdin is in `readfds` as before. -/
  readStdin : t.readStdin = s.readStdin
  /-- If there is nothing to send, the pointer is as before. -/
  empty : isQueueEmpty s.queue = true → t.pwritefds = s.pwritefds
  /-- If there is something to send, the socket is in the set for writing. -/
  pending : isQueueEmpty s.queue = false → t.pwritefds = true ∧ t.writeSocket = true

theorem Server.atSelect_spec {t : Server} {dump : Option Bool} (h : s.atSelect dump = some t) :
    s.AtSelect t := by
  obtain ⟨s₁, hdump, rfl⟩ := Option.map_eq_some_iff.mp h
  have hsame := dumpTimestamps_sameControl hdump
  have hqueue := (dumpTimestamps_spec hdump).1.queue
  rw [prepareSelect]
  split
  · rename_i hempty
    rw [hqueue] at hempty
    exact ⟨hqueue, hsame.point, hsame.readSocket, hsame.readStdin, fun _ => hsame.pwritefds,
      fun h => Bool.noConfusion (h.symm.trans hempty)⟩
  · rename_i hempty
    rw [hqueue] at hempty
    exact ⟨hqueue, hsame.point, hsame.readSocket, hsame.readStdin, fun h => absurd h hempty,
      fun _ => ⟨rfl, rfl⟩⟩

/-- A step of `pselect`, told with the state in which it is called. -/
theorem serveStep_atSelect (hpoint : s.point = .selecting) {dump : Option Bool} {t : Server}
    (h : s.atSelect dump = some t) (r : SelectResult) :
    serveStep s (.select dump r) = some (t.afterSelect r) := by
  obtain ⟨s₁, hdump, rfl⟩ := Option.map_eq_some_iff.mp h
  simp only [serveStep, hpoint, hdump]

/-- **Writing.** A step keeps the server settled. -/
theorem serveStep_settled (h : s.Settled) (hdata : s.InOrder contents) {i : SystemResult}
    (hstep : serveStep s i = some s') : s'.Settled := by
  -- `recv_all` leaves the two facts alone, or fills the queue
  have hbusy : ∀ {r : RecvResult} {t : Server} {turn : Turn}, s.point = .receiving →
      recvAll s r = some (t, turn) → turn ≠ .failed → t.pwritefds = true →
      t.writeSocket = true ∨ isQueueEmpty t.queue = false := by
    intro r t turn hpoint hrecv hturn
    rcases recvAll_queue hdata hrecv hturn with rfl | hqueued
    · exact h.busy (Or.inl hpoint)
    · exact fun _ => Or.inr hqueued
  cases serveStep_outcome hstep with
  | dumpFailed _ _ => exact s.stop_settled
  | @selected dump r t hpoint hdump =>
    have hselect : s.AtSelect t.prepareSelect :=
      Server.atSelect_spec (show s.atSelect dump = _ by rw [Server.atSelect, hdump]; rfl)
    refine Server.afterSelect_settled (hselect.point.trans hpoint) (fun hempty => ?_) r
    rw [hselect.queue] at hempty
    exact (hselect.empty hempty).trans (h.waiting hpoint hempty)
  | receiving hpoint hrecv =>
    have hsame := recvAll_sameControl hrecv
    exact ⟨fun h => by simp [hsame.point, hpoint] at h, fun _ => hbusy hpoint hrecv (by simp)⟩
  | received hpoint hrecv => exact Server.startReading_settled (hbusy hpoint hrecv (by simp))
  | receiveFailed _ _ => exact Server.stop_settled _
  | stopped _ _ => exact s.stop_settled
  | read hpoint _ => exact Server.startSending_settled (h.busy (Or.inr hpoint))
  | sending _ _ => exact Server.continueSending_settled _
  | sent _ _ => exact Server.afterSending_settled _
  | sendFailed _ _ => exact Server.stop_settled _

/-! ### Every call of `pselect` -/

/-- `pselect` is given the socket in a set for writing. -/
def Server.WaitsToWrite (t : Server) : Prop := t.pwritefds = true ∧ t.writeSocket = true

/-- The call of `pselect` waits for the socket to become writable, and reports that it is. -/
def Server.ReportsWrite (s : Server) (i : SystemResult) : Prop :=
  s.point = .selecting ∧ ∃ dump t socket stdin, s.atSelect dump = some t ∧ t.WaitsToWrite ∧
    i = .select dump (.ready socket stdin true)

/-- In the state `t`, after the inputs listed, `pselect` waits for what it should. -/
structure Server.WaitsRight (start : Server) (is : List SystemResult) (t : Server) : Prop where
  /-- It waits for datagrams. -/
  socket : t.readSocket = true
  /-- It waits for the stop character. -/
  stdin : t.readStdin = true
  /-- If there is something to send, it waits for the socket to become writable. -/
  pending : isQueueEmpty t.queue = false → t.WaitsToWrite
  /-- If there is nothing to send, it does not, once the socket has been reported writable. -/
  drained : isQueueEmpty t.queue = true → ∀ (before after : List SystemResult) (i : SystemResult)
    (s : Server), is = before ++ i :: after → Run serveStep (fun _ _ => True) start before s →
    s.ReportsWrite i → ¬t.WaitsToWrite

theorem Server.ReportsWrite.settled {i : SystemResult} (h : s.ReportsWrite i)
    (hstep : serveStep s i = some s') : s'.Settled := by
  obtain ⟨hpoint, dump, t, socket, stdin, hselect, hwaits, rfl⟩ := h
  obtain rfl := Option.some.inj ((serveStep_atSelect hpoint hselect _).symm.trans hstep)
  exact t.afterSelect_settled_of_write hwaits.2 socket stdin

/-- The data are in order until `serve` returns. -/
def Server.Kept (s : Server) : Prop := (∃ contents, s.InOrder contents) ∨ s.point = .returned

theorem serveStep_kept (h : s.Kept) {i : SystemResult} (hstep : serveStep s i = some s') :
    s'.Kept := by
  rcases h with ⟨contents, h⟩ | hreturned
  · exact serveStep_inOrder_or_returned h hstep
  · exact absurd hreturned (point_of_serveStep hstep)

/-- Once the server is settled it stays so. -/
theorem run_settled {is : List SystemResult} (hrun : Run serveStep (fun _ _ => True) s is s')
    (hkept : s.Kept) (h : s.Settled) : s'.Settled := by
  refine (hrun.invariant (P := fun s => s.Kept ∧ s.Settled) ?_ ⟨hkept, h⟩).2
  rintro s i s' ⟨hkept, h⟩ - hstep
  refine ⟨serveStep_kept hkept hstep, ?_⟩
  rcases hkept with ⟨contents, hdata⟩ | hreturned
  · exact serveStep_settled h hdata hstep
  · exact absurd hreturned (point_of_serveStep hstep)

section Runs

variable {malloc : Malloc} {size : ℕ} {recvBuffer sendBuffer : Block} {queue : MessageQueue}
  {receives sends : Option (List Timespec)} {is : List SystemResult}

/-- **No lost wakeup.** Every call of `pselect` waits for the socket and for stdin, and for the
socket to become writable if there is something to send. If there is nothing, it does not, once the
socket has been reported writable. -/
theorem serve_waits_right (hrecv : recvBuffer.size = receiveBufferSize)
    (hsend : sendBuffer.size = sendBufferSize) (hqueue : makeMessageQueue malloc size = some queue)
    (hrun : Run serveStep (fun _ _ => True)
      (Server.initial recvBuffer sendBuffer queue receives sends) is s)
    (hpoint : s.point = .selecting) {dump : Option Bool} {t : Server}
    (hselect : s.atSelect dump = some t) :
    Server.WaitsRight (Server.initial recvBuffer sendBuffer queue receives sends) is t := by
  have hspec := Server.atSelect_spec hselect
  have hne : s.point ≠ .returned := by simp [hpoint]
  have hlistens : s.Listens :=
    hrun.invariant (fun _ _ _ h _ hstep => serveStep_listens h hstep) ⟨fun _ => rfl, fun _ _ => rfl⟩
  constructor
  · exact hspec.readSocket.trans (hlistens.socket hne)
  · exact hspec.readStdin.trans (hlistens.stdin hne (by simp [hpoint]))
  · rw [hspec.queue]
    exact hspec.pending
  · intro hempty before after i s₁ his hbefore hreport hwaits
    subst his
    rw [hspec.queue] at hempty
    -- the run goes on from the report
    obtain ⟨s₁', hbefore', hrest⟩ := Run.append_iff.mp hrun
    obtain rfl := hbefore.unique hbefore'
    cases hrest with
    | cons _ hstep hafter =>
      have hkept := hbefore.invariant (fun _ _ _ h _ hstep => serveStep_kept h hstep)
        (Or.inl ⟨[], Server.inOrder_initial hrecv hsend hqueue receives sends⟩)
      have hsettled := run_settled hafter (serveStep_kept hkept hstep) (hreport.settled hstep)
      have hpointer := (hspec.empty hempty).trans (hsettled.waiting hpoint hempty)
      exact Bool.false_ne_true (hpointer.symm.trans hwaits.1)

/-- Three datagrams have come in, and one answer has been sent: the others wait in the queue. -/
theorem serve_waits_right_threeDatagrams : ∃ s t,
    Run serveStep (fun _ _ => True) freshServer
        (traffic threeDatagrams (threeReplies.take 1) ⟨1, 0⟩) s ∧
      s.atSelect none = some t ∧ t.WaitsToWrite ∧
      Server.WaitsRight freshServer (traffic threeDatagrams (threeReplies.take 1) ⟨1, 0⟩) t := by
  obtain ⟨s, hfair, -, -, horder, hpoint⟩ := exists_run_freshServer none none
  have hrun := hfair.mono fun _ _ _ => trivial
  have hselect : s.atSelect none = some s.prepareSelect := rfl
  have hright := serve_waits_right size_recvBuffer_freshServer size_sendBuffer_freshServer
    makeMessageQueue_freshServer hrun hpoint hselect
  refine ⟨s, s.prepareSelect, hrun, hselect, hright.pending ?_, hright⟩
  rw [(Server.atSelect_spec hselect).queue, ← Bool.not_eq_true, horder.queue.isQueueEmpty_iff]
  decide

end Runs

end DnsTools
