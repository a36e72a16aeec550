import DnsTools.Server.Serve
import DnsTools.MessageQueueFifo
import DnsTools.Lib.Run

/-!
# One step of the server

Between two system calls of `serve`, what has been sent and what is in the queue are together the
answers to the datagrams received so far, in the order of their arrival. `Server.InOrder` is this
invariant. `recvAll_outcome` and `sendAll_outcome` say what one turn of the two inner loops does to
it; the rest of a step only moves on to the next system call and touches none of the data.

## A step, and what there is to say about it

The input of a step is the result of the system call that `serve` waits for, and the step runs to
the next one. So most of the code of a step is control: which of the loops comes next, and what
`pselect` is asked about. `SameData` says that such code leaves the data alone, and each of the
functions that make up the control has one lemma that says so, together with where it leads
(`Ready`). What is left are the two calls that touch the data, and for these the outcomes list all
that may happen: the answer is queued, there is no room for it, there is no answer, the datagram
makes the function undefined; the oldest entry is sent, or stays.

The later modules about the server go by these outcomes and none of them looks into `serveStep`
again. `Traffic` makes runs of them, `ServeOrder` and `ServeSurvives` say what holds of a run.

## What is on record

`queued` and `sent` are not variables of the program. They are there to say what has come in and
what has gone out; no branch of `serveStep` reads them. A datagram is on record as soon as its
answer is in the queue, also when `serve` fails behind that because the clock cannot be read.

## What is assumed

The one thing assumed of the system is that a `sendto` that does not fail sends the whole datagram.
It may fail, or ask to be called again, at any time; the datagrams may hold any bytes.

## Main results

* `recvAll_outcome` — what `recv_all` does with a datagram
* `sendAll_outcome` — what `send_all` does with the oldest entry
* `serveStep_inOrder` — what a step does to the data, and where it leads
-/

namespace DnsTools

open Memory

/-- What a datagram is answered with, and to whom. -/
def Datagram.reply (d : Datagram) : Option Entry :=
  (answerFor d.bytes).map fun message => { address := d.address, message }

/-- The datagram that an input brings. -/
def SystemResult.datagram : SystemResult → Option Datagram
  | .recvfrom (.datagram d _) => some d
  | _ => none

/-- The datagrams that came in, in order. -/
def datagrams (is : List SystemResult) : List Datagram := is.filterMap SystemResult.datagram

/-- The entries of the queue, behind what has been sent, answer the datagrams queued. -/
structure Server.InOrder (s : Server) (contents : List Entry) : Prop where
  /-- The size of the receive buffer. -/
  recvBuffer : s.recvBuffer.size = receiveBufferSize
  /-- The size of the send buffer. -/
  sendBuffer : s.sendBuffer.size = sendBufferSize
  /-- The queue holds the entries. -/
  queue : Represents s.queue contents
  /-- Each answers its datagram. -/
  order : s.queued.map Datagram.reply = (s.sent ++ contents).map some

variable {s s' : Server} {contents : List Entry}

/-! ### Moving on to the next system call -/

/-- The two states differ in the control of the program only. -/
structure Server.SameData (s s' : Server) : Prop where
  /-- The receive buffer is the same. -/
  recvBuffer : s'.recvBuffer = s.recvBuffer
  /-- The send buffer is the same. -/
  sendBuffer : s'.sendBuffer = s.sendBuffer
  /-- The queue is the same. -/
  queue : s'.queue = s.queue
  /-- The same datagrams have been queued. -/
  queued : s'.queued = s.queued
  /-- The same datagrams have been sent. -/
  sent : s'.sent = s.sent

theorem Server.InOrder.of_sameData (h : s.InOrder contents) (hsame : s.SameData s') :
    s'.InOrder contents := by
  obtain ⟨hrecv, hsend, hqueue, hqueued, hsent⟩ := hsame
  constructor
  · rw [hrecv]
    exact h.recvBuffer
  · rw [hsend]
    exact h.sendBuffer
  · rw [hqueue]
    exact h.queue
  · rw [hqueued, hsent]
    exact h.order

theorem Server.stop_sameData (s : Server) : s.SameData s.stop := ⟨rfl, rfl, rfl, rfl, rfl⟩

/-- `serve` runs on, and it is in `send_all` only if there is something to send. -/
structure Server.Ready (s : Server) : Prop where
  /-- It has not returned. -/
  point : s.point ≠ .returned
  /-- The queue is not empty in front of a call of `sendto`. -/
  sending : s.point = .sending → isQueueEmpty s.queue = false

theorem Server.afterSending_spec (s : Server) :
    s.SameData s.afterSending ∧ s.afterSending.Ready := by
  rw [afterSending]
  split <;> exact ⟨⟨rfl, rfl, rfl, rfl, rfl⟩, by simp, by simp⟩

theorem Server.continueSending_spec (s : Server) :
    s.SameData s.continueSending ∧ s.continueSending.Ready := by
  rw [continueSending]
  split
  · exact s.afterSending_spec
  · rename_i hempty
    exact ⟨⟨rfl, rfl, rfl, rfl, rfl⟩, by simp, fun _ => by simpa using hempty⟩

theorem Server.startSending_spec (s : Server) :
    s.SameData s.startSending ∧ s.startSending.Ready := by
  rw [startSending]
  split
  · split
    · exact s.continueSending_spec
    · exact ⟨⟨rfl, rfl, rfl, rfl, rfl⟩, by simp, by simp⟩
  · exact ⟨⟨rfl, rfl, rfl, rfl, rfl⟩, by simp, by simp⟩

theorem Server.startReading_spec (s : Server) :
    s.SameData s.startReading ∧ s.startReading.Ready := by
  rw [startReading]
  split
  · exact ⟨⟨rfl, rfl, rfl, rfl, rfl⟩, by simp, by simp⟩
  · obtain ⟨hsame, hready⟩ := { s with readStdin := true }.startSending_spec
    exact ⟨⟨hsame.1, hsame.2, hsame.3, hsame.4, hsame.5⟩, hready⟩

theorem Server.startReceiving_spec (s : Server) :
    s.SameData s.startReceiving ∧ s.startReceiving.Ready := by
  rw [startReceiving]
  split
  · exact ⟨⟨rfl, rfl, rfl, rfl, rfl⟩, by simp, by simp⟩
  · obtain ⟨hsame, hready⟩ := { s with readSocket := true }.startReading_spec
    exact ⟨⟨hsame.1, hsame.2, hsame.3, hsame.4, hsame.5⟩, hready⟩

theorem Server.afterSelect_spec (hpoint : s.point = .selecting) (r : SelectResult) :
    s.SameData (s.afterSelect r) ∧
      ((s.afterSelect r).Ready ∨ (s.afterSelect r).point = .returned ∧ r = .failed) := by
  cases r with
  | failed => exact ⟨s.stop_sameData, Or.inr ⟨rfl, rfl⟩⟩
  | interrupted =>
    exact ⟨⟨rfl, rfl, rfl, rfl, rfl⟩, Or.inl ⟨by simp [afterSelect, hpoint],
      by simp [afterSelect, hpoint]⟩⟩
  | timeout =>
    exact ⟨⟨rfl, rfl, rfl, rfl, rfl⟩, Or.inl ⟨by simp [afterSelect, hpoint],
      by simp [afterSelect, hpoint]⟩⟩
  | ready socket stdin write =>
    obtain ⟨hsame, hready⟩ := Server.startReceiving_spec
      { s with readSocket := s.readSocket && socket, readStdin := s.readStdin && stdin
               writeSocket := s.writeSocket && (!s.pwritefds || write) }
    exact ⟨⟨hsame.1, hsame.2, hsame.3, hsame.4, hsame.5⟩, Or.inl hready⟩

theorem Server.SameData.trans {s'' : Server} (h : s.SameData s') (h' : s'.SameData s'') :
    s.SameData s'' :=
  ⟨h'.1.trans h.1, h'.2.trans h.2, h'.3.trans h.3, h'.4.trans h.4, h'.5.trans h.5⟩

theorem Server.prepareSelect_spec (s : Server) :
    s.SameData s.prepareSelect ∧ s.prepareSelect.point = s.point := by
  rw [prepareSelect]
  split <;> exact ⟨⟨rfl, rfl, rfl, rfl, rfl⟩, rfl⟩

theorem Server.dumpTimestamps_spec {dump : Option Bool} {t : Server}
    (h : s.dumpTimestamps dump = some t) : s.SameData t ∧ t.point = s.point := by
  cases dump with
  | none =>
    obtain rfl := Option.some.inj h
    exact ⟨⟨rfl, rfl, rfl, rfl, rfl⟩, rfl⟩
  | some ok =>
    cases ok with
    | false => exact absurd h (by simp [dumpTimestamps])
    | true =>
      obtain rfl := Option.some.inj h
      exact ⟨⟨rfl, rfl, rfl, rfl, rfl⟩, rfl⟩

/-- A step at `pselect` touches none of the data, and it ends the loop only if the dump or the
call fails. -/
theorem serveStep_select (hpoint : s.point = .selecting) (dump : Option Bool) (r : SelectResult) :
    ∃ s', serveStep s (.select dump r) = some s' ∧ s.SameData s' ∧
      (s'.Ready ∨ s'.point = .returned ∧ (dump = some false ∨ r = .failed)) := by
  cases hdump : s.dumpTimestamps dump with
  | none =>
    refine ⟨s.stop, by simp only [serveStep, hpoint, hdump], s.stop_sameData, Or.inr ⟨rfl, ?_⟩⟩
    rcases dump with _ | _ | _
    · simp [Server.dumpTimestamps] at hdump
    · exact Or.inl rfl
    · simp [Server.dumpTimestamps] at hdump
  | some t =>
    obtain ⟨hsame, ht⟩ := Server.dumpTimestamps_spec hdump
    obtain ⟨hsame₁, hpoint₁⟩ := t.prepareSelect_spec
    obtain ⟨hsame₂, hready⟩ := Server.afterSelect_spec (hpoint₁.trans (ht.trans hpoint)) r
    refine ⟨t.prepareSelect.afterSelect r, by simp only [serveStep, hpoint, hdump],
      hsame.trans (hsame₁.trans hsame₂), hready.imp_right fun hreturned => ?_⟩
    exact ⟨hreturned.1, Or.inr hreturned.2⟩

/-! ### One turn of `recv_all` -/

/-- An answer to `d` is in the queue. -/
def Server.answered (s : Server) (d : Datagram) (recvBuffer sendBuffer : Block)
    (queue : MessageQueue) (receives : Option (List Timespec)) : Server :=
  { s with recvBuffer, sendBuffer, queue, receives, queued := s.queued ++ [d]
           messagesReceived := s.messagesReceived + 1 }

/-- Everything `recv_all` can do with a datagram. -/
inductive RecvOutcome (s : Server) (contents : List Entry) (d : Datagram)
    (clock : Option Timespec) : Option (Server × Turn) → Prop
  | queued {m : List UInt8} (hanswer : answerFor d.bytes = some m) {recvBuffer sendBuffer : Block}
      {queue : MessageQueue} {receives : Option (List Timespec)}
      (hpush : pushMessage s.queue { address := d.address, message := m } = some (0, queue))
      (hs' : (s.answered d recvBuffer sendBuffer queue receives).InOrder
        (contents ++ [{ address := d.address, message := m }]))
      {turn : Turn} (hturn : turn = .again ∨ turn = .failed ∧ clock = none) :
      RecvOutcome s contents d clock
        (some (s.answered d recvBuffer sendBuffer queue receives, turn))
  | refused {m : List UInt8} (hanswer : answerFor d.bytes = some m) {queue : MessageQueue}
      (hpush : pushMessage s.queue { address := d.address, message := m } = some (-1, queue))
      {recvBuffer sendBuffer : Block}
      (hs' : { s with recvBuffer, sendBuffer, queue }.InOrder contents) :
      RecvOutcome s contents d clock (some ({ s with recvBuffer, sendBuffer, queue }, .failed))
  | unanswered (hanswer : answerFor d.bytes = none) {recvBuffer : Block}
      (hs' : { s with recvBuffer }.InOrder contents) :
      RecvOutcome s contents d clock (some ({ s with recvBuffer }, .failed))
  | undefined (hanswer : answerFor d.bytes = none) : RecvOutcome s contents d clock none

/-- An answer to a datagram fits the queue's length fields. -/
theorem Datagram.fits (d : Datagram) {m : List UInt8} (h : answerFor d.bytes = some m) :
    Entry.Fits { address := d.address, message := m } := by
  have haddress := d.address_le
  have hbytes := d.bytes_le
  have hlength := (length_of_answerFor h).2
  rw [maxUdpPayload] at hbytes
  constructor
  · simp only
    omega
  · simp only [sizeofSocklen, sizeofSize, sizeModulus]
    omega

theorem recordTimestamp_cases (stamps : Option (List Timespec)) (clock : Option Timespec) :
    recordTimestamp stamps clock = none ∧ clock = none ∨
      ∃ stamps', recordTimestamp stamps clock = some stamps' := by
  cases stamps with
  | none => exact Or.inr ⟨none, rfl⟩
  | some stamps =>
    rw [recordTimestamp]
    split
    · cases clock with
      | none => exact Or.inl ⟨rfl, rfl⟩
      | some now => exact Or.inr ⟨_, rfl⟩
    · exact Or.inr ⟨_, rfl⟩

theorem recvAll_outcome (h : s.InOrder contents) (d : Datagram) (clock : Option Timespec) :
    RecvOutcome s contents d clock (recvAll s (.datagram d clock)) := by
  have hbytes := d.bytes_le
  rw [maxUdpPayload] at hbytes
  have hrecv := h.recvBuffer
  have hsend := h.sendBuffer
  rw [receiveBufferSize] at hrecv
  rw [sendBufferSize] at hsend
  obtain ⟨recvBuffer, hstore⟩ := Block.store_of_le s.recvBuffer 0 d.bytes (by omega)
  have hsize : recvBuffer.size = receiveBufferSize :=
    (Block.size_of_store hstore).trans h.recvBuffer
  have hmake := makeAnswer_outcome (.of_store hstore)
    (by omega : d.bytes.length + 16 ≤ s.sendBuffer.size)
  simp only [recvAll, hstore, Option.bind_eq_bind, Option.bind_some]
  revert hmake
  generalize makeAnswer recvBuffer d.bytes.length s.sendBuffer = r
  intro hmake
  cases hmake with
  | failed hanswer =>
    exact .unanswered hanswer ⟨hsize, h.sendBuffer, h.queue, h.order⟩
  | undefined hanswer => exact .undefined hanswer
  | @answered m hanswer sendBuffer hholds hsendSize =>
    have hload := hholds.load
    obtain ⟨r, queue, hpush, hout⟩ := pushMessage_outcome h.queue (d.fits hanswer)
    have hsendBuffer : sendBuffer.size = sendBufferSize := hsendSize.trans h.sendBuffer
    simp only [Option.bind_some, hload, hpush]
    -- the queue takes the answer, or has no room for it and stays as it is
    rcases hout.represents h.queue (d.fits hanswer) with ⟨rfl, hqueue⟩ | ⟨rfl, hqueue⟩
    · have horder : (s.queued ++ [d]).map Datagram.reply
          = (s.sent ++ (contents ++ [Entry.mk d.address m])).map some := by
        have hreply : d.reply = some (Entry.mk d.address m) := by
          rw [Datagram.reply, hanswer, Option.map_some]
        rw [List.map_append, h.order, List.map_singleton, hreply]
        simp
      rcases recordTimestamp_cases s.receives clock with ⟨hstamp, hclock⟩ | ⟨stamps, hstamp⟩
      · simp only [ne_eq, not_true_eq_false, if_false, hstamp]
        exact .queued hanswer hpush ⟨hsize, hsendBuffer, hqueue, horder⟩ (Or.inr ⟨rfl, hclock⟩)
      · simp only [ne_eq, not_true_eq_false, if_false, hstamp]
        exact .queued hanswer hpush ⟨hsize, hsendBuffer, hqueue, horder⟩ (Or.inl rfl)
    · exact .refused hanswer hpush ⟨hsize, hsendBuffer, hqueue, h.order⟩

/-! ### One turn of `send_all` -/

/-- The length `get_message` reports is that of the message. -/
theorem GotMessage.size_of_entry {got : GotMessage} {buffer : Block} {e : Entry}
    (h : got.entry buffer = some e) : got.size = e.message.length := by
  simp only [GotMessage.entry, Option.bind_eq_bind, Option.bind_eq_some_iff] at h
  obtain ⟨address, -, message, hmessage, h⟩ := h
  rw [← Option.some.inj h, Block.length_of_load hmessage]

/-- Everything `send_all` can do with the oldest entry, if a datagram is sent whole or not at
all. -/
inductive SendOutcome (s : Server) (e : Entry) (contents : List Entry) (r : SendResult) :
    Option (Server × Turn) → Prop
  | sent {n : ℕ} {clock : Option Timespec} (hr : r = .returned n clock) {queue : MessageQueue}
      {sends : Option (List Timespec)}
      (hs' : { s with sent := s.sent ++ [e], queue, sends }.InOrder contents)
      {turn : Turn} (hturn : turn = .again ∨ turn = .failed ∧ clock = none) :
      SendOutcome s e contents r (some ({ s with sent := s.sent ++ [e], queue, sends }, turn))
  | kept {turn : Turn} (hturn : r = .again ∧ turn = .done ∨ r = .failed ∧ turn = .failed) :
      SendOutcome s e contents r (some (s, turn))

theorem sendAll_outcome {e : Entry} (h : s.InOrder (e :: contents)) (r : SendResult)
    (hwhole : ∀ n clock, r = .returned n clock → n = e.message.length) :
    SendOutcome s e contents r (sendAll s r) := by
  obtain ⟨got, hget, hentry, hcommit⟩ := getMessage_of_cons h.queue
  have hsize := GotMessage.size_of_entry hentry
  simp only [sendAll, hget, hentry, Option.bind_eq_bind, Option.bind_some]
  cases r with
  | again => exact .kept (Or.inl ⟨rfl, rfl⟩)
  | failed => exact .kept (Or.inr ⟨rfl, rfl⟩)
  | returned n clock =>
    obtain rfl := hwhole n clock rfl
    have horder : s.queued.map Datagram.reply = ((s.sent ++ [e]) ++ contents).map some := by
      rw [h.order, List.append_assoc, List.singleton_append]
    have htake : ({ e with message := e.message.take e.message.length } : Entry) = e := by
      rw [List.take_length]
    have hs' : ∀ sends, Server.InOrder
        { s with sent := s.sent ++ [e], queue := s.queue.commit got, sends } contents :=
      fun _ => ⟨h.recvBuffer, h.sendBuffer, hcommit, horder⟩
    simp only [hsize, Nat.lt_irrefl, if_false, htake, Option.pure_def]
    rcases recordTimestamp_cases s.sends clock with ⟨hstamp, hclock⟩ | ⟨stamps, hstamp⟩
    · simp only [hstamp]
      exact .sent rfl (hs' s.sends) (Or.inr ⟨rfl, hclock⟩)
    · simp only [hstamp]
      exact .sent rfl (hs' stamps) (Or.inl rfl)

/-! ### Every run -/

/-- A `sendto` that does not fail sends the whole message. -/
def Server.WholeDatagrams (s : Server) (i : SystemResult) : Prop :=
  ∀ n clock, i = .sendto (.returned n clock) →
    ∀ got, getMessage s.queue = some (some got) → n = got.size

theorem Server.inOrder_initial {malloc : Malloc} {size : ℕ} {recvBuffer sendBuffer : Block}
    {queue : MessageQueue} (hrecv : recvBuffer.size = receiveBufferSize)
    (hsend : sendBuffer.size = sendBufferSize) (hqueue : makeMessageQueue malloc size = some queue)
    (receives sends : Option (List Timespec)) :
    (Server.initial recvBuffer sendBuffer queue receives sends).InOrder [] :=
  ⟨hrecv, hsend, represents_makeMessageQueue hqueue, rfl⟩

/-- The data are in order in `s'`, and a datagram that came in is on record there, unless it has
ended `serve`. -/
def Server.Advances (s : Server) (o : Option Datagram) (s' : Server) : Prop :=
  ∃ contents, s'.InOrder contents ∧ (s'.Ready ∧ s'.queued = s.queued ++ o.toList ∨
    s'.point = .returned ∧ s'.queued <+: s.queued ++ o.toList)

/-- Moving on keeps everything in order. -/
theorem Server.InOrder.advances (h : s.InOrder contents) (hsame : s.SameData s')
    (hpoint : s'.Ready ∨ s'.point = .returned) : s.Advances none s' := by
  have hqueued : s'.queued = s.queued ++ Option.toList none := by simp [hsame.queued]
  refine ⟨contents, h.of_sameData hsame, ?_⟩
  rcases hpoint with hready | hreturned
  · exact Or.inl ⟨hready, hqueued⟩
  · exact Or.inr ⟨hreturned, hqueued ▸ List.prefix_refl _⟩

/-- `serve` gives up, and may leave out the last datagram. -/
theorem Server.InOrder.advances_stop {o : Option Datagram} (h : s'.InOrder contents)
    (hqueued : s'.queued <+: s.queued ++ o.toList) : s.Advances o s'.stop :=
  ⟨contents, h.of_sameData s'.stop_sameData, Or.inr ⟨rfl, hqueued⟩⟩

/-- A datagram is received. -/
theorem Server.InOrder.advances_datagram (h : s.InOrder contents) (hpoint : s.point = .receiving)
    {d : Datagram} {clock : Option Timespec}
    (hstep : serveStep s (.recvfrom (.datagram d clock)) = some s') : s.Advances (some d) s' := by
  have hout := recvAll_outcome h d clock
  simp only [serveStep, hpoint] at hstep
  revert hout hstep
  generalize recvAll s (.datagram d clock) = r
  intro hout hstep
  cases hout with
  | undefined hanswer => exact absurd hstep (by simp)
  | unanswered hanswer hs' =>
    obtain rfl := Option.some.inj hstep
    exact hs'.advances_stop (List.prefix_append _ _)
  | refused hanswer hpush hs' =>
    obtain rfl := Option.some.inj hstep
    exact hs'.advances_stop (List.prefix_append _ _)
  | queued hanswer hpush hs' hturn =>
    rcases hturn with rfl | ⟨rfl, -⟩
    · obtain rfl := Option.some.inj hstep
      refine ⟨_, hs', Or.inl ⟨?_, rfl⟩⟩
      constructor <;> simp [Server.answered, hpoint]
    · obtain rfl := Option.some.inj hstep
      exact hs'.advances_stop (List.prefix_refl _)

/-- The oldest entry of the queue is sent. -/
theorem Server.InOrder.advances_sendto (h : s.InOrder contents) (hpoint : s.point = .sending)
    {r : SendResult} (hwhole : s.WholeDatagrams (.sendto r))
    (hstep : serveStep s (.sendto r) = some s') : s.Advances none s' := by
  simp only [serveStep, hpoint] at hstep
  cases contents with
  | nil =>
    simp only [sendAll, getMessage_of_nil h.queue, Option.bind_eq_bind, Option.bind_some] at hstep
    obtain rfl := Option.some.inj hstep
    exact h.advances s.stop_sameData (Or.inr rfl)
  | cons e contents =>
    have hout := sendAll_outcome h r fun n clock hr => by
      obtain ⟨got, hget, hentry, -⟩ := getMessage_of_cons h.queue
      rw [← GotMessage.size_of_entry hentry]
      exact hwhole n clock (by rw [hr]) got hget
    revert hout hstep
    generalize sendAll s r = r'
    intro hstep hout
    cases hout with
    | kept hturn =>
      rcases hturn with ⟨-, rfl⟩ | ⟨-, rfl⟩
      · obtain rfl := Option.some.inj hstep
        exact h.advances s.afterSending_spec.1 (Or.inl s.afterSending_spec.2)
      · obtain rfl := Option.some.inj hstep
        exact h.advances s.stop_sameData (Or.inr rfl)
    | @sent n clock hr queue sends hs' turn hturn =>
      rcases hturn with rfl | ⟨rfl, -⟩
      · obtain rfl := Option.some.inj hstep
        obtain ⟨hsame, hready⟩ :=
          { s with sent := s.sent ++ [e], queue, sends }.continueSending_spec
        exact ⟨contents, hs'.of_sameData hsame, Or.inl ⟨hready, by simp [hsame.queued]⟩⟩
      · obtain rfl := Option.some.inj hstep
        exact hs'.advances_stop (by simp)

/-- What one step does to the data and to the datagrams on record, and where it leads. -/
theorem serveStep_inOrder (h : s.InOrder contents) {i : SystemResult}
    (hwhole : s.WholeDatagrams i) (hstep : serveStep s i = some s') :
    s.Advances i.datagram s' := by
  have hkeep : ∀ {t : Server}, s.SameData t → t.Ready ∨ t.point = .returned → some t = some s' →
      s.Advances none s' := by
    rintro t hsame hpoint ht
    obtain rfl := Option.some.inj ht
    exact h.advances hsame hpoint
  have hstep' := hstep
  unfold serveStep at hstep'
  split at hstep'
  · rename_i dump r hpoint
    obtain ⟨s₁, hs₁, hsame, hready⟩ := serveStep_select hpoint dump r
    exact hkeep hsame (hready.imp_right And.left) (hs₁.symm.trans hstep)
  · rename_i r hpoint
    cases r with
    | again => exact hkeep s.startReading_spec.1 (Or.inl s.startReading_spec.2) hstep'
    | failed => exact hkeep s.stop_sameData (Or.inr rfl) hstep'
    | datagram d clock => exact h.advances_datagram hpoint hstep
  · split at hstep'
    · exact hkeep s.stop_sameData (Or.inr rfl) hstep'
    · exact hkeep s.startSending_spec.1 (Or.inl s.startSending_spec.2) hstep'
  · rename_i r hpoint
    exact h.advances_sendto hpoint hwhole hstep
  · exact absurd hstep' (by simp)

theorem datagrams_append_singleton (is : List SystemResult) (i : SystemResult) :
    datagrams (is ++ [i]) = datagrams is ++ i.datagram.toList := by
  cases hi : i.datagram <;> simp [datagrams, hi]

/-- `serve` makes no system call after it has returned. -/
theorem point_of_serveStep {i : SystemResult} (hstep : serveStep s i = some s') :
    s.point ≠ .returned := by
  intro hpoint
  simp [serveStep, hpoint] at hstep

/-- A server that has just been started, with a small queue. -/
def freshServer : Server :=
  .initial ⟨List.replicate receiveBufferSize 0, []⟩ ⟨List.replicate sendBufferSize 0, []⟩
    ⟨4096, ⟨List.replicate 4096 0, []⟩, 0, 0⟩ none none

/-- The same server in front of its first call of `recvfrom`. -/
def receivingServer : Server :=
  { freshServer with readStdin := false, writeSocket := false, point := .receiving }

theorem makeMessageQueue_freshServer :
    makeMessageQueue .zeroed 4096 = some freshServer.queue := rfl

theorem size_recvBuffer_freshServer : freshServer.recvBuffer.size = receiveBufferSize :=
  List.length_replicate

theorem size_sendBuffer_freshServer : freshServer.sendBuffer.size = sendBufferSize :=
  List.length_replicate

theorem inOrder_receivingServer : receivingServer.InOrder [] :=
  (Server.inOrder_initial size_recvBuffer_freshServer size_sendBuffer_freshServer
    makeMessageQueue_freshServer none none).of_sameData ⟨rfl, rfl, rfl, rfl, rfl⟩

end DnsTools
