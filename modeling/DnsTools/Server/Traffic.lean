import DnsTools.Server.ServeStep

/-!
# Runs with traffic

`serve` in surroundings in which nothing fails but what a datagram makes fail. `Server.Fair` says
what these surroundings may answer to each call. Whether `sendto` succeeds is a matter of two
things: the message has to be a payload of UDP, and the address has to be one that `sendto`
accepts. Which addresses these are is a parameter, `accepts`: on Linux a datagram may come from UDP
port 0, and the answer to it fails with `EINVAL`. `HasPort` is this one case.

In such surroundings the server can be followed through any amount of traffic, as long as the queue
has room: it takes in any list of datagrams that have answers, and sends any number of the answers.

## Main results

* `Server.InOrder.step_datagram`, `Server.InOrder.step_sendto` — a datagram taken in, an answer sent
* `Server.InOrder.exists_run_received`, `Server.InOrder.exists_run_sent` — as many as one likes
* `exists_run_traffic` — from the first call of `pselect` on
-/

namespace DnsTools

open Memory

/-! ### Surroundings in which nothing else fails -/

/-- What `sendto` takes. -/
structure Entry.Sendable (accepts : List UInt8 → Prop) (e : Entry) : Prop where
  /-- The message is a payload of UDP over IPv4, -/
  small : e.message.length ≤ maxUdpPayload
  /-- and the address is one that `sendto` accepts. -/
  address : accepts e.address

/-- The address, a `struct sockaddr_in`, has a port. -/
def HasPort (address : List UInt8) : Prop := Block.halfWord address 2 ≠ 0

instance : DecidablePred HasPort := fun _ => inferInstanceAs (Decidable (_ ≠ _))

/-- The queue has room for an answer to the datagram. -/
def Server.HasRoom (s : Server) (d : Datagram) : Prop :=
  ∀ e : Entry, e.address = d.address → e.message.length ≤ d.bytes.length + 16 →
    ∃ queue, pushMessage s.queue e = some (0, queue)

/-- Nothing fails but what a datagram makes fail: `sendto` refuses a message that is no payload of
UDP or is for an address that it does not accept, and no other. Nobody stops the server at its
stdin, and the queue has room. -/
def Server.Fair (accepts : List UInt8 → Prop) (s : Server) : SystemResult → Prop
  | .select dump r => s.point = .selecting ∧ dump ≠ some false ∧ r ≠ .failed
  | .recvfrom (.datagram d clock) => s.point = .receiving ∧ clock ≠ none ∧ s.HasRoom d
  | .recvfrom .again => s.point = .receiving
  | .recvfrom .failed => False
  | .fread chunks again => s.point = .reading ∧ checkIntCode chunks again = 0
  | .sendto (.returned n clock) => s.point = .sending ∧ clock ≠ none ∧
      ∀ got, getMessage s.queue = some (some got) → n = got.size ∧
        ∀ e, got.entry s.queue.buffer = some e → e.Sendable accepts
  | .sendto .again => s.point = .sending
  | .sendto .failed => s.point = .sending ∧
      ∀ got e, getMessage s.queue = some (some got) → got.entry s.queue.buffer = some e →
        ¬e.Sendable accepts

variable {accepts : List UInt8 → Prop} {s s' : Server} {contents es rest replies : List Entry}
  {i : SystemResult} {ds : List Datagram}

theorem Server.Fair.wholeDatagrams (h : s.Fair accepts i) : s.WholeDatagrams i := by
  rintro n clock rfl got hget
  exact (h.2.2 got hget).1

theorem Server.Fair.point_ne_returned (h : s.Fair accepts i) : s.point ≠ .returned := by
  intro hpoint
  rcases i with ⟨dump, r⟩ | ⟨d, clock⟩ | ⟨chunks, again⟩ | ⟨n, clock⟩ <;>
    simp [Fair, hpoint] at h

/-- The oldest answer may be sent, if `sendto` takes it. -/
theorem Server.InOrder.fair_sendto {e : Entry} (h : s.InOrder (e :: contents))
    (hpoint : s.point = .sending) (hsendable : e.Sendable accepts) (now : Timespec) :
    s.Fair accepts (.sendto (.returned e.message.length (some now))) := by
  refine ⟨hpoint, by simp, fun got hget => ?_⟩
  obtain ⟨got', hget', hentry, -⟩ := getMessage_of_cons h.queue
  obtain rfl := Option.some.inj (Option.some.inj (hget.symm.trans hget'))
  refine ⟨(GotMessage.size_of_entry hentry).symm, fun e' hentry' => ?_⟩
  exact Option.some.inj (hentry.symm.trans hentry') ▸ hsendable

/-! ### One datagram -/

/-- The answer to a datagram goes into the queue, if there is room. -/
theorem Server.InOrder.step_datagram (h : s.InOrder contents) {d : Datagram}
    {clock : Option Timespec} (hfair : s.Fair accepts (.recvfrom (.datagram d clock)))
    {m : List UInt8} (hm : answerFor d.bytes = some m) :
    ∃ recvBuffer sendBuffer queue receives,
      serveStep s (.recvfrom (.datagram d clock))
        = some (s.answered d recvBuffer sendBuffer queue receives) ∧
      (s.answered d recvBuffer sendBuffer queue receives).InOrder
        (contents ++ [{ address := d.address, message := m }]) ∧
      pushMessage s.queue { address := d.address, message := m } = some (0, queue) := by
  obtain ⟨hpoint, hclock, hroom⟩ := hfair
  have hout := recvAll_outcome h d clock
  revert hout
  generalize hrecv : recvAll s (.datagram d clock) = r
  intro hout
  cases hout with
  | @queued m' hanswer _ _ _ _ hpush hs' _ hturn =>
    obtain rfl := Option.some.inj (hm.symm.trans hanswer)
    rcases hturn with rfl | ⟨-, hnone⟩
    · exact ⟨_, _, _, _, by simp [serveStep, hpoint, hrecv], hs', hpush⟩
    · exact absurd hnone hclock
  | @refused m' hanswer queue hpush =>
    obtain ⟨queue', hpush'⟩ := hroom ⟨d.address, m'⟩ rfl (length_of_answerFor hanswer).2
    rw [hpush] at hpush'
    simp at hpush'
  | unanswered hanswer => exact absurd (hm.symm.trans hanswer) (by simp)
  | undefined hanswer => exact absurd (hm.symm.trans hanswer) (by simp)

/-- The oldest answer is sent. -/
theorem Server.InOrder.step_sendto {e : Entry} (h : s.InOrder (e :: contents)) {n : ℕ}
    {clock : Option Timespec} (hfair : s.Fair accepts (.sendto (.returned n clock))) :
    ∃ queue sends, serveStep s (.sendto (.returned n clock))
        = some { s with sent := s.sent ++ [e], queue, sends }.continueSending ∧
      { s with sent := s.sent ++ [e], queue, sends }.InOrder contents := by
  have hwhole := hfair.wholeDatagrams
  obtain ⟨hpoint, hclock, -⟩ := hfair
  have hout := sendAll_outcome h (.returned n clock) fun n' clock' hr => by
    obtain ⟨got, hget, hentry, -⟩ := getMessage_of_cons h.queue
    injection hr with hn
    rw [← GotMessage.size_of_entry hentry, ← hn]
    exact hwhole n clock rfl got hget
  revert hout
  generalize hsend : sendAll s (.returned n clock) = r'
  intro hout
  cases hout with
  | kept hturn => simp at hturn
  | @sent n' clock' hr queue sends hs' turn hturn =>
    injection hr with _ hclock'
    rcases hturn with rfl | ⟨-, hnone⟩
    · exact ⟨queue, sends, by simp only [serveStep, hpoint, hsend]; rfl, hs'⟩
    · exact absurd (hclock'.trans hnone) hclock

/-! ### Any number of datagrams

Nothing has been taken out of the queue while the datagrams come in, so its head is where it was,
and there is room as long as the records, one behind the other, do not reach the end of the
buffer. -/

/-- The bytes of the queue that an answer to the datagram may need. -/
def Datagram.room (d : Datagram) : ℕ := d.address.length + d.bytes.length + 29

theorem Server.InOrder.hasRoom (h : s.InOrder contents) (hhead : s.queue.head = 0) {d : Datagram}
    (hroom : (encodeAll contents).length + d.room < s.queue.size) : s.HasRoom d := by
  intro e haddress hmessage
  have hbytes := d.bytes_le
  have haddress' := d.address_le
  rw [maxUdpPayload] at hbytes
  have hfits : e.Fits := by
    constructor
    · rw [haddress]
      omega
    · simp only [haddress, sizeofSocklen, sizeofSize, sizeModulus]
      omega
  have hlength := e.length_encode
  simp only [haddress, sizeofSocklen, sizeofSize] at hlength
  rw [Datagram.room] at hroom
  -- the records begin at the start of the buffer
  have htail : s.queue.tail = (encodeAll contents).length := by
    rcases h.queue.layout with hflat | ⟨old, new, -, hwrapped⟩
    · rw [hflat.tail_eq, hhead, Nat.zero_add]
    · exact absurd hwrapped.tail_lt (by omega)
  obtain ⟨r, queue, hpush, hout⟩ := pushMessage_outcome h.queue hfits
  cases hout with
  | gapFull hlt => omega
  | gap hlt => omega
  | back => exact ⟨_, hpush⟩
  | backFull hle hfull => omega
  | flagged hle hfull => omega
  | wrapped hle hfull => omega

/-- Pushing leaves the head and the size of the queue. -/
theorem Server.InOrder.pushed (h : s.InOrder contents) {e : Entry} (hfits : e.Fits) {r : ℤ}
    {queue : MessageQueue} (hpush : pushMessage s.queue e = some (r, queue)) :
    queue.head = s.queue.head ∧ queue.size = s.queue.size := by
  obtain ⟨r', queue', hpush', hout⟩ := pushMessage_outcome h.queue hfits
  obtain ⟨-, rfl⟩ := Prod.mk.inj (Option.some.inj (hpush.symm.trans hpush'))
  exact ⟨by cases hout <;> rfl, hout.size⟩

/-- These datagrams have been taken in, and nothing else has changed for the program. -/
structure Server.TakesIn (s : Server) (ds : List Datagram) (s' : Server) : Prop where
  /-- `recv_all` goes on. -/
  point : s'.point = .receiving
  /-- The interest in stdin is the same. -/
  readStdin : s'.readStdin = s.readStdin
  /-- So is that in writing -/
  writeSocket : s'.writeSocket = s.writeSocket
  /-- and the pointer to its set. -/
  pwritefds : s'.pwritefds = s.pwritefds
  /-- The datagrams are on record. -/
  queued : s'.queued = s.queued ++ ds
  /-- Nothing has been sent. -/
  sent : s'.sent = s.sent

/-- The calls in which these datagrams come in. -/
def receiving (ds : List Datagram) (now : Timespec) : List SystemResult :=
  ds.map fun d => .recvfrom (.datagram d (some now))

/-- The calls in which these answers are sent. -/
def sending (es : List Entry) (now : Timespec) : List SystemResult :=
  es.map fun e => .sendto (.returned e.message.length (some now))

/-- **Any number of datagrams** that have answers come in, as long as there is room for these. -/
theorem Server.InOrder.exists_run_received (h : s.InOrder contents) (hpoint : s.point = .receiving)
    (hhead : s.queue.head = 0) (hreplies : ds.map Datagram.reply = replies.map some)
    (hroom : (encodeAll contents).length + (ds.map Datagram.room).sum < s.queue.size)
    (now : Timespec) :
    ∃ s', Run serveStep (Server.Fair accepts) s (receiving ds now) s' ∧
      s'.InOrder (contents ++ replies) ∧ s.TakesIn ds s' := by
  induction ds generalizing s contents replies with
  | nil =>
    obtain rfl : replies = [] := by simpa using hreplies.symm
    refine ⟨s, .nil s, by rwa [List.append_nil], ⟨hpoint, rfl, rfl, rfl, ?_, rfl⟩⟩
    rw [List.append_nil]
  | cons d ds ih =>
    rcases replies with _ | ⟨e, replies⟩
    · simp at hreplies
    rw [List.map_cons, List.map_cons, List.cons.injEq] at hreplies
    obtain ⟨hreply, hreplies⟩ := hreplies
    obtain ⟨m, hanswer, rfl⟩ := Option.map_eq_some_iff.mp hreply
    rw [List.map_cons, List.sum_cons] at hroom
    have hfair : s.Fair accepts (.recvfrom (.datagram d (some now))) :=
      ⟨hpoint, by simp, h.hasRoom hhead (by omega)⟩
    obtain ⟨recvBuffer, sendBuffer, queue, receives, hstep, horder, hpush⟩ :=
      h.step_datagram hfair hanswer
    obtain ⟨hhead', hsize'⟩ := h.pushed (d.fits hanswer) hpush
    have hlength := (length_of_answerFor hanswer).2
    have hencoded := (Entry.mk d.address m).length_encode
    simp only [sizeofSocklen, sizeofSize] at hencoded
    obtain ⟨s', hrun, horder', htaken⟩ := ih horder hpoint (hhead'.trans hhead) hreplies (by
      simp only [Server.answered, encodeAll_append, encodeAll_cons, encodeAll_nil, hsize',
        List.append_nil, List.length_append, hencoded]
      rw [Datagram.room] at hroom
      omega)
    refine ⟨s', .cons hfair hstep hrun, ?_, ?_⟩
    · rwa [List.append_assoc] at horder'
    · refine ⟨htaken.point, htaken.readStdin, htaken.writeSocket, htaken.pwritefds, ?_, htaken.sent⟩
      rw [htaken.queued, Server.answered, List.append_assoc]
      rfl

/-- **Any number of answers** are sent, if `sendto` takes them. -/
theorem Server.InOrder.exists_run_sent (h : s.InOrder (es ++ rest)) (hpoint : s.point = .sending)
    (hrest : rest ≠ []) (hsendable : ∀ e ∈ es, e.Sendable accepts) (now : Timespec) :
    ∃ s', Run serveStep (Server.Fair accepts) s (sending es now) s' ∧ s'.InOrder rest ∧
      s'.point = .sending ∧ s'.queued = s.queued ∧ s'.sent = s.sent ++ es := by
  induction es generalizing s with
  | nil => exact ⟨s, .nil s, h, hpoint, rfl, (List.append_nil _).symm⟩
  | cons e es ih =>
    have hfair := h.fair_sendto hpoint (hsendable e List.mem_cons_self) now
    obtain ⟨queue, sends, hstep, horder⟩ := h.step_sendto hfair
    obtain ⟨hsame, -⟩ := Server.continueSending_spec
      { s with sent := s.sent ++ [e], queue, sends }
    have hmore : isQueueEmpty queue = false := by
      rw [← Bool.not_eq_true, horder.queue.isQueueEmpty_iff]
      simp [hrest]
    have hpoint' : ({ s with sent := s.sent ++ [e], queue, sends } :
        Server).continueSending.point = .sending := by
      simp [Server.continueSending, hmore]
    obtain ⟨s', hrun, horder', hpoint'', hqueued, hsent⟩ := ih (horder.of_sameData hsame) hpoint'
      fun e' he' => hsendable e' (List.mem_cons_of_mem _ he')
    refine ⟨s', .cons hfair hstep hrun, horder', hpoint'', hqueued.trans hsame.queued, ?_⟩
    rw [hsent, hsame.sent, List.append_assoc]
    rfl

/-! ### From the first call on -/

/-- When the server has nothing more to receive, it waits until it can send. -/
theorem serveStep_again (hpoint : s.point = .receiving) (hstdin : s.readStdin = false)
    (hwrite : s.writeSocket = false) (hboth : s.pwritefds = true) :
    serveStep s (.recvfrom .again)
      = some { s with readStdin := true, writeSocket := true, point := .selecting } := by
  simp [serveStep, hpoint, recvAll, Server.startReading, hstdin, Server.startSending, hboth,
    hwrite]

/-- Then it sends. -/
theorem serveStep_writable (hpoint : s.point = .selecting) (hempty : isQueueEmpty s.queue = false) :
    serveStep s (.select none (.ready false false true))
      = some { s with readSocket := true, readStdin := true, writeSocket := true
                      pwritefds := true, point := .sending } := by
  simp [serveStep, hpoint, Server.dumpTimestamps, Server.prepareSelect, hempty,
    Server.afterSelect, Server.startReceiving, Server.startReading, Server.startSending,
    Server.continueSending]

/-- The calls in which the datagrams come in until there are no more for now, and then the answers
are sent until the network takes no more for now. -/
def traffic (ds : List Datagram) (es : List Entry) (now : Timespec) : List SystemResult :=
  [.select none (.ready true false false)] ++ receiving ds now ++
    [.recvfrom .again, .select none (.ready false false true)] ++ sending es now ++ [.sendto .again]

/-- **Traffic.** From its first call of `pselect` on, the server takes in any list of datagrams that
have answers and room in the queue, and then sends any number of the answers but the last. -/
theorem exists_run_traffic {malloc : Malloc} {size : ℕ} {recvBuffer sendBuffer : Block}
    {queue : MessageQueue} (hrecv : recvBuffer.size = receiveBufferSize)
    (hsend : sendBuffer.size = sendBufferSize) (hqueue : makeMessageQueue malloc size = some queue)
    (receives sends : Option (List Timespec))
    (hreplies : ds.map Datagram.reply = (es ++ rest).map some)
    (hroom : (ds.map Datagram.room).sum < size) (hrest : rest ≠ [])
    (hsendable : ∀ e ∈ es, e.Sendable accepts) (now : Timespec) :
    ∃ s, Run serveStep (Server.Fair accepts)
        (Server.initial recvBuffer sendBuffer queue receives sends) (traffic ds es now) s ∧
      s.queued = ds ∧ s.sent = es ∧ s.InOrder rest ∧ s.point = .selecting := by
  have hstart := Server.inOrder_initial hrecv hsend hqueue receives sends
  obtain ⟨buffer, -, rfl⟩ := Option.map_eq_some_iff.mp hqueue
  -- the socket is readable
  have hfirst : serveStep (Server.initial recvBuffer sendBuffer ⟨size, buffer, 0, 0⟩ receives sends)
      (.select none (.ready true false false)) = some
        { Server.initial recvBuffer sendBuffer ⟨size, buffer, 0, 0⟩ receives sends with
          readStdin := false, point := .receiving } := rfl
  have hreceiving : Server.InOrder
      { Server.initial recvBuffer sendBuffer ⟨size, buffer, 0, 0⟩ receives sends with
        readStdin := false, point := .receiving } [] := hstart.of_sameData ⟨rfl, rfl, rfl, rfl, rfl⟩
  obtain ⟨s₁, hreceived, horder₁, htaken⟩ : ∃ s', Run serveStep (Server.Fair accepts) _ _ s' ∧ _ :=
    hreceiving.exists_run_received rfl rfl hreplies
      (by rwa [encodeAll_nil, List.length_nil, Nat.zero_add]) now
  have hagain := serveStep_again htaken.point htaken.readStdin htaken.writeSocket htaken.pwritefds
  -- it is writable, and there is something to send
  have hempty : isQueueEmpty s₁.queue = false := by
    rw [← Bool.not_eq_true, horder₁.queue.isQueueEmpty_iff]
    simp [hrest]
  have hwritable := serveStep_writable
    (s := { s₁ with readStdin := true, writeSocket := true, point := .selecting }) rfl hempty
  have hsending : Server.InOrder { s₁ with
      readSocket := true, readStdin := true, writeSocket := true, pwritefds := true
      point := .sending } (es ++ rest) := horder₁.of_sameData ⟨rfl, rfl, rfl, rfl, rfl⟩
  obtain ⟨s₂, hsent, horder₂, hpoint₂, hqueued, hsentList⟩ :=
    hsending.exists_run_sent rfl hrest hsendable now
  obtain ⟨e, rest', rfl⟩ := List.exists_cons_of_ne_nil hrest
  obtain ⟨got, hget, hentry, -⟩ := getMessage_of_cons horder₂.queue
  have hfull : serveStep s₂ (.sendto .again) = some s₂.afterSending := by
    simp [serveStep, hpoint₂, sendAll, hget, hentry]
  have hempty₂ : isQueueEmpty s₂.queue = false := by
    simpa using horder₂.queue.isQueueEmpty_iff
  obtain ⟨hsame, -⟩ := s₂.afterSending_spec
  refine ⟨s₂.afterSending, ?_, ?_, ?_, horder₂.of_sameData hsame, ?_⟩
  · refine .append (.append (.append (.append (.single ⟨rfl, by simp, by simp⟩ hfirst)
      hreceived) ?_) hsent) (.single hpoint₂ hfull)
    exact .cons htaken.point hagain (.single ⟨rfl, by simp, by simp⟩ hwritable)
  · exact hsame.queued.trans (hqueued.trans htaken.queued)
  · exact hsame.sent.trans (hsentList.trans (by rw [htaken.sent]; rfl))
  · simp [Server.afterSending, hempty₂]

/-- The calls in which this answer is sent when the network takes it. -/
def sendingOne (e : Entry) (now : Timespec) : List SystemResult :=
  [.select none (.ready false false true), .sendto (.returned e.message.length (some now))]

/-- **One more answer** is sent, when the server is told that it can write. -/
theorem Server.InOrder.exists_run_one {e : Entry} (h : s.InOrder (e :: rest))
    (hpoint : s.point = .selecting) (hsendable : e.Sendable accepts) (now : Timespec) :
    ∃ s', Run serveStep (Server.Fair accepts) s (sendingOne e now) s' ∧ s'.sent = s.sent ++ [e] ∧
      s'.queued = s.queued ∧ s'.InOrder rest := by
  have hempty : isQueueEmpty s.queue = false := by
    rw [← Bool.not_eq_true, h.queue.isQueueEmpty_iff]
    simp
  have hwritable := serveStep_writable hpoint hempty
  have hsending : Server.InOrder { s with
      readSocket := true, readStdin := true, writeSocket := true, pwritefds := true
      point := .sending } (e :: rest) := h.of_sameData ⟨rfl, rfl, rfl, rfl, rfl⟩
  have hfair := hsending.fair_sendto rfl hsendable now
  obtain ⟨queue, sends, hsent, horder⟩ := hsending.step_sendto hfair
  obtain ⟨hsame, -⟩ := Server.continueSending_spec { s with
      readSocket := true, readStdin := true, writeSocket := true, pwritefds := true
      point := .sending, sent := s.sent ++ [e], queue, sends }
  refine ⟨_, .cons ⟨hpoint, by simp, by simp⟩ hwritable (.single hfair hsent), hsame.sent,
    hsame.queued, horder.of_sameData hsame⟩

/-! ### Three datagrams -/

/-- The local address with this port. -/
def clientAddress (hi lo : UInt8) : List UInt8 :=
  [2, 0, hi, lo, 127, 0, 0, 1, 0, 0, 0, 0, 0, 0, 0, 0]

theorem length_clientAddress (hi lo : UInt8) : (clientAddress hi lo).length ≤ 128 :=
  show 16 ≤ 128 by decide

/-- A client. -/
def localAddress : List UInt8 := clientAddress 0x9c 0x40

theorem length_localAddress : localAddress.length ≤ 128 := length_clientAddress ..

/-- A query for an IPv4 address, one for an IPv6 address from elsewhere, and again one for an IPv4
address, with an OPT record. -/
def threeDatagrams : List Datagram :=
  [⟨[0x12, 0x34, 1, 0, 0, 1, 0, 0, 0, 0, 0, 0, 1, 97, 0, 0, 1, 0, 1], localAddress, by decide,
      length_localAddress⟩,
    ⟨[0, 1, 1, 0, 0, 1, 0, 0, 0, 0, 0, 0, 1, 98, 0, 0, 28, 0, 1], clientAddress 0x9c 0x41,
      by decide, length_clientAddress ..⟩,
    ⟨[0, 1, 1, 0, 0, 1, 0, 0, 0, 0, 0, 1, 1, 97, 1, 98, 0, 0, 1, 0, 1, 0, 0, 41, 16, 0, 0, 0, 0, 0,
        0, 0], localAddress, by decide, length_localAddress⟩]

/-- The replies to them. -/
def threeReplies : List Entry := threeDatagrams.filterMap Datagram.reply

/-- They come in, and the first of the replies is sent. -/
theorem exists_run_threeDatagrams {malloc : Malloc} {size : ℕ} {recvBuffer sendBuffer : Block}
    {queue : MessageQueue} (hrecv : recvBuffer.size = receiveBufferSize)
    (hsend : sendBuffer.size = sendBufferSize) (hqueue : makeMessageQueue malloc size = some queue)
    (hroom : (threeDatagrams.map Datagram.room).sum < size)
    (receives sends : Option (List Timespec)) : ∃ s,
    Run serveStep (Server.Fair HasPort)
        (.initial recvBuffer sendBuffer queue receives sends)
        (traffic threeDatagrams (threeReplies.take 1) ⟨1, 0⟩) s ∧
      s.queued = threeDatagrams ∧ s.sent = threeReplies.take 1 ∧
      s.InOrder (threeReplies.drop 1) ∧ s.point = .selecting := by
  refine exists_run_traffic hrecv hsend hqueue receives sends ?_ hroom (by decide) ?_ ⟨1, 0⟩
  · rw [List.take_append_drop]
    rfl
  · intro e he
    obtain rfl := List.mem_singleton.mp (show e ∈ [_] from he)
    exact ⟨by decide, by decide⟩

/-- A server that has just been started takes them in. -/
theorem exists_run_freshServer (receives sends : Option (List Timespec)) : ∃ s,
    Run serveStep (Server.Fair HasPort)
        (.initial freshServer.recvBuffer freshServer.sendBuffer freshServer.queue receives sends)
        (traffic threeDatagrams (threeReplies.take 1) ⟨1, 0⟩) s ∧
      s.queued = threeDatagrams ∧ s.sent = threeReplies.take 1 ∧
      s.InOrder (threeReplies.drop 1) ∧ s.point = .selecting :=
  exists_run_threeDatagrams size_recvBuffer_freshServer size_sendBuffer_freshServer
    makeMessageQueue_freshServer (by decide) receives sends

end DnsTools
