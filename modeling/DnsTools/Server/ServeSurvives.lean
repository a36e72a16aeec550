import DnsTools.Server.Traffic

/-!
# Which datagrams stop the server

Every error of `make_answer` goes through `recv_all` to the end of `serve`, and so does every error
of `sendto`. A datagram is `Answerable` if it is long enough for the header, and either the header
alone gets it refused, or the question ends within the datagram and the answer, if it is the
positive one, is still a payload of UDP. That is a matter of its bytes. The answer goes back to
where the datagram came from, and `sendto` does not take every address from which a datagram can
come; so the address counts as well.

## What is assumed

In the runs considered nothing fails for any other reason (`Server.Fair`): the queue has room,
`pselect` and the clock work, and nobody stops the server at its stdin. Which addresses `sendto`
accepts is left open. The result holds for whatever set of addresses that is.

## Main results

* `answerable_iff` — which datagrams have an answer that is a payload of UDP
* `serveStep_progress` — nothing else stops the server
* `serve_survives_iff` — the datagrams that stop it
-/

namespace DnsTools

open Memory

/-- The datagram gets an answer, and the answer can be sent. -/
def Answerable (d : List UInt8) : Prop :=
  sizeofDnsQuery ≤ d.length ∧ (headerRefused d ∨
    ∃ n, nameLength d = some n ∧ questionEnd n ≤ d.length ∧
      (Block.halfWord d (sizeofDnsQuery + (n + 1)) ≠ 0x100 ∨ d.length + 16 ≤ maxUdpPayload))

theorem answerable_iff {d : List UInt8} (hd : d.length ≤ maxUdpPayload) :
    Answerable d ↔ ∃ m, answerFor d = some m ∧ m.length ≤ maxUdpPayload := by
  by_cases hlong : sizeofDnsQuery ≤ d.length
  · have hrefusal := length_refusal hlong
    by_cases hheader : headerRefused d
    · have hanswer : answerFor d = some (refusal d) := by
        rw [answerFor, if_neg (Nat.not_lt.mpr hlong), if_pos hheader]
      exact ⟨fun _ => ⟨_, hanswer, by omega⟩, fun _ => ⟨hlong, Or.inl hheader⟩⟩
    cases hname : nameLength d with
    | none =>
      have hanswer : answerFor d = none := by
        rw [answerFor, if_neg (Nat.not_lt.mpr hlong), if_neg hheader, hname]
      simp [Answerable, hheader, hname, hanswer]
    | some n =>
      rw [answerFor_of_nameLength hlong hheader hname]
      simp only [Answerable, hlong, hheader, hname, true_and, false_or, Option.some.injEq,
        exists_eq_left']
      by_cases hend : questionEnd n ≤ d.length
      · have hpositive := length_positiveAnswer hend
        rw [if_neg (Nat.not_lt.mpr hend)]
        split
        · rename_i hqtype
          exact ⟨fun _ => ⟨_, rfl, by omega⟩, fun _ => ⟨hend, Or.inl hqtype⟩⟩
        · rename_i hqtype
          constructor
          · rintro ⟨-, htype | hle⟩
            · exact absurd htype hqtype
            · exact ⟨_, rfl, by omega⟩
          · rintro ⟨m, hm, hle⟩
            rw [← Option.some.inj hm] at hle
            exact ⟨hend, Or.inr (by omega)⟩
      · simp [hend, Nat.not_le.mp hend]
  · simp [Answerable, answerFor, hlong, Nat.not_le.mp hlong]

/-- `serve` runs on, and every answer made so far can be sent. -/
def Server.Survives (accepts : List UInt8 → Prop) (s : Server) : Prop :=
  s.point ≠ .returned ∧ ∀ d ∈ s.queued, ∀ e, d.reply = some e → e.Sendable accepts

variable {accepts : List UInt8 → Prop} {s s' : Server} {contents : List Entry} {i : SystemResult}

/-- The answers in the queue are answers to datagrams on record. -/
theorem Server.InOrder.exists_of_mem (h : s.InOrder contents) {e : Entry} (he : e ∈ contents) :
    ∃ d ∈ s.queued, d.reply = some e := by
  have hmem : some e ∈ s.queued.map Datagram.reply := by
    rw [h.order]
    exact List.mem_map_of_mem (List.mem_append_right _ he)
  exact List.mem_map.mp hmem

/-- Every datagram on record has an answer. -/
theorem Server.InOrder.exists_answer (h : s.InOrder contents) {d : Datagram} (hd : d ∈ s.queued) :
    ∃ m, answerFor d.bytes = some m := by
  have hmem := List.mem_map_of_mem (f := Datagram.reply) hd
  rw [h.order] at hmem
  obtain ⟨e, -, he⟩ := List.mem_map.mp hmem
  obtain ⟨m, hanswer, -⟩ := Option.map_eq_some_iff.mp he.symm
  exact ⟨m, hanswer⟩

/-- A call of `sendto` does not stop the server, if what is in the queue can be sent. -/
theorem Server.InOrder.progress_sendto (h : s.InOrder contents) (hready : s.Ready)
    {r : SendResult} (hfair : s.Fair accepts (.sendto r))
    (hsendable : ∀ e ∈ contents, e.Sendable accepts) :
    ∃ s', serveStep s (.sendto r) = some s' ∧ s'.point ≠ .returned := by
  have hpoint : s.point = .sending := by
    cases r with
    | again => exact hfair
    | failed => exact hfair.1
    | returned n clock => exact hfair.1
  cases contents with
  | nil =>
    have hempty := hready.sending hpoint
    rw [h.queue.isQueueEmpty_iff.mpr rfl] at hempty
    exact absurd hempty (by simp)
  | cons e contents =>
    obtain ⟨got, hget, hentry, -⟩ := getMessage_of_cons h.queue
    cases r with
    | again =>
      refine ⟨s.afterSending, ?_, s.afterSending_spec.2.point⟩
      simp [serveStep, hpoint, sendAll, hget, hentry]
    | failed => exact absurd (hsendable e List.mem_cons_self) (hfair.2 got e hget hentry)
    | returned n clock =>
      obtain ⟨queue, sends, hstep, -⟩ := h.step_sendto hfair
      exact ⟨_, hstep, (Server.continueSending_spec _).2.point⟩

/-- Nothing stops the server as long as what is in the queue can be sent and what arrives can be
answered. -/
theorem serveStep_progress (h : s.InOrder contents) (hready : s.Ready) (hfair : s.Fair accepts i)
    (hsendable : ∀ e ∈ contents, e.Sendable accepts)
    (hanswer : ∀ d, i.datagram = some d → ∃ m, answerFor d.bytes = some m) :
    ∃ s', serveStep s i = some s' ∧ s'.point ≠ .returned := by
  cases i with
  | select dump r =>
    obtain ⟨hpoint, hdump, hr⟩ := hfair
    obtain ⟨s', hstep, -, hready' | ⟨-, hfailed | hfailed⟩⟩ := serveStep_select hpoint dump r
    · exact ⟨s', hstep, hready'.point⟩
    · exact absurd hfailed hdump
    · exact absurd hfailed hr
  | fread chunks again =>
    obtain ⟨hpoint, hcode⟩ := hfair
    refine ⟨s.startSending, ?_, s.startSending_spec.2.point⟩
    simp [serveStep, hpoint, hcode]
  | recvfrom r =>
    cases r with
    | failed => exact absurd hfair id
    | again =>
      have hpoint : s.point = .receiving := hfair
      exact ⟨s.startReading, by simp [serveStep, hpoint, recvAll], s.startReading_spec.2.point⟩
    | datagram d clock =>
      obtain ⟨m, hm⟩ := hanswer d rfl
      obtain ⟨_, _, _, _, hstep, -⟩ := h.step_datagram hfair hm
      exact ⟨_, hstep, by simp [Server.answered, hfair.1]⟩
  | sendto r => exact h.progress_sendto hready hfair hsendable

/-- What holds after every step of a fair run. -/
structure Server.Answering (s : Server) (is : List SystemResult) : Prop where
  /-- The data are in order. -/
  inOrder : ∃ contents, s.InOrder contents
  /-- Unless it has returned, `serve` runs on with everything that came in on record. -/
  running : s.point ≠ .returned → s.Ready ∧ s.queued = datagrams is

theorem Server.Answering.step {is : List SystemResult} (h : s.Answering is)
    (hfair : s.Fair accepts i)
    (hstep : serveStep s i = some s') : s'.Answering (is ++ [i]) := by
  obtain ⟨contents, horder⟩ := h.inOrder
  obtain ⟨-, hqueued⟩ := h.running hfair.point_ne_returned
  obtain ⟨contents', horder', hrecord⟩ := serveStep_inOrder horder hfair.wholeDatagrams hstep
  refine ⟨⟨contents', horder'⟩, fun hpoint => ?_⟩
  rcases hrecord with ⟨hready, hrecord⟩ | ⟨hreturned, -⟩
  · exact ⟨hready, by rw [hrecord, hqueued, datagrams_append_singleton]⟩
  · exact absurd hreturned hpoint

theorem Server.answering_of_run {malloc : Malloc} {size : ℕ} {recvBuffer sendBuffer : Block}
    {queue : MessageQueue} (hrecv : recvBuffer.size = receiveBufferSize)
    (hsend : sendBuffer.size = sendBufferSize) (hqueue : makeMessageQueue malloc size = some queue)
    {receives sends : Option (List Timespec)} {is : List SystemResult}
    (hrun : Run serveStep (Server.Fair accepts)
      (Server.initial recvBuffer sendBuffer queue receives sends)
      is s) : s.Answering is := by
  refine Run.invariant_history (P := fun is s => s.Answering is) ?_ ?_ hrun
  · exact ⟨⟨[], Server.inOrder_initial hrecv hsend hqueue receives sends⟩,
      fun _ => ⟨⟨by simp [Server.initial], by simp [Server.initial]⟩, rfl⟩⟩
  · intro is s i s' _ h hfair hstep
    exact h.step hfair hstep

/-- The reply of an answerable datagram can be sent, if its address is accepted. -/
theorem exists_sendable_iff {d : Datagram} :
    (∃ e, d.reply = some e ∧ e.Sendable accepts) ↔ Answerable d.bytes ∧ accepts d.address := by
  rw [answerable_iff d.bytes_le]
  constructor
  · rintro ⟨e, hreply, hsendable⟩
    obtain ⟨m, hanswer, rfl⟩ := Option.map_eq_some_iff.mp hreply
    exact ⟨⟨m, hanswer, hsendable.small⟩, hsendable.address⟩
  · rintro ⟨⟨m, hanswer, hsmall⟩, haddress⟩
    exact ⟨⟨d.address, m⟩, by rw [Datagram.reply, hanswer, Option.map_some], hsmall, haddress⟩

/-- **A datagram stops the server exactly if it is not answerable, or comes from an address that
`sendto` does not accept.** After any run in which nothing else fails, and any next answer of the
system, `serve` runs on with nothing but sendable answers made if and only if every datagram that
has come in was answerable and came from an address that `sendto` accepts. -/
theorem serve_survives_iff {malloc : Malloc} {size : ℕ} {recvBuffer sendBuffer : Block}
    {queue : MessageQueue} (hrecv : recvBuffer.size = receiveBufferSize)
    (hsend : sendBuffer.size = sendBufferSize) (hqueue : makeMessageQueue malloc size = some queue)
    {receives sends : Option (List Timespec)} {is : List SystemResult} {server : Server}
    (hrun : Run serveStep (Server.Fair accepts)
      (Server.initial recvBuffer sendBuffer queue receives sends) is server)
    {i : SystemResult} (hfair : server.Fair accepts i) :
    (∃ server', serveStep server i = some server' ∧ server'.Survives accepts) ↔
      ∀ d ∈ datagrams (is ++ [i]), Answerable d.bytes ∧ accepts d.address := by
  have h := Server.answering_of_run hrecv hsend hqueue hrun
  constructor
  · rintro ⟨s', hstep, hpoint, hsendable⟩ d hd
    have h' := h.step hfair hstep
    obtain ⟨contents, horder⟩ := h'.inOrder
    rw [← (h'.running hpoint).2] at hd
    obtain ⟨m, hanswer⟩ := horder.exists_answer hd
    have hreply : d.reply = some ⟨d.address, m⟩ := by rw [Datagram.reply, hanswer, Option.map_some]
    exact exists_sendable_iff.mp ⟨_, hreply, hsendable d hd _ hreply⟩
  · intro hall
    have hsendable : ∀ d ∈ datagrams (is ++ [i]), ∀ e, d.reply = some e → e.Sendable accepts := by
      intro d hd e he
      obtain ⟨e', he', hsend'⟩ := exists_sendable_iff.mpr (hall d hd)
      exact Option.some.inj (he'.symm.trans he) ▸ hsend'
    obtain ⟨contents, horder⟩ := h.inOrder
    obtain ⟨hready, hqueued⟩ := h.running hfair.point_ne_returned
    have happend := datagrams_append_singleton is i
    obtain ⟨s', hstep, hpoint⟩ := serveStep_progress horder hready hfair
      (fun e he => by
        obtain ⟨d, hd, hreply⟩ := horder.exists_of_mem he
        refine hsendable d ?_ _ hreply
        rw [happend, ← hqueued]
        exact List.mem_append_left _ hd)
      (fun d hd => by
        obtain ⟨m, hm, -⟩ :=
          (answerable_iff d.bytes_le).mp (hall d (by simp [happend, hd])).1
        exact ⟨m, hm⟩)
    have h' := h.step hfair hstep
    refine ⟨s', hstep, hpoint, fun d hd => hsendable d ?_⟩
    rw [← (h'.running hpoint).2]
    exact hd

/-- The socket is readable. -/
theorem run_receivingServer :
    Run serveStep (Server.Fair HasPort) freshServer [.select none (.ready true false false)]
      receivingServer :=
  .single ⟨rfl, by simp, by simp⟩ rfl

/-- A query from port 0. -/
def portlessDatagram : Datagram where
  bytes := [0, 2, 1, 0, 0, 1, 0, 0, 0, 0, 0, 0, 1, 99, 0, 0, 1, 0, 1]
  address := clientAddress 0 0
  bytes_le := by decide
  address_le := length_clientAddress ..

/-- Three queries have come in, and then one from port 0. -/
theorem serve_survives_iff_portless : ∃ server,
    Run serveStep (Server.Fair HasPort) freshServer
        ([.select none (.ready true false false)] ++ receiving threeDatagrams ⟨1, 0⟩) server ∧
      ((∃ server', serveStep server (.recvfrom (.datagram portlessDatagram (some ⟨1, 0⟩)))
          = some server' ∧ server'.Survives HasPort) ↔
        ∀ d ∈ datagrams ([.select none (.ready true false false)] ++
            receiving threeDatagrams ⟨1, 0⟩ ++
            [.recvfrom (.datagram portlessDatagram (some ⟨1, 0⟩))]),
          Answerable d.bytes ∧ HasPort d.address) := by
  have hreplies : (threeDatagrams ++ [portlessDatagram]).map Datagram.reply
      = ((threeDatagrams ++ [portlessDatagram]).filterMap Datagram.reply).map some := rfl
  obtain ⟨server', hreceived, -, -⟩ : ∃ s', Run serveStep (Server.Fair HasPort) receivingServer
      (receiving (threeDatagrams ++ [portlessDatagram]) ⟨1, 0⟩) s' ∧ _ :=
    inOrder_receivingServer.exists_run_received rfl rfl hreplies (by decide) ⟨1, 0⟩
  rw [receiving, List.map_append, List.map_singleton, Run.snoc_iff] at hreceived
  obtain ⟨server, hbefore, hfair, -⟩ := hreceived
  have hrun := run_receivingServer.append hbefore
  exact ⟨server, hrun, serve_survives_iff size_recvBuffer_freshServer size_sendBuffer_freshServer
    makeMessageQueue_freshServer hrun hfair⟩

/-! ### A datagram too short for the header -/

/-- A datagram that is too short for the header ends `serve`. -/
theorem serveStep_of_short (hpoint : s.point = .receiving)
    (hsize : s.recvBuffer.size = receiveBufferSize) {d : Datagram}
    (hshort : d.bytes.length < sizeofDnsQuery) (clock : Option Timespec) :
    ∃ s', serveStep s (.recvfrom (.datagram d clock)) = some s' ∧ s'.point = .returned := by
  have hbytes := d.bytes_le
  rw [maxUdpPayload] at hbytes
  rw [receiveBufferSize] at hsize
  obtain ⟨recvBuffer, hstore⟩ := Block.store_of_le s.recvBuffer 0 d.bytes (by omega)
  have hmake : makeAnswer recvBuffer d.bytes.length s.sendBuffer = some none := by
    simp [makeAnswer, hshort]
  refine ⟨{ s with recvBuffer }.stop, ?_, rfl⟩
  simp [serveStep, hpoint, recvAll, hstore, hmake]

/-- The empty datagram, from the local address. -/
def emptyDatagram : Datagram where
  bytes := []
  address := localAddress
  bytes_le := Nat.zero_le _
  address_le := length_localAddress

theorem fair_emptyDatagram :
    receivingServer.Fair HasPort (.recvfrom (.datagram emptyDatagram (some ⟨0, 0⟩))) :=
  ⟨rfl, by simp, inOrder_receivingServer.hasRoom rfl (by decide)⟩

/-- The empty datagram ends a fair run of `serve`. -/
theorem serve_stopped_by_empty :
    ∃ server', serveStep receivingServer
        (.recvfrom (.datagram emptyDatagram (some ⟨0, 0⟩))) = some server' ∧
      Run serveStep (Server.Fair HasPort) freshServer
        [.select none (.ready true false false),
          .recvfrom (.datagram emptyDatagram (some ⟨0, 0⟩))] server' ∧
      server'.point = .returned := by
  obtain ⟨server', hstep, hpoint⟩ := serveStep_of_short (s := receivingServer) rfl
    size_recvBuffer_freshServer (show emptyDatagram.bytes.length < sizeofDnsQuery by decide)
    (some ⟨0, 0⟩)
  exact ⟨server', hstep, run_receivingServer.append (.single fair_emptyDatagram hstep), hpoint⟩

end DnsTools
