import DnsTools.Server.Traffic

/-!
# The server answers in order

At every moment of a run of `serve` what has been sent and what is in the queue are together the
answers to the datagrams on record, in the order of their arrival. The step is
`serveStep_inOrder`; here it is carried through a run, together with the record of the datagrams.

Nothing is assumed of the system but that a `sendto` that does not fail sends the whole datagram.
Any call may fail, at any moment, and any datagram may come in, also one that ends `serve`.
-/

namespace DnsTools

open Memory

/-- **Every query is answered once and in order.** At every moment of every run, what has been
sent and what is in the queue are the answers to the datagrams on record, in order. As long as
`serve` runs, these are all the datagrams that came in; when it has returned, they are the first
of them. -/
theorem serve_inOrder {malloc : Malloc} {size : ℕ} {recvBuffer sendBuffer : Block}
    {queue : MessageQueue} (hrecv : recvBuffer.size = receiveBufferSize)
    (hsend : sendBuffer.size = sendBufferSize) (hqueue : makeMessageQueue malloc size = some queue)
    {receives sends : Option (List Timespec)} {is : List SystemResult} {server : Server}
    (hrun : Run serveStep Server.WholeDatagrams
      (Server.initial recvBuffer sendBuffer queue receives sends) is server) :
    (∃ contents, Represents server.queue contents ∧
        server.queued.map Datagram.reply = (server.sent ++ contents).map some) ∧
      server.queued <+: datagrams is ∧
      (server.point ≠ .returned → server.queued = datagrams is) := by
  suffices hinv : (∃ contents, server.InOrder contents) ∧ server.queued <+: datagrams is ∧
      (server.point ≠ .returned → server.queued = datagrams is) by
    obtain ⟨⟨contents, h⟩, hqueued⟩ := hinv
    exact ⟨⟨contents, h.queue, h.order⟩, hqueued⟩
  refine Run.invariant_history (P := fun is server => (∃ contents, server.InOrder contents) ∧
    server.queued <+: datagrams is ∧ (server.point ≠ .returned → server.queued = datagrams is))
    ⟨⟨[], Server.inOrder_initial hrecv hsend hqueue receives sends⟩, List.prefix_refl _,
      fun _ => rfl⟩ ?_ hrun
  rintro is s i s' - ⟨⟨contents, h⟩, -, hall⟩ hwhole hstep
  have hqueued := hall (point_of_serveStep hstep)
  obtain ⟨contents', h', hrecord⟩ := serveStep_inOrder h hwhole hstep
  rw [datagrams_append_singleton, ← hqueued]
  refine ⟨⟨contents', h'⟩, ?_, ?_⟩
  · rcases hrecord with ⟨-, hrecord⟩ | ⟨-, hrecord⟩
    · exact hrecord ▸ List.prefix_refl _
    · exact hrecord
  · intro hpoint
    rcases hrecord with ⟨-, hrecord⟩ | ⟨hreturned, -⟩
    · exact hrecord
    · exact absurd hreturned hpoint

/-- Three queries have come in, one answer has been sent, and the network takes no more for now. -/
theorem serve_inOrder_traffic : ∃ server,
    Run serveStep Server.WholeDatagrams freshServer
        (traffic threeDatagrams (threeReplies.take 1) ⟨1, 0⟩) server ∧
      server.queued = threeDatagrams ∧ server.sent = threeReplies.take 1 ∧
      (∃ contents, Represents server.queue contents ∧
        server.queued.map Datagram.reply = (server.sent ++ contents).map some) ∧
      server.queued <+: datagrams (traffic threeDatagrams (threeReplies.take 1) ⟨1, 0⟩) ∧
      (server.point ≠ .returned →
        server.queued = datagrams (traffic threeDatagrams (threeReplies.take 1) ⟨1, 0⟩)) := by
  obtain ⟨server, hrun, hqueued, hsent, -⟩ := exists_run_freshServer none none
  have hrun' := hrun.mono fun _ _ h => Server.Fair.wholeDatagrams h
  exact ⟨server, hrun', hqueued, hsent, serve_inOrder size_recvBuffer_freshServer
    size_sendBuffer_freshServer makeMessageQueue_freshServer hrun'⟩

end DnsTools
