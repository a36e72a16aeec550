import DnsTools.Lib.Transit
import DnsTools.Link.Unreliable
import DnsTools.Mig.Counting
import DnsTools.Server.Dumps

/-!
# A link that repeats nothing

mig and its server, joined by a network that may lose, hold back and reorder the datagrams in both
directions, but makes up none and repeats none. The datagrams on their way are a part of the state.
Then nothing vanishes: each query that mig has sent, or the answer to it, is in one place, and what
mig prints as lost are those that have not come back. This holds for any number of queries, also
where ids are used again and an answer is on record with a wrong query.

The invariant is `Network.Balanced`. For each id no more answers come back than queries with it were
sent, since each of the places that they pass through holds no more than the one before. So mig
counts every answer.

## The places

A query is with mig, on its way, lost, or with the server; the answer to it is in the queue of the
server, on its way, lost, or with mig. Each direction of the network is a `Transit`, which is a
multiset of what is on its way and one of what has been lost. That a datagram is lost is a step of
the network, so the state says which ones are. `Carries` says that what has been sent on one side is
on its way, lost, or has arrived on the other, as multisets: the same datagram may be sent twice,
when two queries have the same bytes.

## The two networks

This network is an unreliable link (`Network.Balanced.unreliable`), with more to say about it. So
that both programs run and everything that comes back is an answer is taken from there, and what is
new is the count.

## What is assumed

* No system call fails, and the queue of the server has room for each answer. Without the room an
  answer would be in none of the places.
* The readings of the clock of mig are strictly increasing, as for the unreliable link: an answer
  that `recv_answer` drops has come back and is not counted.

## Main results

* `Network.Balanced.room` — why there is a pair for the next answer
* `Network.Balanced.next` — one step of the network
* `nothing_vanishes` — where the queries and their answers are, at every moment of every run
-/

namespace DnsTools

open Memory

/-! ### The network -/

/-- The two programs and what is on its way between them. -/
structure Network where
  /-- mig and its server. -/
  link : Link
  /-- The queries. -/
  queries : Transit (List UInt8)
  /-- The answers. -/
  answers : Transit (List UInt8)

/-- What happens next. -/
inductive NetworkInput
  /-- One of the programs makes a system call. -/
  | call (i : LinkInput)
  /-- A query is lost on its way. -/
  | loseQuery (query : List UInt8)
  /-- An answer is lost on its way. -/
  | loseAnswer (answer : List UInt8)

/-- The call of a program. -/
def NetworkInput.toLink : NetworkInput → Option LinkInput
  | .call i => some i
  | .loseQuery _ | .loseAnswer _ => none

/-- The calls of mig. -/
def migCalls (is : List NetworkInput) : List MigInput :=
  migInputs (is.filterMap NetworkInput.toLink)

/-- What mig sends is on its way to the server, and what the server sends to mig. What one of them
receives has arrived. -/
def networkStep (s : Network) : NetworkInput → Option Network
  | .call (.mig i) => (linkStep s.link (.mig i)).map fun link =>
    { link
      queries := s.queries.post (link.mig.wire.drop s.link.mig.wire.length)
      answers := s.answers.deliver (i.arrival.map (·.bytes)) }
  | .call (.server i) => (linkStep s.link (.server i)).map fun link =>
    { link
      queries := s.queries.deliver (i.datagram.map (·.bytes))
      answers := s.answers.post
        ((link.server.sent.drop s.link.server.sent.length).map (·.message)) }
  | .loseQuery query => some { s with queries := s.queries.lose query }
  | .loseAnswer answer => some { s with answers := s.answers.lose answer }

/-- What may happen, when mig has this address: no call fails, and what arrives, or is lost, is on
its way. -/
def Network.Unrepeating (address : List UInt8) (s : Network) : NetworkInput → Prop
  | .call (.mig i) => ¬s.link.mig.Faulty i ∧ ∀ a, i.arrival = some a → a.clock.isSome ∧
      a.bytes ∈ s.answers.pending
  | .call (.server i) => s.link.server.Fair (· = address) i ∧ ∀ d, i.datagram = some d →
      d.address = address ∧ d.bytes ∈ s.queries.pending
  | .loseQuery query => query ∈ s.queries.pending
  | .loseAnswer answer => answer ∈ s.answers.pending

theorem migCalls_append_singleton (is : List NetworkInput) (i : NetworkInput) :
    migCalls (is ++ [i]) = migCalls is ++ (i.toLink.bind LinkInput.toMig).toList := by
  rw [migCalls, List.filterMap_append]
  cases hi : i.toLink with
  | none => simp [hi, migCalls]
  | some j => simp [hi, migInputs_append_singleton, migCalls]

/-! ### The invariant -/

/-- After these inputs of mig, both programs run, all that has come back is counted, and everything
sent in one of the directions is on its way, or lost, or has arrived. -/
structure Network.Balanced (messages : List (List UInt8)) (address : List UInt8)
    (is : List MigInput) (s : Network) : Prop where
  /-- The programs run. -/
  working : s.link.Working messages address is
  /-- All that has come back is counted. -/
  counts : s.link.mig.CountsReplies (arrivals is)
  /-- Every query is in one place. -/
  queries : s.queries.Carries s.link.mig.wire (s.link.server.queued.map (·.bytes))
  /-- So is every answer. -/
  answers : s.answers.Carries (s.link.server.sent.map (·.message)) ((arrivals is).map (·.bytes))

section Balanced

variable {messages : List (List UInt8)} {address : List UInt8} {is : List MigInput}
  {s s' : Network}

/-- A network that repeats nothing is an unreliable link. -/
theorem Network.Balanced.unreliable (h : s.Balanced messages address is) {i : LinkInput}
    (henv : s.Unrepeating address (.call i)) : s.link.Unreliable address i := by
  cases i with
  | mig i =>
    refine ⟨henv.1, fun a ha => ?_⟩
    obtain ⟨hclock, hpending⟩ := henv.2 a ha
    obtain ⟨e, he, hmessage⟩ := List.mem_map.mp (h.answers.mem_posted hpending)
    obtain ⟨haddress, -⟩ := h.working.exists_queued he
    obtain ⟨address', message⟩ := e
    obtain rfl : address' = address := haddress
    obtain rfl : message = a.bytes := hmessage
    exact ⟨hclock, he⟩
  | server i =>
    refine ⟨henv.1, fun d hd => ?_⟩
    obtain ⟨haddress, hpending⟩ := henv.2 d hd
    exact ⟨haddress, h.queries.mem_posted hpending⟩

/-- Among the first messages as many have an id as there are numbers that stand for it. -/
theorem HasIds.countP_take (hids : HasIds messages) {n : ℕ} (hn : n ≤ messages.length) (id : ℕ) :
    (messages.take n).countP (transactionId · = id) =
      ((Finset.range n).filter (· % ushrtMax = id)).card := by
  induction n with
  | zero => rfl
  | succ n ih =>
    have hlt : n < messages.length := hn
    have hid := hids n _ (List.getElem?_eq_getElem hlt)
    rw [List.take_succ_eq_append_getElem hlt, List.countP_append, ih (Nat.le_of_lt hlt),
      List.countP_singleton, hid, Finset.range_add_one, Finset.filter_insert]
    by_cases hsame : n % ushrtMax = id
    · have hnew : n ∉ (Finset.range n).filter (· % ushrtMax = id) := by simp
      rw [if_pos hsame, Finset.card_insert_of_notMem hnew, if_pos (decide_eq_true hsame)]
    · rw [if_neg hsame, if_neg (by simpa using hsame), Nat.add_zero]

/-- The answers in the queue and those sent have the ids of the datagrams they answer. -/
theorem Link.Working.ids_eq {link : Link} (h : link.Working messages address is)
    (hanswers : HaveAnswers messages) (hids : HasIds messages) {contents : List Entry}
    (horder : link.server.InOrder contents) :
    (link.server.sent ++ contents).map (transactionId ·.message) =
      link.server.queued.map (transactionId ·.bytes) := by
  refine List.map_injective_iff.mpr (Option.some_injective _) ?_
  calc ((link.server.sent ++ contents).map (transactionId ·.message)).map some
      = ((link.server.sent ++ contents).map some).map (·.map (transactionId ·.message)) := by
        rw [List.map_map, List.map_map]
        rfl
    _ = link.server.queued.map fun d => d.reply.map (transactionId ·.message) := by
        rw [← horder.order, List.map_map]
        rfl
    _ = (link.server.queued.map (transactionId ·.bytes)).map some := by
        rw [List.map_map]
        refine List.map_congr_left fun d hd => ?_
        obtain ⟨m, hm⟩ := horder.exists_answer hd
        obtain ⟨-, k, -, hmessage⟩ := h.queued d hd
        obtain ⟨answer, hright⟩ := hanswers k _ hmessage
        obtain rfl : answer = m := Option.some.inj (hright.made.symm.trans hm)
        rw [Datagram.reply, hm, Function.comp_apply, hids k _ hmessage, ← hright.id]
        rfl

/-- When an answer is on its way, fewer with its id have come back than queries with this id have
been sent. -/
theorem Network.Balanced.room (h : s.Balanced messages address is)
    (hanswers : HaveAnswers messages) (hids : HasIds messages) {a : Arrival}
    (hpending : a.bytes ∈ s.answers.pending) :
    (repliesWith (arrivals is) (transactionId a.bytes)).length <
      (s.link.mig.sentWith (transactionId a.bytes)).card := by
  obtain ⟨contents, horder⟩ := h.working.inOrder
  have hsent := h.working.booked.sent_le
  rw [← h.working.booked.messages_length] at hsent
  calc (repliesWith (arrivals is) (transactionId a.bytes)).length
      = ((arrivals is).map (·.bytes)).countP (transactionId · = transactionId a.bytes) := by
        rw [List.countP_map, List.countP_eq_length_filter]
        rfl
    _ < (s.link.server.sent.map (·.message)).countP (transactionId · = transactionId a.bytes) :=
        h.answers.countP_lt hpending (decide_eq_true rfl)
    _ ≤ ((s.link.server.sent ++ contents).map (transactionId ·.message)).countP
          (· = transactionId a.bytes) := by
        rw [List.countP_map, List.countP_map, List.countP_append]
        exact Nat.le_add_right _ _
    _ = (s.link.server.queued.map (·.bytes)).countP (transactionId · = transactionId a.bytes) := by
        rw [h.working.ids_eq hanswers hids horder, List.countP_map, List.countP_map]
        rfl
    _ ≤ s.link.mig.wire.countP (transactionId · = transactionId a.bytes) :=
        h.queries.countP_le (transactionId · = transactionId a.bytes)
    _ = (s.link.mig.sentWith (transactionId a.bytes)).card := by
        rw [(h.working.booked.sent h.working.running).2, hids.countP_take hsent]
        rfl

/-! ### What a step does to it -/

/-- What has been sent stays sent. -/
theorem sent_prefix_of_serveStep {server server' : Server} {i : SystemResult}
    (hstep : serveStep server i = some server') (hpoint : server'.point ≠ .returned) :
    server.sent <+: server'.sent := by
  obtain ⟨t, ht, hserver⟩ : ∃ t, dumpingStep ⟨server, none, []⟩ i = some t ∧
      t.server = server' := by
    rw [dumpingStep, hstep, Option.bind_eq_bind, Option.bind_some]
    split <;> exact ⟨_, rfl, rfl⟩
  subst hserver
  cases dumpingStep_stamps ht with
  | kept _ _ _ hsame => exact hsame.sent ▸ List.prefix_refl _
  | dumped _ _ _ hsame => exact hsame.sent ▸ List.prefix_refl _
  | received _ _ _ _ _ _ _ _ _ hsent => exact hsent ▸ List.prefix_refl _
  | sent _ _ _ _ _ _ _ _ _ hsent => exact hsent ▸ List.prefix_append _ _
  | failed hreturned => exact absurd hreturned hpoint

/-- A call of the server. -/
theorem Network.Balanced.server (h : s.Balanced messages address is)
    (hanswers : HaveAnswers messages) {i : SystemResult}
    (henv : s.Unrepeating address (.call (.server i)))
    (hstep : networkStep s (.call (.server i)) = some s') : s'.Balanced messages address is := by
  have hunreliable := h.unreliable henv
  obtain ⟨link, hlink, rfl⟩ := Option.map_eq_some_iff.mp hstep
  obtain ⟨server, hserver, rfl⟩ := Option.map_eq_some_iff.mp hlink
  obtain ⟨server', hserver', hpoint⟩ := h.working.server_progress hanswers hunreliable
  obtain rfl := Option.some.inj (hserver.symm.trans hserver')
  obtain ⟨hworking, hqueued⟩ := h.working.server hanswers hunreliable hserver
  refine ⟨hworking, h.counts, ?_, ?_⟩
  · have hdelivered := h.queries.deliver (o := i.datagram.map (·.bytes)) fun query hquery => by
      obtain ⟨d, hd, rfl⟩ := Option.map_eq_some_iff.mp hquery
      exact (henv.2 d hd).2
    show Transit.Carries _ _ (server.queued.map (·.bytes))
    rw [hqueued, List.map_append, ← Option.toList_map]
    exact hdelivered
  · have hgrown := (sent_prefix_of_serveStep hserver hpoint).map (·.message)
    have hposted := h.answers.post_drop hgrown
    rw [List.length_map, ← List.map_drop] at hposted
    exact hposted

/-- A call of mig. -/
theorem Network.Balanced.mig (h : s.Balanced messages address is) (hanswers : HaveAnswers messages)
    (hids : HasIds messages) {i : MigInput} (henv : s.Unrepeating address (.call (.mig i)))
    (hlater : ∀ t ∈ i.readings, ∀ t' ∈ is.flatMap MigInput.readings, t'.nsec < t.nsec)
    (hstep : networkStep s (.call (.mig i)) = some s') :
    s'.Balanced messages address (is ++ [i]) := by
  obtain ⟨hfault, hreturned⟩ := h.unreliable henv
  obtain ⟨link, hlink, rfl⟩ := Option.map_eq_some_iff.mp hstep
  obtain ⟨mig, hmig, rfl⟩ := Option.map_eq_some_iff.mp hlink
  have hbooked := h.working.booked
  have houtcome := migStep_cases hbooked hmig
  have hdelivered := h.answers.deliver (o := i.arrival.map (·.bytes)) fun answer hanswer => by
    obtain ⟨a, ha, rfl⟩ := Option.map_eq_some_iff.mp hanswer
    exact (henv.2 a ha).2
  rw [Option.toList_map, ← List.map_append, ← arrivals_append_singleton] at hdelivered
  obtain ⟨hworking, hcounts⟩ : Link.Working messages address (is ++ [i]) { s.link with mig } ∧
      mig.CountsReplies (arrivals (is ++ [i])) := by
    cases harrival : i.arrival with
    | none =>
      refine ⟨h.working.mig_quiet hfault harrival hmig, ?_⟩
      rw [arrivals_append_singleton, harrival, Option.toList_none, List.append_nil]
      exact h.counts.quiet hbooked (hbooked.next hmig) harrival houtcome
    | some a =>
      obtain rfl := MigInput.arrival_eq_some.mp harrival
      obtain ⟨hsome, hsent⟩ := hreturned a rfl
      obtain ⟨t, hclock⟩ := Option.isSome_iff_exists.mp hsome
      refine ⟨h.working.mig_arrival hanswers hclock hsent hmig, ?_⟩
      rw [arrivals_append_singleton]
      refine h.counts.arrival hbooked
        (h.working.accepts hanswers hclock (h.working.of_sent hsent)) (fun sent hmem => ?_)
        (h.room hanswers hids (henv.2 a rfl).2) houtcome
      exact hlater t (by simp [MigInput.readings, hclock]) sent
        (h.working.clocked.sends.subset hmem)
  refine ⟨hworking.of_returned _, hcounts, ?_, hdelivered⟩
  refine h.queries.post_drop ?_
  show s.link.mig.wire <+: mig.wire
  rw [(hbooked.sent h.working.running).2, (hworking.booked.sent hworking.running).2]
  exact List.take_prefix_take_left houtcome.messagesSent_le

/-- **One step of the network.** -/
theorem Network.Balanced.next {is : List NetworkInput}
    (h : s.Balanced messages address (migCalls is)) (hanswers : HaveAnswers messages)
    (hids : HasIds messages) {i : NetworkInput} (henv : s.Unrepeating address i)
    (hclock : ((migCalls (is ++ [i])).flatMap MigInput.readings).Pairwise
      fun t t' => t.nsec < t'.nsec) (hstep : networkStep s i = some s') :
    s'.Balanced messages address (migCalls (is ++ [i])) := by
  rw [migCalls_append_singleton] at hclock ⊢
  cases i with
  | loseQuery query =>
    obtain rfl := Option.some.inj hstep
    rw [NetworkInput.toLink, Option.bind_none, Option.toList_none, List.append_nil]
    exact ⟨h.working, h.counts, h.queries.lose henv, h.answers⟩
  | loseAnswer answer =>
    obtain rfl := Option.some.inj hstep
    rw [NetworkInput.toLink, Option.bind_none, Option.toList_none, List.append_nil]
    exact ⟨h.working, h.counts, h.queries, h.answers.lose henv⟩
  | call i =>
    rw [NetworkInput.toLink, Option.bind_some] at hclock ⊢
    cases i with
    | server i =>
      rw [LinkInput.toMig, Option.toList_none, List.append_nil]
      exact h.server hanswers henv hstep
    | mig i =>
      refine h.mig hanswers hids henv (fun t ht t' ht' => ?_) hstep
      rw [LinkInput.toMig, Option.toList_some, List.flatMap_append, List.flatMap_singleton,
        List.pairwise_append] at hclock
      exact hclock.2.2 t' ht' t ht

/-- **The books balance in a whole run.** -/
theorem Network.Balanced.run {start : Network} {is : List NetworkInput}
    (h : start.Balanced messages address []) (hanswers : HaveAnswers messages)
    (hids : HasIds messages) (hrun : Run networkStep (Network.Unrepeating address) start is s)
    (hclock : ((migCalls is).flatMap MigInput.readings).Pairwise
      fun t t' => t.nsec < t'.nsec) : s.Balanced messages address (migCalls is) := by
  refine Run.invariant_history (P := fun is s =>
    ((migCalls is).flatMap MigInput.readings).Pairwise (fun t t' => t.nsec < t'.nsec) →
      s.Balanced messages address (migCalls is)) (fun _ => h) ?_ hrun hclock
  rintro is s i s' - h henv hstep hclock
  refine (h ?_).next hanswers hids henv hclock hstep
  rw [migCalls_append_singleton, List.flatMap_append, List.pairwise_append] at hclock
  exact hclock.1

end Balanced

/-! ### Where everything is -/

/-- The two programs when they start, with nothing on its way. -/
def Network.initial (link : Link) : Network := { link, queries := .empty, answers := .empty }

theorem Network.balanced_initial {messages : List (List UInt8)} {address : List UInt8}
    {queries : Block} {count queryLimit : ℕ} {sends receives : List Timespec}
    {pairs : List PairTimespec}
    (hstart : (Mig.initial queries count queryLimit sends receives pairs).Booked messages)
    {malloc : Malloc} {size : ℕ} {recvBuffer sendBuffer : Block} {queue : MessageQueue}
    (hrecv : recvBuffer.size = receiveBufferSize) (hsend : sendBuffer.size = sendBufferSize)
    (hqueue : makeMessageQueue malloc size = some queue)
    (serverReceives serverSends : Option (List Timespec)) :
    Network.Balanced messages address [] (.initial (.initial
      (Mig.initial queries count queryLimit sends receives pairs)
      (Server.initial recvBuffer sendBuffer queue serverReceives serverSends))) := by
  have hcontinues := Mig.continues_initial queries count queryLimit sends receives pairs
  have hwire : (Mig.initial queries count queryLimit sends receives pairs).wire = [] := by
    rw [(hstart.sent hcontinues.point).2, hcontinues.idle.same.messagesSent]
    exact List.take_zero
  refine ⟨Link.working_initial hstart hrecv hsend hqueue _ _,
    Mig.countsReplies_initial queries count queryLimit sends receives pairs, ?_,
    Transit.carries_empty⟩
  show Transit.Carries _ (Mig.initial queries count queryLimit sends receives pairs).wire _
  rw [hwire]
  exact Transit.carries_empty

variable {client : Option ClientId} {ns : List QueryName} {hne : ns ≠ []} {address : List UInt8}
  {count : ℕ} {is : List NetworkInput} {s : Network}

/-- Where the queries for the names, and the answers to them, are after these inputs. -/
structure Network.Conserves (client : Option ClientId) (ns : List QueryName) (hne : ns ≠ [])
    (address : List UInt8) (count : ℕ) (is : List NetworkInput) (s : Network) : Prop where
  /-- Every query sent is on its way to the server, or was lost, or has reached it. -/
  queries : s.queries.Carries ((tableQueries client ns hne count).take s.link.mig.messagesSent)
    (s.link.server.queued.map (·.bytes))
  /-- The answer to every query that has reached the server is in its queue, or has been sent, in
  the order of the queries. With what is in the queue, the number that mig prints as lost is that
  of the queries not sent, on their way, or lost, and of the answers queued, on their way, or
  lost. -/
  missing : ∃ contents, Represents s.link.server.queue contents ∧
    s.link.server.queued.map Datagram.reply = (s.link.server.sent ++ contents).map some ∧
    s.link.mig.lost = (count - s.link.mig.messagesSent) + s.queries.pending.card +
      s.queries.lost.card + contents.length + s.answers.pending.card + s.answers.lost.card
  /-- Every answer sent is on its way to mig, or was lost, or has come back. -/
  answers : s.answers.Carries (s.link.server.sent.map (·.message))
    ((arrivals (migCalls is)).map (·.bytes))
  /-- All that have come back are counted. -/
  received : s.link.mig.messagesReceived = (arrivals (migCalls is)).length
  /-- For each id as many queries are on record as answered as answers with it have come back. -/
  answered : ∀ id, (s.link.mig.answeredWith id).card =
    (repliesWith (arrivals (migCalls is)) id).length
  /-- The programs run without an error. -/
  running : s.link.mig.point ≠ .failed ∧ s.link.server.point ≠ .returned
  /-- Whatever the network does next, they can go on. -/
  progress : ∀ i, s.Unrepeating address i → (∀ j, i = .call (.mig j) → s.link.mig.Expects j) →
    (networkStep s i).isSome

/-- **Nothing vanishes.** For any table of names and any number of queries, also where ids are used
again, in every run over a network that may lose, hold back and reorder datagrams but repeats none,
with a clock that moves on from reading to reading: every query and every answer is in one place,
mig counts all answers that come back, and it prints as lost exactly those that are elsewhere. -/
theorem nothing_vanishes {malloc malloc' : Malloc} {names queries : Block} {queryLimit : ℕ}
    (hlimit : ∀ n ∈ ns, n.labels.WithinLimit) (htable : NamesTable names ns)
    (hqueries : makeQueries malloc names count client = some (some queries))
    {sends receives : List Timespec} {pairs : List PairTimespec} (hsends : sends.length = count)
    (hreceives : receives.length = count) (hpairs : pairs.length = count)
    {recvBuffer sendBuffer : Block} {size : ℕ} {queue : MessageQueue}
    (hrecv : recvBuffer.size = receiveBufferSize) (hsend : sendBuffer.size = sendBufferSize)
    (hqueue : makeMessageQueue malloc' size = some queue)
    {serverReceives serverSends : Option (List Timespec)}
    (hrun : Run networkStep (Network.Unrepeating address)
      (.initial (.initial (Mig.initial queries count queryLimit sends receives pairs)
        (Server.initial recvBuffer sendBuffer queue serverReceives serverSends))) is s)
    (hclock : ((migCalls is).flatMap MigInput.readings).Pairwise
      fun t t' => t.nsec < t'.nsec) :
    s.Conserves client ns hne address count is := by
  have hanswers := haveAnswers_tableQueries client hne hlimit count
  have hids := hasIds_tableQueries client ns hne count
  have hmessages := length_tableQueries client ns hne count
  have hstart := Mig.booked_tableQueries queryLimit hne htable hqueries hsends hreceives hpairs
  have h : s.Balanced (tableQueries client ns hne count) address (migCalls is) :=
    (Network.balanced_initial hstart hrecv hsend hqueue _ _).run hanswers hids hrun hclock
  have hbooked := h.working.booked
  have hcount : s.link.mig.count = count := h.working.count_eq.trans hmessages
  have hsent := (hbooked.sent h.working.running).2
  constructor
  case queries => exact hsent ▸ h.queries
  case missing =>
    obtain ⟨contents, horder⟩ := h.working.inOrder
    refine ⟨contents, horder.queue, horder.order, ?_⟩
    have hqueries := h.queries.length_eq
    have hserved := congrArg List.length horder.order
    have hanswers := h.answers.length_eq
    have hreceived := h.counts.received
    have hle := hbooked.sent_le
    rw [hsent, List.length_take, hmessages, List.length_map] at hqueries
    rw [List.length_map, List.length_map, List.length_append] at hserved
    rw [List.length_map, List.length_map] at hanswers
    rw [Mig.lost]
    omega
  case answers => exact h.answers
  case received => exact h.counts.received
  case answered => exact h.counts.answered
  case running => exact ⟨h.working.running, h.working.ready.point⟩
  case progress =>
    intro i henv hexpects
    cases i with
    | loseQuery query => rfl
    | loseAnswer answer => rfl
    | call i =>
      have hunreliable := h.unreliable henv
      cases i with
      | mig i =>
        obtain ⟨mig, hstep, -⟩ := migStep_outcome hbooked (hexpects i rfl)
        rw [networkStep, linkStep, hstep]
        rfl
      | server i =>
        obtain ⟨server, hstep, -⟩ := h.working.server_progress hanswers hunreliable
        rw [networkStep, linkStep, hstep]
        rfl

/-! ### Runs of one of the programs -/

section Parts

variable {address : List UInt8} {s : Network}

/-- An undisturbed run of mig is a run of the network, if what comes in is on its way. -/
theorem run_network_mig {is : List MigInput} {start mig : Mig}
    (hrun : Run migStep Mig.Undisturbed start is mig)
    (hpending : (((arrivals is).map (·.bytes) : List (List UInt8)) : Multiset _) ≤
      s.answers.pending) :
    ∃ queries answers, Run networkStep (Network.Unrepeating address)
        { s with link := { s.link with mig := start } } (is.map fun i => .call (.mig i))
        { link := { s.link with mig, returned := s.link.returned + (arrivals is).length }
          queries, answers } ∧
      queries.lost = s.queries.lost ∧ answers.lost = s.answers.lost := by
  induction hrun generalizing s with
  | nil => exact ⟨s.queries, s.answers, .nil _, rfl, rfl⟩
  | @cons start next mig i is hfair hstep _ ih =>
    rw [arrivals_cons, List.map_append, ← Option.toList_map] at hpending
    obtain ⟨hmem, hrest⟩ := Transit.le_deliver hpending
    obtain ⟨queries, answers, hrun, hqueries, hanswers⟩ :
        ∃ queries answers, Run networkStep (Network.Unrepeating address) _ _ _ ∧ _ := @ih
      { link := { s.link with mig := next, returned := s.link.returned + i.arrival.toList.length }
        queries := s.queries.post (next.wire.drop start.wire.length)
        answers := s.answers.deliver (i.arrival.map (·.bytes)) } hrest
    refine ⟨queries, answers, ?_, hqueries, hanswers.trans (Transit.lost_deliver ..)⟩
    rw [arrivals_cons, List.length_append, ← Nat.add_assoc]
    refine .cons ⟨hfair.1, fun a ha => ⟨hfair.2 a ha, hmem _ (by rw [ha]; rfl)⟩⟩ ?_ hrun
    rw [networkStep, linkStep, hstep]
    rfl

/-- So is a run of the server. -/
theorem run_network_server {is : List SystemResult} {start server : Server}
    (hrun : Run serveStep (Server.Fair (· = address)) start is server)
    (haddress : ∀ d ∈ datagrams is, d.address = address)
    (hpending : (((datagrams is).map (·.bytes) : List (List UInt8)) : Multiset _) ≤
      s.queries.pending) :
    ∃ queries answers, Run networkStep (Network.Unrepeating address)
        { s with link := { s.link with server := start } } (is.map fun i => .call (.server i))
        { link := { s.link with server, delivered := s.link.delivered + (datagrams is).length }
          queries, answers } ∧
      queries.lost = s.queries.lost ∧ answers.lost = s.answers.lost := by
  induction hrun generalizing s with
  | nil => exact ⟨s.queries, s.answers, .nil _, rfl, rfl⟩
  | @cons start next server i is hfair hstep _ ih =>
    rw [datagrams_cons] at haddress
    rw [datagrams_cons, List.map_append, ← Option.toList_map] at hpending
    obtain ⟨hmem, hrest⟩ := Transit.le_deliver hpending
    obtain ⟨queries, answers, hrun, hqueries, hanswers⟩ :
        ∃ queries answers, Run networkStep (Network.Unrepeating address) _ _ _ ∧ _ := @ih
      { link := { s.link with
          server := next, delivered := s.link.delivered + i.datagram.toList.length }
        queries := s.queries.deliver (i.datagram.map (·.bytes))
        answers := s.answers.post ((next.sent.drop start.sent.length).map (·.message)) }
      (fun d hd => haddress d (List.mem_append_right _ hd)) hrest
    refine ⟨queries, answers, ?_, hqueries.trans (Transit.lost_deliver ..), hanswers⟩
    rw [datagrams_cons, List.length_append, ← Nat.add_assoc]
    refine .cons ⟨hfair, fun d hd => ⟨haddress d ?_, hmem _ (by rw [hd]; rfl)⟩⟩ ?_ hrun
    · rw [hd]
      exact List.mem_append_left _ (List.mem_singleton_self _)
    · rw [networkStep, linkStep, hstep]
      rfl

end Parts

/-! ### A run in which a query is lost -/

/-- The third query reaches the server before the first does; only it is answered at once. -/
def reorderedServed : List SystemResult :=
  traffic [thirdDatagram, firstDatagram] [askedReply 2] ⟨5, 0⟩

theorem exists_run_reordered : ∃ server,
    Run serveStep (Server.Fair (· = localAddress)) freshServer reorderedServed server ∧
      server.queued = [thirdDatagram, firstDatagram] ∧ server.sent = [askedReply 2] := by
  have hreplies : [thirdDatagram, firstDatagram].map Datagram.reply =
      ([askedReply 2] ++ [askedReply 0]).map some := by
    decide +kernel
  have hsendable : ∀ e ∈ [askedReply 2], e.Sendable (· = localAddress) := by
    rw [List.forall_mem_singleton]
    exact ⟨by decide +kernel, rfl⟩
  obtain ⟨server, hrun, hqueued, hsent, -⟩ := exists_run_traffic
    size_recvBuffer_freshServer size_sendBuffer_freshServer makeMessageQueue_freshServer none none
    hreplies (by decide) (by decide) hsendable ⟨5, 0⟩
  exact ⟨server, hrun, hqueued, hsent⟩

/-- mig gets the answer to its third query. -/
def reorderedInputs : List MigInput :=
  [.select (.ready true false), .recv (.datagram (askedArrival 2 ⟨8, 0⟩)), .recv .again]

/-- It is on record with it. -/
def reorderedMig : Mig :=
  { sentMig with
    receives := [⟨8, 0⟩, ⟨0, 0⟩, ⟨0, 0⟩]
    pairs := [⟨⟨1, 0⟩, 0, ⟨0, 0⟩⟩, ⟨⟨2, 0⟩, 0, ⟨0, 0⟩⟩, ⟨⟨4, 0⟩, 1, ⟨8, 0⟩⟩]
    readSocket := true, messagesReceived := 1 }

theorem run_reorderedMig : Run migStep Mig.Undisturbed sentMig reorderedInputs reorderedMig :=
  .of_foldlM_guarded (by decide +kernel)

/-- What happens until the second query is lost. -/
def vanishingInputs : List NetworkInput :=
  (sentInputs.map fun i => .call (.mig i)) ++ reorderedServed.map fun i => .call (.server i)

/-- And what happens then. -/
def vanishedInputs : List NetworkInput :=
  vanishingInputs ++ [.loseQuery secondDatagram.bytes] ++
    reorderedInputs.map fun i => .call (.mig i)

/-- One of the two queries that mig would print as lost has been lost, and the answer to the other
waits in the queue of the server. -/
theorem nothing_vanishes_vanished : ∃ s : Network,
    s.Conserves none [nameA, nameBC] (by decide) localAddress 3 vanishedInputs ∧
      s.link.mig = reorderedMig ∧ s.link.mig.lost = 2 := by
  have hconserves {is : List NetworkInput} {s : Network}
      (hrun : Run networkStep (Network.Unrepeating localAddress)
        (.initial (.initial threeMig freshServer)) is s)
      (hclock : ((migCalls is).flatMap MigInput.readings).Pairwise fun t t' => t.nsec < t'.nsec) :
      s.Conserves none [nameA, nameBC] (by decide) localAddress 3 is :=
    nothing_vanishes withinLimit_nameA_nameBC namesTable_twoNames makeQueries_threeQueries rfl rfl
      rfl size_recvBuffer_freshServer size_sendBuffer_freshServer makeMessageQueue_freshServer hrun
      hclock
  have hasked : (tableQueries none [nameA, nameBC] (by decide) 3).take 3 = askedMessages := by
    decide +kernel
  -- the queries are on their way
  obtain ⟨queries, answers, hsent, hlost, hlostAnswers⟩ :
      ∃ queries answers, Run networkStep (Network.Unrepeating localAddress)
        (.initial (.initial threeMig freshServer)) (sentInputs.map fun i => .call (.mig i))
        ⟨⟨sentMig, freshServer, 0, 0⟩, queries, answers⟩ ∧ queries.lost = 0 ∧ answers.lost = 0 :=
    run_network_mig (s := .initial (.initial threeMig freshServer)) run_sentMig (by decide)
  have hpending : queries.pending + ([] : List (List UInt8)) = askedMessages := by
    rw [← hasked]
    exact (hconserves hsent (by decide)).queries.eq_of_lost hlost
  rw [Multiset.coe_nil, add_zero] at hpending
  -- two of them reach the server, and one answer is on its way
  obtain ⟨server, hserved, hqueued, hanswered⟩ := exists_run_reordered
  obtain ⟨queries', answers', hreordered, hlost', hlostAnswers'⟩ :
      ∃ queries answers, Run networkStep (Network.Unrepeating localAddress) _ _
        ⟨⟨sentMig, server, 2, 0⟩, queries, answers⟩ ∧ _ :=
    run_network_server (s := ⟨⟨sentMig, freshServer, 0, 0⟩, queries, answers⟩) hserved (by decide)
      (by rw [hpending]; decide +kernel)
  have hmiddle := hconserves (hsent.append hreordered) (by decide +kernel)
  have hleft : secondDatagram.bytes ∈ queries'.pending := by
    have hcarries : queries'.pending + Multiset.ofList (server.queued.map (·.bytes)) =
        Multiset.ofList ((tableQueries none [nameA, nameBC] (by decide) 3).take 3) :=
      hmiddle.queries.eq_of_lost (hlost'.trans hlost)
    have hone : ({secondDatagram.bytes} : Multiset (List UInt8)) +
        ([thirdDatagram, firstDatagram].map (·.bytes) : List (List UInt8)) =
          askedMessages := by
      decide +kernel
    rw [hqueued, hasked, ← hone] at hcarries
    rw [add_right_cancel hcarries]
    exact Multiset.mem_singleton_self _
  have hreply : answers'.pending + ([] : List (List UInt8)) =
      ([(askedReply 2).message] : List (List UInt8)) := by
    have hcarries : answers'.pending + Multiset.ofList [] =
        Multiset.ofList (server.sent.map (·.message)) :=
      hmiddle.answers.eq_of_lost (hlostAnswers'.trans hlostAnswers)
    rw [hcarries, hanswered]
    rfl
  rw [Multiset.coe_nil, add_zero] at hreply
  -- the third is lost, and the answer comes back
  have hvanish : Run networkStep (Network.Unrepeating localAddress)
      ⟨⟨sentMig, server, 2, 0⟩, queries', answers'⟩ [.loseQuery secondDatagram.bytes]
      ⟨⟨sentMig, server, 2, 0⟩, queries'.lose secondDatagram.bytes, answers'⟩ :=
    .single hleft rfl
  obtain ⟨queries'', answers'', hreturned, -⟩ :
      ∃ queries answers, Run networkStep (Network.Unrepeating localAddress) _ _
        ⟨⟨reorderedMig, server, 2, 1⟩, queries, answers⟩ ∧ _ :=
    run_network_mig (s := ⟨⟨sentMig, server, 2, 0⟩, queries'.lose secondDatagram.bytes, answers'⟩)
      run_reorderedMig (by rw [hreply]; decide +kernel)
  exact ⟨_, hconserves (((hsent.append hreordered).append hvanish).append hreturned)
    (by decide +kernel), rfl, rfl⟩

end DnsTools
