import DnsTools.Link.PositiveAnswers

/-!
# A faithful link loses nothing

mig and its server, joined by a link that delivers every query to the server once and in order, and
every answer to mig once and in order. The two programs run side by side, in any interleaving: a
step of the whole is a system call of one of them. `Link.Faithful` says what the link and the rest
of the world may do, and `mig_lossless` what then holds at every moment of every run.

## What the link is made of

There is no state of the link itself. What has been sent is on record with the sender, as `wire` of
mig and `sent` of the server, and `delivered` and `returned` count how much of it has come out at
the other end. So the datagrams on their way are what is on record behind the count, and the link is
free to hold them back for as long as it likes.

## Why every answer finds its query

The invariant is `Link.Sound`. Its core is that the answers come back in the order in which
`recv_answer` looks for them: when answer number `k` arrives, every query before it with the same id
has its answer, so the search stops at pair number `k`, in whatever generation of ids that is.
Everything else in it is carried along for this: that the server queues its answers in the order of
the queries, and that mig has sent a query before an answer to it comes back.

## What is assumed

* No system call fails, but for `sendto` of the server where the answer is not one that `sendto`
  takes, and every call of the clock succeeds. The answers to the queries of mig are UDP payloads,
  and its address is one that `sendto` takes, so these are sent.
* The queue of the server has room for each answer, since an answer for which there is none is
  dropped. How much room there is at least is the subject of `MessageQueueRoom`.
* The readings of the clock of mig are strictly increasing: `recv_answer` takes a reply only for a
  query that was sent before it, and an answer read at the very time at which its query was sent
  would be thrown away.

Nothing is assumed about the number of queries. Ids are used again after 65535 of them, and the
theorem holds in every generation, since the link keeps the order.

## Main results

* `Link.Sound.credit` — the next answer is credited to the next query
* `Link.Sound.next` — what a step of one of the programs keeps
* `mig_lossless` — whole runs
* `run_mig`, `run_server` — a run of one of the programs is one of the whole
-/

namespace DnsTools

open Memory

/-! ### The two programs side by side -/

/-- mig, its server, and how much the link has delivered. -/
structure Link where
  /-- mig. -/
  mig : Mig
  /-- The server. -/
  server : Server
  /-- The number of queries that have reached the server. -/
  delivered : ℕ
  /-- The number of answers that have come back. -/
  returned : ℕ
deriving DecidableEq, Repr

/-- What the system answers to a call of one of the programs. -/
inductive LinkInput
  /-- To mig. -/
  | mig (i : MigInput)
  /-- To the server. -/
  | server (i : SystemResult)
deriving DecidableEq, Repr

/-- The input of mig. -/
def LinkInput.toMig : LinkInput → Option MigInput
  | .mig i => some i
  | .server _ => none

/-- The inputs of mig. -/
def migInputs (is : List LinkInput) : List MigInput := is.filterMap LinkInput.toMig

/-- One system call of one of the programs. -/
def linkStep (s : Link) : LinkInput → Option Link
  | .mig i => (migStep s.mig i).map fun mig =>
    { s with mig, returned := s.returned + i.arrival.toList.length }
  | .server i => (serveStep s.server i).map fun server =>
    { s with server, delivered := s.delivered + i.datagram.toList.length }

/-- What may happen, when mig has this address: no call fails, the server gets the queries of mig in
order and has room for the answers, and mig gets the answers to its address in order. -/
def Link.Faithful (address : List UInt8) (s : Link) : LinkInput → Prop
  | .mig i => ¬s.mig.Faulty i ∧ ∀ a, i.arrival = some a → a.clock.isSome ∧
      s.server.sent[s.returned]? = some { address, message := a.bytes }
  | .server i => s.server.Fair (· = address) i ∧ ∀ d, i.datagram = some d →
      d.address = address ∧ s.mig.wire[s.delivered]? = some d.bytes

theorem migInputs_append_singleton (is : List LinkInput) (i : LinkInput) :
    migInputs (is ++ [i]) = migInputs is ++ i.toMig.toList := by
  cases hi : i.toMig <;> simp [migInputs, hi]

/-- How often mig has waited in vain. -/
def timeouts (is : List MigInput) : ℕ := is.count (.select .timeout)

/-! ### The invariant

Of mig it says that its books are in order (`Bookkeeping`), of the server that its queue and its
records are (`ServeStep`), and of the two together how far each is ahead of the other:
`returned ≤ delivered ≤ messagesSent`. The first of these is not a field, as it follows from the
order of the answers. -/

/-- Every message has an answer that is right for a query with its number. -/
def HaveAnswers (messages : List (List UInt8)) : Prop :=
  ∀ (k : ℕ) (message : List UInt8), messages[k]? = some message →
    ∃ answer, AnswersQuery k message answer

/-- Nothing is lost so far: after these inputs of mig, the server has queued or sent the answers to
the queries delivered, and mig has put those that came back where they belong. -/
structure Link.Sound (messages : List (List UInt8)) (address : List UInt8) (is : List MigInput)
    (s : Link) : Prop where
  /-- The books of mig are in order. -/
  booked : s.mig.Booked messages
  /-- Its records are from its clock. -/
  clocked : s.mig.Clocked (is.flatMap MigInput.readings)
  /-- It has not failed. -/
  running : s.mig.point ≠ .failed
  /-- It waits long enough. -/
  patient : recvTimeout ≤ s.mig.attempts + timeouts is
  /-- It ends when every query is answered or no wait is left. -/
  finished : s.mig.point = .finished → s.mig.count ≤ s.mig.messagesReceived ∨ s.mig.attempts = 0
  /-- The server is in order. -/
  inOrder : ∃ contents, s.server.InOrder contents
  /-- It has not returned. -/
  ready : s.server.Ready
  /-- It has queued an answer to every query delivered. -/
  queued_length : s.server.queued.length = s.delivered
  /-- The queries delivered are the first ones of mig. -/
  queued : ∀ (k : ℕ) (d : Datagram), s.server.queued[k]? = some d →
    d.address = address ∧ messages[k]? = some d.bytes
  /-- They have been sent. -/
  delivered_le : s.delivered ≤ s.mig.messagesSent
  /-- The answers that came back are counted. -/
  returned_eq : (arrivals is).length = s.returned
  /-- Their queries have been sent. -/
  returned_le : s.returned ≤ s.mig.messagesSent
  /-- mig has counted them. -/
  received_eq : s.mig.messagesReceived = s.returned
  /-- Each answers the query with its number, and is on record there with the time of its
  arrival. -/
  credited : ∀ (k : ℕ) (a : Arrival), (arrivals is)[k]? = some a →
    (messages[k]?.bind answerFor) = some a.bytes ∧ ∃ pair, s.mig.pairs[k]? = some pair ∧
      pair.answer = 1 ∧ a.clock = some pair.received ∧ s.mig.receives[k]? = some pair.received
  /-- The other queries have no answer. -/
  unanswered : ∀ (k : ℕ) (pair : PairTimespec), s.mig.pairs[k]? = some pair → s.returned ≤ k →
    pair.answer = 0

section Sound

variable {messages : List (List UInt8)} {address : List UInt8} {is : List MigInput} {s s' : Link}

/-- The queries mig has sent are the first ones. -/
theorem Link.Sound.wire (h : s.Sound messages address is) {k : ℕ} {query : List UInt8}
    (hquery : s.mig.wire[k]? = some query) :
    k < s.mig.messagesSent ∧ messages[k]? = some query := by
  -- what is on the wire are the first `messagesSent` of all queries
  rw [(h.booked.sent h.running).2, List.getElem?_take] at hquery
  split at hquery
  · rename_i hlt
    exact ⟨hlt, hquery⟩
  · simp at hquery

/-- Whatever happens next at the server, it is up to it. -/
theorem Link.Sound.server_progress (h : s.Sound messages address is)
    (hanswers : HaveAnswers messages) {i : SystemResult}
    (hfaithful : s.Faithful address (.server i)) :
    ∃ server, serveStep s.server i = some server ∧ server.point ≠ .returned := by
  obtain ⟨hfair, hdelivered⟩ := hfaithful
  obtain ⟨contents, horder⟩ := h.inOrder
  refine serveStep_progress horder h.ready hfair ?_ ?_
  · -- what is in the queue can be sent, as it answers a query of mig
    intro e he
    obtain ⟨d, hd, hreply⟩ := horder.exists_of_mem he
    obtain ⟨m, hanswer, rfl⟩ := Option.map_eq_some_iff.mp hreply
    obtain ⟨k, hk⟩ := List.getElem?_of_mem hd
    obtain ⟨haddress, hmessage⟩ := h.queued k d hk
    obtain ⟨answer, hright⟩ := hanswers k _ hmessage
    rw [hright.made, Option.some.injEq] at hanswer
    exact ⟨hanswer ▸ hright.small, haddress⟩
  · -- what comes in has an answer, as it is a query of mig
    intro d hd
    obtain ⟨answer, hright⟩ := hanswers _ _ (h.wire (hdelivered d hd).2).2
    exact ⟨answer, hright.made⟩

/-- A step of the server. The part of the invariant about mig is as it was; the datagram that
may have come in is the next query on the wire. -/
theorem Link.Sound.server (h : s.Sound messages address is) (hanswers : HaveAnswers messages)
    {i : SystemResult} (hfaithful : s.Faithful address (.server i)) {server : Server}
    (hstep : serveStep s.server i = some server) :
    Link.Sound messages address is
      { s with server, delivered := s.delivered + i.datagram.toList.length } := by
  obtain ⟨server', hstep', hpoint⟩ := h.server_progress hanswers hfaithful
  obtain rfl := Option.some.inj (hstep.symm.trans hstep')
  obtain ⟨hfair, hdelivered⟩ := hfaithful
  obtain ⟨contents, horder⟩ := h.inOrder
  obtain ⟨contents', horder', ⟨hready, hqueued⟩ | ⟨hreturned, -⟩⟩ :=
    serveStep_inOrder horder hfair.wholeDatagrams hstep
  · constructor
    case booked => exact h.booked
    case clocked => exact h.clocked
    case running => exact h.running
    case patient => exact h.patient
    case finished => exact h.finished
    case inOrder => exact ⟨contents', horder'⟩
    case ready => exact hready
    case queued_length => rw [hqueued, List.length_append, h.queued_length]
    case queued =>
      intro k d hk
      rw [hqueued] at hk
      rcases Table.getElem?_append_toList.mp hk with hk | ⟨rfl, hd⟩
      · exact h.queued k d hk
      · obtain ⟨haddress, hwire⟩ := hdelivered d hd
        rw [h.queued_length]
        exact ⟨haddress, (h.wire hwire).2⟩
    case delivered_le =>
      cases hd : i.datagram with
      | none => exact h.delivered_le
      | some d => exact (h.wire (hdelivered d hd).2).1
    case returned_eq => exact h.returned_eq
    case returned_le => exact h.returned_le
    case received_eq => exact h.received_eq
    case credited => exact h.credited
    case unanswered => exact h.unanswered
  · exact absurd hreturned hpoint

/-- A step of mig without a datagram. It may send a query or wait in vain; no pair is answered. -/
theorem Link.Sound.mig_quiet (h : s.Sound messages address is) {i : MigInput}
    (hfault : ¬s.mig.Faulty i) (hi : i.arrival = none) {mig : Mig}
    (hstep : migStep s.mig i = some mig) :
    Link.Sound messages address (is ++ [i]) { s with mig } := by
  have hbooked := h.booked.next hstep
  have hcount : mig.count = s.mig.count :=
    hbooked.messages_length.symm.trans h.booked.messages_length
  have hquiet := (migStep_cases h.booked hstep).quiet hi hfault
  have harrivals : arrivals (is ++ [i]) = arrivals is := by
    rw [arrivals_append_singleton, hi, Option.toList_none, List.append_nil]
  constructor
  case booked => exact hbooked
  case clocked =>
    rw [List.flatMap_append, List.flatMap_singleton]
    exact h.clocked.next h.booked hstep
  case running => exact hquiet.point
  case patient =>
    show recvTimeout ≤ mig.attempts + timeouts (is ++ [i])
    have hpatient := h.patient
    rw [timeouts, List.count_append, ← timeouts]
    -- the waits are counted anew, or as before, or one of them has been in vain
    rcases hquiet.attempts with hleft | hleft | ⟨-, rfl, hleft⟩
    · omega
    · omega
    · rw [List.count_singleton_self]
      omega
  case finished =>
    intro hfinished
    rcases hquiet.finished hfinished with hall | hleft
    · refine Or.inl ?_
      show mig.count ≤ mig.messagesReceived
      rw [hcount, hquiet.messagesReceived]
      exact hall
    · exact Or.inr hleft
  case inOrder => exact h.inOrder
  case ready => exact h.ready
  case queued_length => exact h.queued_length
  case queued => exact h.queued
  case delivered_le => exact Nat.le_trans h.delivered_le hquiet.messagesSent
  case returned_eq => exact harrivals ▸ h.returned_eq
  case returned_le => exact Nat.le_trans h.returned_le hquiet.messagesSent
  case received_eq => exact hquiet.messagesReceived.trans h.received_eq
  case credited =>
    -- a pair keeps its answer and the time of it, whatever is written to `sent`
    intro k a hk
    rw [harrivals] at hk
    obtain ⟨hbytes, pair, hpair, hanswer, hclock, hreceives⟩ := h.credited k a hk
    obtain ⟨hlt, -⟩ := List.getElem?_eq_some_iff.mp hpair
    rw [h.booked.pairs_length, ← hcount, ← hbooked.pairs_length] at hlt
    obtain ⟨pair', hpair', hanswer', hreceived'⟩ :=
      hquiet.answers k _ (List.getElem?_eq_getElem hlt)
    obtain rfl := Option.some.inj (hpair.symm.trans hpair')
    refine ⟨hbytes, _, List.getElem?_eq_getElem hlt, hanswer'.trans hanswer, ?_, ?_⟩
    · rw [hreceived']
      exact hclock
    · rw [hreceived', hquiet.receives]
      exact hreceives
  case unanswered =>
    intro k pair' hpair' hk
    obtain ⟨pair, hpair, hanswer, -⟩ := hquiet.answers k pair' hpair'
    exact hanswer.trans (h.unanswered k pair hpair hk)

/-- **The next answer.** When answer number `k` comes back, it goes on record with query `k`. It is
the answer to that query, which has been sent before, so its pair is one that `recv_answer` accepts;
and it is the first such pair, as the pairs in front of it have their answers. -/
theorem Link.Sound.credit (h : s.Sound messages address is) (hanswers : HaveAnswers messages)
    {a : Arrival} (hreturned : s.server.sent[s.returned]? = some { address, message := a.bytes })
    {t : Timespec} (hclock : a.clock = some t)
    (hlater : ∀ t' ∈ is.flatMap MigInput.readings, t'.nsec < t.nsec)
    (hexpects : s.mig.Expects (.recv (.datagram a))) :
    (messages[s.returned]?.bind answerFor) = some a.bytes ∧
      s.returned < s.mig.messagesSent ∧ ∃ pair, s.mig.pairs[s.returned]? = some pair ∧
      pair.answer = 0 ∧
      migStep s.mig (.recv (.datagram a)) = some (s.mig.credit s.returned pair t) := by
  obtain ⟨contents, horder⟩ := h.inOrder
  -- it answers the query delivered as number `k`
  have hreply : (s.server.queued.map Datagram.reply)[s.returned]?
      = some (some { address, message := a.bytes }) := by
    obtain ⟨hlt, -⟩ := List.getElem?_eq_some_iff.mp hreturned
    rw [horder.order, List.getElem?_map, List.getElem?_append_left hlt, hreturned]
    rfl
  rw [List.getElem?_map, Option.map_eq_some_iff] at hreply
  obtain ⟨d, hd, hreply⟩ := hreply
  obtain ⟨message, hmade, hentry⟩ := Option.map_eq_some_iff.mp hreply
  obtain rfl : message = a.bytes := congrArg Entry.message hentry
  have hquery := (h.queued _ d hd).2
  obtain ⟨answer, hright⟩ := hanswers _ _ hquery
  obtain rfl : answer = a.bytes := Option.some.inj (hright.made.symm.trans hmade)
  have hsent : s.returned < s.mig.messagesSent := by
    obtain ⟨hlt, -⟩ := List.getElem?_eq_some_iff.mp hd
    rw [h.queued_length] at hlt
    exact Nat.lt_of_lt_of_le hlt h.delivered_le
  have hlt : s.returned < s.mig.count := Nat.lt_of_lt_of_le hsent h.booked.sent_le
  -- the pair of that query is acceptable
  obtain ⟨pair, hpair, hsends⟩ := h.booked.sends_eq _ hsent
  have hanswer := h.unanswered _ pair hpair (Nat.le_refl _)
  have hbefore : pair.sent.nsec < t.nsec := by
    refine hlater _ (h.clocked.sends.subset ?_)
    exact List.mem_of_getElem? ((List.getElem?_take_of_lt hsent).trans hsends)
  have haccept : s.mig.Accepts a t := by
    refine ⟨hright.long, hclock, ?_⟩
    have hmod := Nat.mod_le s.returned ushrtMax
    rw [hright.id]
    omega
  -- the pairs in front of it have their answers
  have hfirst : ∀ j, InWalk (transactionId a.bytes) j → j < s.returned →
      ¬Eligible s.mig.pairs t.nsec j := by
    rintro j - hj ⟨pair', hpair', -, hnone⟩
    rw [← h.returned_eq] at hj
    obtain ⟨-, pair'', hpair'', hone, -⟩ := h.credited j _ (List.getElem?_eq_getElem hj)
    obtain rfl := Option.some.inj (hpair'.symm.trans hpair'')
    omega
  refine ⟨by rw [hquery]; exact hright.made, hsent, pair, hpair, hanswer, ?_⟩
  refine migStep_credit h.booked hexpects haccept ?_ hlt hpair hbefore hanswer hfirst
  rw [hright.id]
  exact Table.onStride_of_mod _ _

/-- A step of mig with a datagram. -/
theorem Link.Sound.mig_arrival (h : s.Sound messages address is) (hanswers : HaveAnswers messages)
    {a : Arrival} (hreturned : s.server.sent[s.returned]? = some { address, message := a.bytes })
    {t : Timespec} (hclock : a.clock = some t)
    (hlater : ∀ t' ∈ is.flatMap MigInput.readings, t'.nsec < t.nsec) {mig : Mig}
    (hstep : migStep s.mig (.recv (.datagram a)) = some mig) :
    Link.Sound messages address (is ++ [.recv (.datagram a)])
      { s with mig, returned := s.returned + 1 } := by
  have hbooked := h.booked.next hstep
  have hclocked := h.clocked.next h.booked hstep
  have hexpects := expects_of_migStep hstep
  obtain ⟨hbytes, hsent, pair, hpair, hanswer, hcredit⟩ :=
    h.credit hanswers hreturned hclock hlater hexpects
  obtain rfl := Option.some.inj (hstep.symm.trans hcredit)
  have harrivals : arrivals (is ++ [.recv (.datagram a)]) = arrivals is ++ [a] :=
    arrivals_append_singleton is _
  obtain ⟨hk, -⟩ := List.getElem?_eq_some_iff.mp hpair
  have hreceives : s.returned < s.mig.receives.length := by
    rw [h.booked.receives_length, ← h.booked.pairs_length]
    exact hk
  constructor
  case booked => exact hbooked
  case clocked =>
    rw [List.flatMap_append, List.flatMap_singleton]
    exact hclocked
  case running => exact h.running
  case patient =>
    have hmore : timeouts is ≤ timeouts (is ++ [.recv (.datagram a)]) :=
      (List.sublist_append_left _ _).count_le _
    exact Nat.le_trans h.patient (Nat.add_le_add_left hmore _)
  case finished =>
    intro hfinished
    have hpoint : s.mig.point = .finished := hfinished
    rcases hexpects with hreceiving | hdraining
    · exact absurd (hreceiving.symm.trans hpoint) (by simp)
    · exact absurd (hdraining.symm.trans hpoint) (by simp)
  case inOrder => exact h.inOrder
  case ready => exact h.ready
  case queued_length => exact h.queued_length
  case queued => exact h.queued
  case delivered_le => exact h.delivered_le
  case returned_eq => rw [harrivals, List.length_append, h.returned_eq, List.length_singleton]
  case returned_le => exact hsent
  case received_eq => exact congrArg (· + 1) h.received_eq
  case credited =>
    intro k a' hk'
    show _ ∧ ∃ pair', (s.mig.pairs.set _ _)[k]? = some pair' ∧ _ ∧ _ ∧
      (s.mig.receives.set s.mig.messagesReceived t)[k]? = some pair'.received
    rw [harrivals, ← Option.toList_some] at hk'
    rw [h.received_eq]
    rcases Table.getElem?_append_toList.mp hk' with hk' | ⟨rfl, ha⟩
    · obtain ⟨hlt, -⟩ := List.getElem?_eq_some_iff.mp hk'
      rw [h.returned_eq] at hlt
      rw [List.getElem?_set_ne (Nat.ne_of_gt hlt), List.getElem?_set_ne (Nat.ne_of_gt hlt)]
      exact h.credited k a' hk'
    · obtain rfl := Option.some.inj ha
      rw [h.returned_eq]
      refine ⟨hbytes, _, List.getElem?_set_self hk, ?_, hclock, List.getElem?_set_self hreceives⟩
      show pair.answer + 1 = 1
      rw [hanswer]
  case unanswered =>
    intro k pair' hpair' hle
    have hle : s.returned + 1 ≤ k := hle
    change (s.mig.pairs.set _ _)[k]? = some pair' at hpair'
    rw [List.getElem?_set_ne (by omega)] at hpair'
    exact h.unanswered k pair' hpair' (by omega)

/-- **One step of the whole.** -/
theorem Link.Sound.next {is : List LinkInput} (h : s.Sound messages address (migInputs is))
    (hanswers : HaveAnswers messages) {i : LinkInput} (hfaithful : s.Faithful address i)
    (hclock : ((migInputs (is ++ [i])).flatMap MigInput.readings).Pairwise
      fun t t' => t.nsec < t'.nsec) (hstep : linkStep s i = some s') :
    s'.Sound messages address (migInputs (is ++ [i])) := by
  rw [migInputs_append_singleton] at hclock ⊢
  cases i with
  | server i =>
    obtain ⟨server, hserver, rfl⟩ := Option.map_eq_some_iff.mp hstep
    rw [LinkInput.toMig, Option.toList_none, List.append_nil]
    exact h.server hanswers hfaithful hserver
  | mig i =>
    obtain ⟨mig, hmig, rfl⟩ := Option.map_eq_some_iff.mp hstep
    obtain ⟨hfault, hreturned⟩ := hfaithful
    rw [LinkInput.toMig, Option.toList_some] at hclock ⊢
    cases harrival : i.arrival with
    | none => exact h.mig_quiet hfault harrival hmig
    | some a =>
      -- the answer is read later than everything before it
      obtain rfl := MigInput.arrival_eq_some.mp harrival
      obtain ⟨hsome, hsent⟩ := hreturned a harrival
      obtain ⟨t, ht⟩ := Option.isSome_iff_exists.mp hsome
      refine h.mig_arrival hanswers hsent ht ?_ hmig
      intro t' ht'
      rw [List.flatMap_append, List.pairwise_append] at hclock
      exact hclock.2.2 t' ht' t (by simp [MigInput.readings, ht])

/-- When all answers are back, mig is done, or it is done as soon as it has been told that there is
nothing more to receive. -/
theorem Link.Sound.ends (h : s.Sound messages address is) (hall : s.returned = s.mig.count) :
    s.mig.point = .finished ∨ s.mig.point = .draining ∧
      ∀ i, s.Faithful address (.mig i) → s.mig.Expects i → ∃ mig, migStep s.mig i = some mig ∧
        mig.point = .finished ∧ mig.messagesReceived = s.mig.messagesReceived := by
  have hreturned := h.returned_le
  have hreceived := h.received_eq
  -- all queries have been sent and answered, so mig is in neither of the places that ask for more
  have hfirst : s.mig.point.inFirstLoop ≠ true := fun hin => by
    have hlt := h.booked.fits.firstLoop hin
    omega
  have hwaiting : s.mig.point ≠ .waiting := fun hpoint => by
    have hlt := h.booked.fits.waiting hpoint
    omega
  cases hpoint : s.mig.point with
  | selecting | receiving | sending => simp [hpoint, MigPoint.inFirstLoop] at hfirst
  | waiting => exact absurd hpoint hwaiting
  | failed => exact absurd hpoint h.running
  | finished => exact Or.inl rfl
  | draining =>
    refine Or.inr ⟨rfl, ?_⟩
    rintro i ⟨hfault, hsent⟩ hexpects
    cases i with
    | select r => simp [Mig.Expects, hpoint] at hexpects
    | send now n clock => simp [Mig.Expects, hpoint] at hexpects
    | recv r =>
      cases r with
      | failed => exact absurd rfl hfault
      | again =>
        have hdone : ¬(s.mig.messagesReceived < s.mig.count ∧ 0 < recvTimeout) := by omega
        refine ⟨_, by simp only [migStep, hpoint, recvAnswer]; rfl, ?_, ?_⟩ <;>
          rw [Mig.continueWaiting, if_neg hdone]
      | datagram a =>
        -- the server has no answer left
        obtain ⟨contents, horder⟩ := h.inOrder
        obtain ⟨hlt, -⟩ := List.getElem?_eq_some_iff.mp (hsent a rfl).2
        have hlength := congrArg List.length horder.order
        rw [List.length_map, List.length_map, List.length_append, h.queued_length] at hlength
        have hdelivered := h.delivered_le
        have hle := h.booked.sent_le
        omega

end Sound

/-! ### Whole runs

`Link.Lossless` is `Link.Sound` in terms of the names: which queries there are and what the answers
to them read is taken from `makeQueries` and `make_answer`. -/

/-- The two programs when they start. -/
def Link.initial (mig : Mig) (server : Server) : Link :=
  { mig, server, delivered := 0, returned := 0 }

/-- Nothing has been sent, so nothing has been lost. -/
theorem Link.sound_initial {messages : List (List UInt8)} {queries : Block}
    {count queryLimit : ℕ} {sends receives : List Timespec} {pairs : List PairTimespec}
    (hstart : (Mig.initial queries count queryLimit sends receives pairs).Booked messages)
    (address : List UInt8) {malloc : Malloc} {size : ℕ} {recvBuffer sendBuffer : Block}
    {queue : MessageQueue} (hrecv : recvBuffer.size = receiveBufferSize)
    (hsend : sendBuffer.size = sendBufferSize) (hqueue : makeMessageQueue malloc size = some queue)
    (serverReceives serverSends : Option (List Timespec)) :
    Link.Sound messages address [] (.initial
      (Mig.initial queries count queryLimit sends receives pairs)
      (Server.initial recvBuffer sendBuffer queue serverReceives serverSends)) := by
  have hcontinues := Mig.continues_initial queries count queryLimit sends receives pairs
  have hsame := hcontinues.idle.same
  constructor
  case booked => exact hstart
  case clocked => exact Mig.clocked_initial ..
  case running => exact hcontinues.point
  case patient => exact Nat.le_of_eq hcontinues.attempts.symm
  case finished =>
    intro hfinished
    rcases hcontinues.finished hfinished with hall | hleft
    · rw [← hsame.count, ← hsame.messagesReceived] at hall
      exact Or.inl hall
    · exact absurd hleft (by decide)
  case inOrder => exact ⟨[], Server.inOrder_initial hrecv hsend hqueue _ _⟩
  case ready => constructor <;> simp [Link.initial, Server.initial]
  case queued_length => rfl
  case queued => exact fun k d hd => by simp [Link.initial, Server.initial] at hd
  case delivered_le => exact Nat.zero_le _
  case returned_eq => rfl
  case returned_le => exact Nat.zero_le _
  case received_eq => exact hsame.messagesReceived
  case credited => exact fun k a ha => by simp [arrivals] at ha
  case unanswered => exact fun k pair hpair _ => Mig.answer_initial hpair

/-- The answers to the queries for the names of a table. -/
theorem haveAnswers_tableQueries (client : Option ClientId) {ns : List QueryName} (hne : ns ≠ [])
    (hlimit : ∀ n ∈ ns, n.labels.WithinLimit) (count : ℕ) :
    HaveAnswers (tableQueries client ns hne count) := by
  intro k message hmessage
  obtain ⟨hk, rfl⟩ := List.getElem?_eq_some_iff.mp hmessage
  rw [getElem_tableQueries]
  exact ⟨_, answersQuery_answerMessage client k (hlimit _ (List.get_mem ..))⟩

/-- The books of mig at the start, for the queries that `makeQueries` has made. -/
theorem Mig.booked_tableQueries {malloc : Malloc} {names queries : Block} {count : ℕ}
    (queryLimit : ℕ) {client : Option ClientId} {ns : List QueryName} (hne : ns ≠ [])
    (htable : NamesTable names ns)
    (hqueries : makeQueries malloc names count client = some (some queries))
    {sends receives : List Timespec} {pairs : List PairTimespec} (hsends : sends.length = count)
    (hreceives : receives.length = count) (hpairs : pairs.length = count) :
    (Mig.initial queries count queryLimit sends receives pairs).Booked
      (tableQueries client ns hne count) := by
  obtain ⟨ws, hws, hholds⟩ := makeQueries_spec hqueries
  have hwalk := htable.nameWalk hne count 0
  rw [Nat.zero_mod, nameOffset, Block.chunkOffset_zero, hws, Option.some.injEq] at hwalk
  subst hwalk
  exact Mig.booked_initial queryLimit hholds (length_tableQueries client ns hne count) hsends
    hreceives hpairs

variable {client : Option ClientId} {ns : List QueryName} {hne : ns ≠ []} {address : List UInt8}
  {count : ℕ} {is : List LinkInput} {s : Link}

/-- Nothing has been lost, after these inputs, of `count` queries for the names. -/
structure Link.Lossless (client : Option ClientId) (ns : List QueryName) (hne : ns ≠ [])
    (address : List UInt8) (count : ℕ) (is : List LinkInput) (s : Link) : Prop where
  /-- Every query gets a positive answer. -/
  positive : ∀ k < count, answerFor (queryMessage client k (nameOf ns hne k).encode)
    = some (answerMessage client k (nameOf ns hne k))
  /-- What the server has sent and what is in its queue are the answers to the queries delivered. -/
  served : ∃ contents, Represents s.server.queue contents ∧ s.server.sent ++ contents
    = (List.range s.delivered).map fun k =>
        { address, message := answerMessage client k (nameOf ns hne k) }
  /-- Answer number `k` to come back is that to query number `k`, and it is on record there and as
  entry `k` of `receives`, with the time of its arrival. -/
  credited : ∀ (k : ℕ) (a : Arrival), (arrivals (migInputs is))[k]? = some a →
    a.bytes = answerMessage client k (nameOf ns hne k) ∧ ∃ pair, s.mig.pairs[k]? = some pair ∧
      pair.answer = 1 ∧ a.clock = some pair.received ∧ s.mig.receives[k]? = some pair.received
  /-- The other queries have no answer yet. -/
  unanswered : ∀ (k : ℕ) (pair : PairTimespec), s.mig.pairs[k]? = some pair →
    (arrivals (migInputs is)).length ≤ k → pair.answer = 0
  /-- All answers that came back are counted. -/
  received_eq : s.mig.messagesReceived = (arrivals (migInputs is)).length
  /-- The programs run without an error. -/
  running : s.mig.point ≠ .failed ∧ s.server.point ≠ .returned
  /-- Whatever a faithful link does next, they can go on. -/
  progress : ∀ i, s.Faithful address i → (∀ j, i = .mig j → s.mig.Expects j) →
    (linkStep s i).isSome
  /-- mig ends with an answer to every query, unless it has waited in vain too often. -/
  finished : s.mig.point = .finished →
    s.mig.messagesReceived = count ∨ recvTimeout ≤ timeouts (migInputs is)
  /-- When all answers are back, mig ends with nothing lost. -/
  ends : (arrivals (migInputs is)).length = count → s.mig.messagesReceived = count ∧
    s.mig.lost = 0 ∧ (s.mig.point = .finished ∨ s.mig.point = .draining ∧
      ∀ i, s.Faithful address (.mig i) → s.mig.Expects i → ∃ mig, migStep s.mig i = some mig ∧
        mig.point = .finished ∧ mig.messagesReceived = count)

/-- **Nothing is lost in a whole run.** -/
theorem Link.Sound.run {messages : List (List UInt8)} {start : Link}
    (h : start.Sound messages address []) (hanswers : HaveAnswers messages)
    (hrun : Run linkStep (Link.Faithful address) start is s)
    (hclock : ((migInputs is).flatMap MigInput.readings).Pairwise
      fun t t' => t.nsec < t'.nsec) : s.Sound messages address (migInputs is) := by
  refine Run.invariant_history (P := fun is s =>
    ((migInputs is).flatMap MigInput.readings).Pairwise (fun t t' => t.nsec < t'.nsec) →
      s.Sound messages address (migInputs is)) (fun _ => h) ?_ hrun hclock
  -- a clock that moves on over all inputs moves on over the first of them
  rintro is s i s' - h hfaithful hstep hclock
  refine (h ?_).next hanswers hfaithful hclock hstep
  rw [migInputs_append_singleton, List.flatMap_append, List.pairwise_append] at hclock
  exact hclock.1

/-- The answers queued, in terms of the names. -/
theorem Link.Sound.served {messages : List (List UInt8)} {is : List MigInput}
    (h : s.Sound messages address is) (answer : ℕ → List UInt8)
    (hanswer : ∀ (k : ℕ) (message : List UInt8), messages[k]? = some message →
      answerFor message = some (answer k)) :
    ∃ contents, Represents s.server.queue contents ∧ s.server.sent ++ contents
      = (List.range s.delivered).map fun k => { address, message := answer k } := by
  -- entry by entry: reply number `k` is to datagram number `k`, which is query number `k`
  obtain ⟨contents, horder⟩ := h.inOrder
  refine ⟨contents, horder.queue, List.map_injective_iff.mpr (Option.some_injective _) ?_⟩
  rw [← horder.order]
  refine List.ext_getElem? fun k => ?_
  rw [List.getElem?_map, List.getElem?_map, List.getElem?_map]
  cases hd : s.server.queued[k]? with
  | none =>
    rw [List.getElem?_eq_none_iff, h.queued_length] at hd
    rw [List.getElem?_eq_none (by rw [List.length_range]; exact hd)]
    rfl
  | some d =>
    obtain ⟨haddress, hmessage⟩ := h.queued k d hd
    obtain ⟨hlt, -⟩ := List.getElem?_eq_some_iff.mp hd
    rw [h.queued_length] at hlt
    rw [List.getElem?_range hlt, Option.map_some, Option.map_some, Option.map_some, Datagram.reply,
      hanswer k _ hmessage, haddress]
    rfl

/-- **Nothing is lost on a faithful link.** For any table of names and any number of queries, in
every run over a faithful link with a clock that moves on from reading to reading. -/
theorem mig_lossless {malloc malloc' : Malloc} {names queries : Block} {queryLimit : ℕ}
    (hlimit : ∀ n ∈ ns, n.labels.WithinLimit) (htable : NamesTable names ns)
    (hqueries : makeQueries malloc names count client = some (some queries))
    {sends receives : List Timespec} {pairs : List PairTimespec} (hsends : sends.length = count)
    (hreceives : receives.length = count) (hpairs : pairs.length = count)
    {recvBuffer sendBuffer : Block} {size : ℕ} {queue : MessageQueue}
    (hrecv : recvBuffer.size = receiveBufferSize) (hsend : sendBuffer.size = sendBufferSize)
    (hqueue : makeMessageQueue malloc' size = some queue)
    {serverReceives serverSends : Option (List Timespec)}
    (hrun : Run linkStep (Link.Faithful address)
      (Link.initial (Mig.initial queries count queryLimit sends receives pairs)
        (Server.initial recvBuffer sendBuffer queue serverReceives serverSends)) is s)
    (hclock : ((migInputs is).flatMap MigInput.readings).Pairwise
      fun t t' => t.nsec < t'.nsec) :
    s.Lossless client ns hne address count is := by
  have hanswers := haveAnswers_tableQueries client hne hlimit count
  have hstart := Mig.booked_tableQueries queryLimit hne htable hqueries hsends hreceives hpairs
  have hmessages := length_tableQueries client ns hne count
  have h := (Link.sound_initial hstart address hrecv hsend hqueue _ _).run hanswers hrun hclock
  have hcount : s.mig.count = count := h.booked.messages_length.symm.trans hmessages
  have hpositive : ∀ (k : ℕ) (message : List UInt8),
      (tableQueries client ns hne count)[k]? = some message →
        answerFor message = some (answerMessage client k (nameOf ns hne k)) := by
    intro k message hmessage
    obtain ⟨hk, rfl⟩ := List.getElem?_eq_some_iff.mp hmessage
    rw [getElem_tableQueries]
    exact answerFor_queryMessage client k _
  have hreceived := h.received_eq.trans h.returned_eq.symm
  constructor
  case positive => exact fun k _ => answerFor_queryMessage client k _
  case served => exact h.served _ hpositive
  case credited =>
    intro k a ha
    obtain ⟨hbytes, hcredited⟩ := h.credited k a ha
    obtain ⟨message, hmessage, hanswer⟩ := Option.bind_eq_some_iff.mp hbytes
    exact ⟨Option.some.inj (hanswer.symm.trans (hpositive k message hmessage)), hcredited⟩
  case unanswered =>
    intro k pair hpair hle
    exact h.unanswered k pair hpair (h.returned_eq ▸ hle)
  case received_eq => exact hreceived
  case running => exact ⟨h.running, h.ready.point⟩
  case progress =>
    intro i hfaithful hexpects
    cases i with
    | mig i =>
      obtain ⟨mig, hstep, -⟩ := migStep_outcome h.booked (hexpects i rfl)
      rw [linkStep, hstep]
      rfl
    | server i =>
      obtain ⟨server, hstep, -⟩ := h.server_progress hanswers hfaithful
      rw [linkStep, hstep]
      rfl
  case finished =>
    intro hfinished
    have hle := h.booked.received_le
    have hpatient := h.patient
    rcases h.finished hfinished with hall | hleft
    · exact Or.inl (by omega)
    · exact Or.inr (by omega)
  case ends =>
    intro hall
    have hdone : s.mig.messagesReceived = count := hreceived.trans hall
    have hends := h.ends (by rw [hcount, ← h.returned_eq, hall])
    rw [hdone] at hends
    exact ⟨hdone, by rw [Mig.lost, hdone, hcount, Nat.sub_self], hends⟩

/-! ### Runs of one of the programs -/

/-- No call of mig fails, nor does its clock. -/
def Mig.Undisturbed (s : Mig) (i : MigInput) : Prop :=
  ¬s.Faulty i ∧ ∀ a ∈ i.arrival, a.clock.isSome = true

instance (s : Mig) (i : MigInput) : Decidable (s.Undisturbed i) :=
  inferInstanceAs (Decidable (¬s.Faulty i ∧ ∀ a ∈ i.arrival, a.clock.isSome = true))

theorem arrivals_cons (i : MigInput) (is : List MigInput) :
    arrivals (i :: is) = i.arrival.toList ++ arrivals is := by
  cases h : i.arrival <;> simp [arrivals, h]

theorem datagrams_cons (i : SystemResult) (is : List SystemResult) :
    datagrams (i :: is) = i.datagram.toList ++ datagrams is := by
  cases h : i.datagram <;> simp [datagrams, h]

/-- An undisturbed run of mig is a run of the whole, over any link that delivers what comes in. -/
theorem run_mig_of {env : Link → LinkInput → Prop} {is : List MigInput} {start mig : Mig}
    (hrun : Run migStep Mig.Undisturbed start is mig) (s : Link)
    (henv : ∀ (n : ℕ) (m : Mig) (i : MigInput), m.Undisturbed i →
      (∀ a, i.arrival = some a → (arrivals is)[n]? = some a) →
      env { s with mig := m, returned := s.returned + n } (.mig i)) :
    Run linkStep env { s with mig := start } (is.map .mig)
      { s with mig, returned := s.returned + (arrivals is).length } := by
  induction hrun generalizing s with
  | nil => exact .nil _
  | @cons start next mig i is hfair hstep _ ih =>
    rw [arrivals_cons] at henv ⊢
    rw [List.length_append, ← Nat.add_assoc]
    refine .cons (henv 0 start i hfair fun a ha => by rw [ha]; rfl) (by rw [linkStep, hstep]; rfl)
      (ih { s with returned := s.returned + i.arrival.toList.length } fun n m j hj ha => ?_)
    rw [Nat.add_assoc]
    refine henv _ m j hj fun a haj => ?_
    rw [List.getElem?_append_right (Nat.le_add_right _ _), Nat.add_sub_cancel_left]
    exact ha a haj

/-- So is a run of the server. -/
theorem run_server_of {env : Link → LinkInput → Prop} {accepts : List UInt8 → Prop}
    {is : List SystemResult} {start server : Server}
    (hrun : Run serveStep (Server.Fair accepts) start is server) (s : Link)
    (henv : ∀ (n : ℕ) (server : Server) (i : SystemResult), server.Fair accepts i →
      (∀ d, i.datagram = some d → (datagrams is)[n]? = some d) →
      env { s with server, delivered := s.delivered + n } (.server i)) :
    Run linkStep env { s with server := start } (is.map .server)
      { s with server, delivered := s.delivered + (datagrams is).length } := by
  induction hrun generalizing s with
  | nil => exact .nil _
  | @cons start next server i is hfair hstep _ ih =>
    rw [datagrams_cons] at henv ⊢
    rw [List.length_append, ← Nat.add_assoc]
    refine .cons (henv 0 start i hfair fun d hd => by rw [hd]; rfl) (by rw [linkStep, hstep]; rfl)
      (ih { s with delivered := s.delivered + i.datagram.toList.length } fun n m j hj hd => ?_)
    rw [Nat.add_assoc]
    refine henv _ m j hj fun d hdj => ?_
    rw [List.getElem?_append_right (Nat.le_add_right _ _), Nat.add_sub_cancel_left]
    exact hd d hdj

/-- What begins with a list has its entries. -/
theorem getElem?_of_map_prefix {α β : Type*} {f : α → β} {xs : List α} {ys : List β} {r n : ℕ}
    {x : α} (h : xs.map f <+: ys.drop r) (hx : xs[n]? = some x) : ys[r + n]? = some (f x) := by
  obtain ⟨rest, hrest⟩ := h
  obtain ⟨hn, -⟩ := List.getElem?_eq_some_iff.mp hx
  rw [← List.getElem?_drop, ← hrest, List.getElem?_append_left (by rwa [List.length_map]),
    List.getElem?_map, hx]
  rfl

/-- A faithful link delivers to mig what the server has sent next, -/
theorem run_mig {is : List MigInput} {start mig : Mig}
    (hrun : Run migStep Mig.Undisturbed start is mig) (s : Link)
    (hsent : (arrivals is).map (fun a => Entry.mk address a.bytes) <+:
      s.server.sent.drop s.returned) :
    Run linkStep (Link.Faithful address) { s with mig := start } (is.map .mig)
      { s with mig, returned := s.returned + (arrivals is).length } :=
  run_mig_of hrun s fun _ _ _ hfair ha =>
    ⟨hfair.1, fun a hai => ⟨hfair.2 a hai,
      getElem?_of_map_prefix (f := fun a : Arrival => Entry.mk address a.bytes) hsent (ha a hai)⟩⟩

/-- and to the server what mig has sent next. -/
theorem run_server {is : List SystemResult} {start server : Server}
    (hrun : Run serveStep (Server.Fair (· = address)) start is server) (s : Link)
    (haddress : ∀ d ∈ datagrams is, d.address = address)
    (hwire : (datagrams is).map (·.bytes) <+: s.mig.wire.drop s.delivered) :
    Run linkStep (Link.Faithful address) { s with server := start } (is.map .server)
      { s with server, delivered := s.delivered + (datagrams is).length } :=
  run_server_of hrun s fun _ _ _ hfair hd =>
    ⟨hfair, fun d hdi => ⟨haddress d (List.mem_of_getElem? (hd d hdi)),
      getElem?_of_map_prefix (f := Datagram.bytes) hwire (hd d hdi)⟩⟩

/-! ### A run with three queries -/

/-- The first query, as it comes in. -/
def firstDatagram : Datagram where
  bytes := [0, 0, 1, 0, 0, 1, 0, 0, 0, 0, 0, 0, 1, 97, 0, 0, 1, 0, 1]
  address := localAddress
  bytes_le := by decide
  address_le := length_localAddress

/-- The second query. -/
def secondDatagram : Datagram where
  bytes := [0, 1, 1, 0, 0, 1, 0, 0, 0, 0, 0, 0, 1, 98, 1, 99, 0, 0, 1, 0, 1]
  address := localAddress
  bytes_le := by decide
  address_le := length_localAddress

/-- The third query. -/
def thirdDatagram : Datagram where
  bytes := [0, 2, 1, 0, 0, 1, 0, 0, 0, 0, 0, 0, 1, 97, 0, 0, 1, 0, 1]
  address := localAddress
  bytes_le := by decide
  address_le := length_localAddress

/-- All of them. -/
def askedDatagrams : List Datagram := [firstDatagram, secondDatagram, thirdDatagram]

/-- The answer to query number `k`. -/
def askedReply (k : ℕ) : Entry :=
  { address := localAddress
    message := answerMessage none k (nameOf [nameA, nameBC] (by decide) k) }

theorem reply_askedDatagrams :
    askedDatagrams.map Datagram.reply = ((List.range 3).map askedReply).map some := by
  decide +kernel

/-- mig sends its queries. -/
def sentInputs : List MigInput :=
  [.select (.ready false true), .send none (some 19) (some ⟨1, 0⟩), .select (.ready false true),
    .send none (some 21) (some ⟨2, 0⟩), .select (.ready false true),
    .send none (some 19) (some ⟨4, 0⟩)]

/-- Where they lead to. -/
def sentMig : Mig :=
  { threeMig with
    sends := [⟨1, 0⟩, ⟨2, 0⟩, ⟨4, 0⟩]
    pairs := [⟨⟨1, 0⟩, 0, ⟨0, 0⟩⟩, ⟨⟨2, 0⟩, 0, ⟨0, 0⟩⟩, ⟨⟨4, 0⟩, 0, ⟨0, 0⟩⟩]
    offset := 83, messagesSent := 3, point := .waiting, wire := askedMessages }

theorem run_sentMig : Run migStep Mig.Undisturbed threeMig sentInputs sentMig :=
  .of_foldlM_guarded (by decide +kernel)

/-- The datagram with the answer to query number `k`. -/
def askedArrival (k : ℕ) (now : Timespec) : Arrival :=
  ⟨(askedReply k).message, k, some now⟩

/-- mig gets two answers, and then the last one. -/
def repliedInputs : List MigInput :=
  [.select (.ready true false), .recv (.datagram (askedArrival 0 ⟨8, 0⟩)),
    .recv (.datagram (askedArrival 1 ⟨9, 0⟩)), .recv .again]

/-- The last answer. -/
def lastInputs : List MigInput :=
  [.select (.ready true false), .recv (.datagram (askedArrival 2 ⟨12, 0⟩)), .recv .again]

/-- Two queries are answered. -/
def repliedMig : Mig :=
  { sentMig with
    receives := [⟨8, 0⟩, ⟨9, 0⟩, ⟨0, 0⟩]
    pairs := [⟨⟨1, 0⟩, 1, ⟨8, 0⟩⟩, ⟨⟨2, 0⟩, 1, ⟨9, 0⟩⟩, ⟨⟨4, 0⟩, 0, ⟨0, 0⟩⟩]
    readSocket := true, messagesReceived := 2 }

/-- All are. -/
def finishedMig : Mig :=
  { repliedMig with
    receives := [⟨8, 0⟩, ⟨9, 0⟩, ⟨12, 0⟩]
    pairs := [⟨⟨1, 0⟩, 1, ⟨8, 0⟩⟩, ⟨⟨2, 0⟩, 1, ⟨9, 0⟩⟩, ⟨⟨4, 0⟩, 1, ⟨12, 0⟩⟩]
    messagesReceived := 3, point := .finished }

theorem run_repliedMig : Run migStep Mig.Undisturbed sentMig repliedInputs repliedMig :=
  .of_foldlM_guarded (by decide +kernel)

theorem run_finishedMig : Run migStep Mig.Undisturbed repliedMig lastInputs finishedMig :=
  .of_foldlM_guarded (by decide +kernel)

/-- The server receives the queries and sends two answers. -/
def servedInputs : List SystemResult :=
  traffic askedDatagrams [askedReply 0, askedReply 1] ⟨5, 0⟩

theorem exists_run_served : ∃ server,
    Run serveStep (Server.Fair (· = localAddress)) freshServer servedInputs server ∧
      server.sent = [askedReply 0, askedReply 1] ∧ server.InOrder [askedReply 2] ∧
      server.point = .selecting := by
  have hsendable : ∀ e ∈ [askedReply 0, askedReply 1], e.Sendable (· = localAddress) := by
    rw [List.forall_mem_cons, List.forall_mem_singleton]
    exact ⟨⟨by decide +kernel, rfl⟩, ⟨by decide +kernel, rfl⟩⟩
  obtain ⟨server, hrun, -, hsent, horder, hpoint⟩ := exists_run_traffic
    size_recvBuffer_freshServer size_sendBuffer_freshServer makeMessageQueue_freshServer none none
    (show askedDatagrams.map Datagram.reply =
      ([askedReply 0, askedReply 1] ++ [askedReply 2]).map some from reply_askedDatagrams)
    (by decide) (by decide) hsendable ⟨5, 0⟩
  exact ⟨server, hrun, hsent, horder, hpoint⟩

/-- The calls of both programs, from the first to the last. -/
def wholeInputs : List LinkInput :=
  sentInputs.map .mig ++ servedInputs.map .server ++ repliedInputs.map .mig ++
    (sendingOne (askedReply 2) ⟨10, 0⟩).map .server ++ lastInputs.map .mig

theorem exists_run_whole : ∃ server,
    Run linkStep (Link.Faithful localAddress) (.initial threeMig freshServer) wholeInputs
      { mig := finishedMig, server, delivered := 3, returned := 3 } := by
  obtain ⟨server₁, hserved, hsent₁, horder, hpoint⟩ := exists_run_served
  have hsendable : (askedReply 2).Sendable (· = localAddress) := ⟨by decide +kernel, rfl⟩
  obtain ⟨server₂, hlast, hsent₂, -⟩ := horder.exists_run_one hpoint hsendable ⟨10, 0⟩
  have hqueries : Run linkStep (Link.Faithful localAddress) (.initial threeMig freshServer)
      (sentInputs.map .mig) ⟨sentMig, freshServer, 0, 0⟩ :=
    run_mig run_sentMig (.initial threeMig freshServer) (List.nil_prefix)
  have hserver : Run linkStep (Link.Faithful localAddress) ⟨sentMig, freshServer, 0, 0⟩
      (servedInputs.map .server) ⟨sentMig, server₁, 3, 0⟩ :=
    run_server hserved ⟨sentMig, freshServer, 0, 0⟩ (by decide) (List.prefix_refl _)
  have hreplies : Run linkStep (Link.Faithful localAddress) ⟨sentMig, server₁, 3, 0⟩
      (repliedInputs.map .mig) ⟨repliedMig, server₁, 3, 2⟩ :=
    run_mig run_repliedMig ⟨sentMig, server₁, 3, 0⟩ (by rw [hsent₁]; exact List.prefix_refl _)
  have hserver' : Run linkStep (Link.Faithful localAddress) ⟨repliedMig, server₁, 3, 2⟩
      ((sendingOne (askedReply 2) ⟨10, 0⟩).map .server) ⟨repliedMig, server₂, 3, 2⟩ :=
    run_server hlast ⟨repliedMig, server₁, 3, 2⟩ (by decide)
      List.nil_prefix
  have hfinished : Run linkStep (Link.Faithful localAddress) ⟨repliedMig, server₂, 3, 2⟩
      (lastInputs.map .mig) ⟨finishedMig, server₂, 3, 3⟩ :=
    run_mig run_finishedMig ⟨repliedMig, server₂, 3, 2⟩
      (by rw [hsent₂, hsent₁]; exact List.prefix_refl _)
  exact ⟨server₂, (((hqueries.append hserver).append hreplies).append hserver').append hfinished⟩

theorem withinLimit_nameA_nameBC : ∀ n ∈ [nameA, nameBC], n.labels.WithinLimit := by
  simp [nameA, nameBC, Dns.Name.WithinLimit, Dns.Name.encode]

theorem namesTable_twoNames : NamesTable ⟨twoNames, []⟩ [nameA, nameBC] := by
  rw [NamesTable]
  decide

/-- A run with three queries, from its start to its end. -/
theorem mig_lossless_whole :
    ∃ server, Run linkStep (Link.Faithful localAddress) (.initial threeMig freshServer) wholeInputs
        { mig := finishedMig, server, delivered := 3, returned := 3 } ∧
      Link.Lossless none [nameA, nameBC] (by decide) localAddress 3 wholeInputs
        { mig := finishedMig, server, delivered := 3, returned := 3 } := by
  obtain ⟨server, hrun⟩ := exists_run_whole
  refine ⟨server, hrun, ?_⟩
  exact mig_lossless withinLimit_nameA_nameBC namesTable_twoNames makeQueries_threeQueries rfl rfl
    rfl size_recvBuffer_freshServer size_sendBuffer_freshServer makeMessageQueue_freshServer hrun
    (by decide)

end DnsTools
