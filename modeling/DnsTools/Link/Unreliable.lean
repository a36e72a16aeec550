import DnsTools.Link.Lossless

/-!
# An unreliable link

mig and its server, joined by a network that may lose, repeat, hold back and reorder the datagrams
in both directions, but makes up none. As long as the ids are unique, the books of mig are right all
the same: the queries on record as answered are those to which an answer has come back, however
often a query or its answer has been repeated on the way, and the others are lost.

## The network as a relation

There is no state of the network. Whatever reaches one program is a copy of something that the other
one has sent at some time before: this one condition allows for losses, repetitions, delays and any
order, as nothing says when a copy comes or whether it does, nor how often. A faithful link is a
special case (`Link.Faithful.unreliable`).

A datagram does not say to which query it replies, and here nothing says it for the datagram either:
what comes back is an answer that the server has sent to a datagram it has queued, and which query
that was is to be found out. `Arrival.byId` gives it the number that its id stands for. With unique
ids that is the number of its query, and the results of `Attribution` apply.

## The invariant

The invariant is `Link.Working`. Everything the server has queued is a query of mig, so everything
that comes back is an answer to one. With unique ids its id is the number of that query, and
`Link.Kept` adds that the answers are on record with their queries. The first part holds for any
number of queries, and so does that neither program fails or gets stuck; the module `Conservation`
uses this where ids are used again.

## What is assumed

* There are at most `USHRT_MAX` queries, so that their ids are unique.
* No system call fails, and the queue of the server has room for each answer.
* The readings of the clock of mig are strictly increasing. `recv_answer` drops a reply that it
  reads at the very time at which its query was sent, and takes it for no answer at all. With such a
  reply what is on record is less than what has come back.

## Main results

* `Link.Kept.next` — one step of the two programs and the network
* `losses_accounted` — what mig has on record over an unreliable link
-/

namespace DnsTools

open Memory

/-! ### The network -/

/-- What may happen, when mig has this address: no call fails, what reaches the server is a copy of
a query that mig has sent, and what reaches mig is a copy of an answer sent to its address. -/
def Link.Unreliable (address : List UInt8) (s : Link) : LinkInput → Prop
  | .mig i => ¬s.mig.Faulty i ∧ ∀ a, i.arrival = some a → a.clock.isSome ∧
      Entry.mk address a.bytes ∈ s.server.sent
  | .server i => s.server.Fair (· = address) i ∧ ∀ d, i.datagram = some d →
      d.address = address ∧ d.bytes ∈ s.mig.wire

/-- A faithful link is a reliable one. -/
theorem Link.Faithful.unreliable {address : List UInt8} {s : Link} {i : LinkInput}
    (h : s.Faithful address i) : s.Unreliable address i := by
  cases i with
  | mig i =>
    refine ⟨h.1, fun a ha => ?_⟩
    obtain ⟨hclock, hsent⟩ := h.2 a ha
    exact ⟨hclock, List.mem_of_getElem? hsent⟩
  | server i =>
    refine ⟨h.1, fun d hd => ?_⟩
    obtain ⟨haddress, hwire⟩ := h.2 d hd
    exact ⟨haddress, List.mem_of_getElem? hwire⟩

/-- The datagram as a reply to the query that has its id for a number. -/
def Arrival.byId (a : Arrival) : Arrival := { a with origin := transactionId a.bytes }

/-- mig does not know which query a datagram replies to. -/
theorem migStep_byId (s : Mig) (a : Arrival) :
    migStep s (.recv (.datagram a.byId)) = migStep s (.recv (.datagram a)) := by
  cases hpoint : s.point <;> simp only [migStep, hpoint, recvAnswer, Arrival.byId]

/-! ### The invariant -/

/-- This answers one of the first messages. -/
def AnswersSent (messages : List (List UInt8)) (sent : ℕ) (answer : List UInt8) : Prop :=
  ∃ k < sent, (messages[k]?.bind answerFor) = some answer

theorem AnswersSent.mono {messages : List (List UInt8)} {sent sent' : ℕ} {answer : List UInt8}
    (h : AnswersSent messages sent answer) (hle : sent ≤ sent') :
    AnswersSent messages sent' answer := by
  obtain ⟨k, hk, hanswer⟩ := h
  exact ⟨k, Nat.lt_of_lt_of_le hk hle, hanswer⟩

/-- After these inputs of mig, both programs run, and nothing is under way but what mig has sent and
the answers to it. -/
structure Link.Working (messages : List (List UInt8)) (address : List UInt8) (is : List MigInput)
    (s : Link) : Prop where
  /-- The books of mig are in order. -/
  booked : s.mig.Booked messages
  /-- Its records are from its clock. -/
  clocked : s.mig.Clocked (is.flatMap MigInput.readings)
  /-- It has not failed. -/
  running : s.mig.point ≠ .failed
  /-- The server is in order. -/
  inOrder : ∃ contents, s.server.InOrder contents
  /-- It has not returned. -/
  ready : s.server.Ready
  /-- What it has queued came from mig. -/
  queued : ∀ d ∈ s.server.queued, d.address = address ∧
    ∃ k < s.mig.messagesSent, messages[k]? = some d.bytes
  /-- What has come back answers queries sent. -/
  arrived : ∀ a ∈ arrivals is, AnswersSent messages s.mig.messagesSent a.bytes

/-- With unique ids the books of mig are right, too. -/
structure Link.Kept (messages : List (List UInt8)) (address : List UInt8) (is : List MigInput)
    (s : Link) : Prop extends Link.Working messages address is s where
  /-- The answers are on record with their queries. -/
  attributed : s.mig.Attributed ((arrivals is).map Arrival.byId)

section Working

variable {messages : List (List UInt8)} {address : List UInt8} {is : List MigInput} {s s' : Link}

/-- What mig has sent are the first messages. -/
theorem Link.Working.wire (h : s.Working messages address is) {query : List UInt8}
    (hquery : query ∈ s.mig.wire) : ∃ k < s.mig.messagesSent, messages[k]? = some query := by
  obtain ⟨k, hk⟩ := List.getElem?_of_mem hquery
  rw [(h.booked.sent h.running).2, List.getElem?_take] at hk
  split at hk
  · rename_i hlt
    exact ⟨k, hlt, hk⟩
  · simp at hk

/-- An answer to a datagram queued answers a query sent. -/
theorem Link.Working.answersSent (h : s.Working messages address is) {d : Datagram}
    (hd : d ∈ s.server.queued) {answer : List UInt8} (hanswer : answerFor d.bytes = some answer) :
    AnswersSent messages s.mig.messagesSent answer := by
  obtain ⟨-, k, hk, hmessage⟩ := h.queued d hd
  exact ⟨k, hk, by rw [hmessage, Option.bind_some, hanswer]⟩

/-- What the server has sent answers a datagram queued. -/
theorem Link.Working.exists_queued (h : s.Working messages address is) {e : Entry}
    (he : e ∈ s.server.sent) : e.address = address ∧
      ∃ d ∈ s.server.queued, answerFor d.bytes = some e.message := by
  obtain ⟨contents, horder⟩ := h.inOrder
  have hmem : some e ∈ s.server.queued.map Datagram.reply := by
    rw [horder.order]
    exact List.mem_map_of_mem (List.mem_append_left _ he)
  obtain ⟨d, hd, hreply⟩ := List.mem_map.mp hmem
  obtain ⟨m, hanswer, rfl⟩ := Option.map_eq_some_iff.mp hreply
  exact ⟨(h.queued d hd).1, d, hd, hanswer⟩

/-- So it answers a query sent. -/
theorem Link.Working.of_sent (h : s.Working messages address is) {e : Entry}
    (he : e ∈ s.server.sent) : AnswersSent messages s.mig.messagesSent e.message := by
  obtain ⟨-, d, hd, hanswer⟩ := h.exists_queued he
  exact h.answersSent hd hanswer

/-- Whatever reaches the server, it goes on. -/
theorem Link.Working.server_progress (h : s.Working messages address is)
    (hanswers : HaveAnswers messages) {i : SystemResult}
    (henv : s.Unreliable address (.server i)) :
    ∃ server, serveStep s.server i = some server ∧ server.point ≠ .returned := by
  obtain ⟨hfair, hdelivered⟩ := henv
  obtain ⟨contents, horder⟩ := h.inOrder
  refine serveStep_progress horder h.ready hfair ?_ ?_
  · intro e he
    obtain ⟨d, hd, hreply⟩ := horder.exists_of_mem he
    obtain ⟨haddress, k, -, hmessage⟩ := h.queued d hd
    obtain ⟨answer, hright⟩ := hanswers k _ hmessage
    obtain ⟨m, hm, rfl⟩ := Option.map_eq_some_iff.mp hreply
    obtain rfl := Option.some.inj (hm.symm.trans hright.made)
    exact ⟨hright.small, haddress⟩
  · intro d hd
    obtain ⟨k, -, hmessage⟩ := h.wire (hdelivered d hd).2
    obtain ⟨answer, hright⟩ := hanswers k _ hmessage
    exact ⟨answer, hright.made⟩

/-- A step of the server queues what has reached it. -/
theorem Link.Working.server (h : s.Working messages address is) (hanswers : HaveAnswers messages)
    {i : SystemResult} (henv : s.Unreliable address (.server i)) {server : Server}
    (hstep : serveStep s.server i = some server) :
    Link.Working messages address is
      { s with server, delivered := s.delivered + i.datagram.toList.length } ∧
    server.queued = s.server.queued ++ i.datagram.toList := by
  obtain ⟨server', hstep', hpoint⟩ := h.server_progress hanswers henv
  obtain rfl := Option.some.inj (hstep.symm.trans hstep')
  obtain ⟨hfair, hdelivered⟩ := henv
  obtain ⟨contents, horder⟩ := h.inOrder
  obtain ⟨contents', horder', ⟨hready, hqueued⟩ | ⟨hreturned, -⟩⟩ :=
    serveStep_inOrder horder hfair.wholeDatagrams hstep
  · refine ⟨?_, hqueued⟩
    constructor
    case booked => exact h.booked
    case clocked => exact h.clocked
    case running => exact h.running
    case inOrder => exact ⟨contents', horder'⟩
    case ready => exact hready
    case queued =>
      intro d hd
      rw [hqueued, List.mem_append, Option.mem_toList] at hd
      rcases hd with hd | hd
      · exact h.queued d hd
      · obtain ⟨haddress, hwire⟩ := hdelivered d hd
        exact ⟨haddress, h.wire hwire⟩
    case arrived => exact h.arrived
  · exact absurd hreturned hpoint

/-- A step of mig without a datagram. -/
theorem Link.Working.mig_quiet (h : s.Working messages address is) {i : MigInput}
    (hfault : ¬s.mig.Faulty i) (hi : i.arrival = none) {mig : Mig}
    (hstep : migStep s.mig i = some mig) :
    Link.Working messages address (is ++ [i]) { s with mig } := by
  have hquiet := (migStep_cases h.booked hstep).quiet hi hfault
  have harrivals : arrivals (is ++ [i]) = arrivals is := by
    rw [arrivals_append_singleton, hi, Option.toList_none, List.append_nil]
  constructor
  case booked => exact h.booked.next hstep
  case clocked =>
    rw [List.flatMap_append, List.flatMap_singleton]
    exact h.clocked.next h.booked hstep
  case running => exact hquiet.point
  case inOrder => exact h.inOrder
  case ready => exact h.ready
  case queued =>
    intro d hd
    obtain ⟨haddress, k, hk, hmessage⟩ := h.queued d hd
    exact ⟨haddress, k, Nat.lt_of_lt_of_le hk hquiet.messagesSent, hmessage⟩
  case arrived =>
    rw [harrivals]
    exact fun a ha => (h.arrived a ha).mono hquiet.messagesSent

/-- An answer to a query sent passes the checks of `recv_answer`. -/
theorem Link.Working.accepts (h : s.Working messages address is) (hanswers : HaveAnswers messages)
    {a : Arrival} {t : Timespec} (hclock : a.clock = some t)
    (hanswer : AnswersSent messages s.mig.messagesSent a.bytes) : s.mig.Accepts a t := by
  obtain ⟨k, hk, hanswer⟩ := hanswer
  obtain ⟨message, hmessage, hmade⟩ := Option.bind_eq_some_iff.mp hanswer
  obtain ⟨answer, hright⟩ := hanswers k _ hmessage
  obtain rfl : answer = a.bytes := Option.some.inj (hright.made.symm.trans hmade)
  have hle := h.booked.sent_le
  have hmod := Nat.mod_le k ushrtMax
  exact ⟨hright.long, hclock, by rw [hright.id]; omega⟩

/-- A datagram that is accepted sends nothing and stops nothing. -/
theorem MigOutcome.of_accepts {mig mig' : Mig} {a : Arrival} {t : Timespec}
    (houtcome : MigOutcome messages mig (.recv (.datagram a)) mig') (haccepts : mig.Accepts a t) :
    mig'.point = mig.point ∧ mig'.messagesSent = mig.messagesSent := by
  cases houtcome with
  | moved hi _ _ => exact absurd rfl (hi _)
  | failed hfault _ _ => exact absurd rfl (hfault.ne_datagram _)
  | rejected hreject => exact absurd haccepts (hreject t)
  | ignored _ _ => exact ⟨rfl, rfl⟩
  | credited _ _ _ _ _ _ _ => exact ⟨rfl, rfl⟩

/-- A step of mig with a datagram. -/
theorem Link.Working.mig_arrival (h : s.Working messages address is)
    (hanswers : HaveAnswers messages) {a : Arrival} {t : Timespec} (hclock : a.clock = some t)
    (hsent : Entry.mk address a.bytes ∈ s.server.sent) {mig : Mig}
    (hstep : migStep s.mig (.recv (.datagram a)) = some mig) :
    Link.Working messages address (is ++ [.recv (.datagram a)]) { s with mig } := by
  have hanswer := h.of_sent hsent
  obtain ⟨hpoint, hmore⟩ :=
    (migStep_cases h.booked hstep).of_accepts (h.accepts hanswers hclock hanswer)
  have harrivals : arrivals (is ++ [.recv (.datagram a)]) = arrivals is ++ [a] :=
    arrivals_append_singleton is _
  constructor
  case booked => exact h.booked.next hstep
  case clocked =>
    rw [List.flatMap_append, List.flatMap_singleton]
    exact h.clocked.next h.booked hstep
  case running => exact hpoint ▸ h.running
  case inOrder => exact h.inOrder
  case ready => exact h.ready
  case queued => exact hmore ▸ h.queued
  case arrived =>
    rw [harrivals]
    intro a' ha'
    show AnswersSent messages mig.messagesSent a'.bytes
    rw [hmore]
    rcases List.mem_append.mp ha' with ha' | ha'
    · exact h.arrived a' ha'
    · exact List.mem_singleton.mp ha' ▸ hanswer

/-- How much has been delivered does not matter. -/
theorem Link.Working.of_returned (h : s.Working messages address is) (returned : ℕ) :
    Link.Working messages address is { s with returned } :=
  ⟨h.booked, h.clocked, h.running, h.inOrder, h.ready, h.queued, h.arrived⟩

theorem Link.working_initial {queries : Block} {count queryLimit : ℕ}
    {sends receives : List Timespec} {pairs : List PairTimespec}
    (hstart : (Mig.initial queries count queryLimit sends receives pairs).Booked messages)
    {malloc : Malloc} {size : ℕ} {recvBuffer sendBuffer : Block} {queue : MessageQueue}
    (hrecv : recvBuffer.size = receiveBufferSize) (hsend : sendBuffer.size = sendBufferSize)
    (hqueue : makeMessageQueue malloc size = some queue)
    (serverReceives serverSends : Option (List Timespec)) :
    Link.Working messages address [] (.initial
      (Mig.initial queries count queryLimit sends receives pairs)
      (Server.initial recvBuffer sendBuffer queue serverReceives serverSends)) where
  booked := hstart
  clocked := Mig.clocked_initial ..
  running := (Mig.continues_initial queries count queryLimit sends receives pairs).point
  inOrder := ⟨[], Server.inOrder_initial hrecv hsend hqueue _ _⟩
  ready := by constructor <;> simp [Link.initial, Server.initial]
  queued := fun d hd => by simp [Link.initial, Server.initial] at hd
  arrived := fun a ha => by simp [arrivals] at ha

end Working

section Kept

variable {messages : List (List UInt8)} {address : List UInt8} {is : List MigInput} {s s' : Link}

/-- With unique ids, an answer has the number of its query for an id. -/
theorem Link.Working.genuine (h : s.Working messages address is) (hanswers : HaveAnswers messages)
    (hids : HasIds messages) (hcount : s.mig.count ≤ ushrtMax) {a : Arrival}
    (hclock : a.clock.isSome) (hanswer : AnswersSent messages s.mig.messagesSent a.bytes) :
    s.mig.Genuine a.byId := by
  obtain ⟨k, hk, hanswer⟩ := hanswer
  obtain ⟨message, hmessage, hmade⟩ := Option.bind_eq_some_iff.mp hanswer
  obtain ⟨answer, hright⟩ := hanswers k _ hmessage
  obtain rfl : answer = a.bytes := Option.some.inj (hright.made.symm.trans hmade)
  have hle := h.booked.sent_le
  have hid : transactionId a.bytes = k := by
    rw [hright.id, Nat.mod_eq_of_lt (by omega)]
  refine ⟨⟨message, ?_, ?_⟩, hright.long, hclock⟩
  · show s.mig.wire[transactionId a.bytes]? = some message
    rw [(h.booked.sent h.running).2, hid, List.getElem?_take_of_lt hk]
    exact hmessage
  · show transactionId a.bytes = transactionId message
    rw [hids k _ hmessage, hright.id]

/-- A step of mig with a datagram. -/
theorem Link.Kept.mig_arrival (h : s.Kept messages address is) (hanswers : HaveAnswers messages)
    (hids : HasIds messages) (hcount : s.mig.count ≤ ushrtMax) {a : Arrival} {t : Timespec}
    (hclock : a.clock = some t) (hsent : Entry.mk address a.bytes ∈ s.server.sent)
    (hlater : ∀ t' ∈ is.flatMap MigInput.readings, t'.nsec < t.nsec) {mig : Mig}
    (hstep : migStep s.mig (.recv (.datagram a)) = some mig) :
    Link.Kept messages address (is ++ [.recv (.datagram a)]) { s with mig } := by
  have hgenuine := h.genuine hanswers hids hcount (by rw [hclock]; rfl) (h.of_sent hsent)
  have htimely : s.mig.Timely (.recv (.datagram a.byId)) := by
    refine ⟨hgenuine.honest, fun a' t' ha' ht' sent hmem => ?_⟩
    obtain rfl := Option.some.inj ha'
    obtain rfl := Option.some.inj (hclock.symm.trans ht')
    exact hlater sent (h.clocked.sends.subset hmem)
  have hunambiguous := htimely.allUnambiguous hids h.booked h.running hcount _ t rfl hclock
  have houtcome := migStep_cases h.booked ((migStep_byId s.mig a).trans hstep)
  refine ⟨h.toWorking.mig_arrival hanswers hclock hsent hstep, ?_⟩
  rw [arrivals_append_singleton, List.map_append]
  exact (h.attributed.arrival_iff hids h.booked h.running hgenuine hclock houtcome).mp
    hunambiguous

/-- **One step of the whole.** -/
theorem Link.Kept.next {is : List LinkInput} (h : s.Kept messages address (migInputs is))
    (hanswers : HaveAnswers messages) (hids : HasIds messages) (hcount : s.mig.count ≤ ushrtMax)
    {i : LinkInput} (henv : s.Unreliable address i)
    (hclock : ((migInputs (is ++ [i])).flatMap MigInput.readings).Pairwise
      fun t t' => t.nsec < t'.nsec) (hstep : linkStep s i = some s') :
    s'.Kept messages address (migInputs (is ++ [i])) := by
  rw [migInputs_append_singleton] at hclock ⊢
  cases i with
  | server i =>
    obtain ⟨server, hserver, rfl⟩ := Option.map_eq_some_iff.mp hstep
    rw [LinkInput.toMig, Option.toList_none, List.append_nil]
    exact ⟨(h.toWorking.server hanswers henv hserver).1, h.attributed⟩
  | mig i =>
    obtain ⟨mig, hmig, rfl⟩ := Option.map_eq_some_iff.mp hstep
    obtain ⟨hfault, hreturned⟩ := henv
    rw [LinkInput.toMig, Option.toList_some] at hclock ⊢
    cases harrival : i.arrival with
    | none =>
      refine ⟨(h.toWorking.mig_quiet hfault harrival hmig).of_returned _, ?_⟩
      rw [arrivals_append_singleton, harrival, Option.toList_none, List.append_nil]
      exact h.attributed.of_sameAnswers ((migStep_cases h.booked hmig).sameAnswers harrival)
    | some a =>
      obtain rfl := MigInput.arrival_eq_some.mp harrival
      obtain ⟨hsome, hsent⟩ := hreturned a harrival
      obtain ⟨t, ht⟩ := Option.isSome_iff_exists.mp hsome
      have hkept := h.mig_arrival hanswers hids hcount ht hsent ?_ hmig
      · exact ⟨hkept.toWorking.of_returned _, hkept.attributed⟩
      · intro t' ht'
        rw [List.flatMap_append, List.pairwise_append] at hclock
        exact hclock.2.2 t' ht' t (by simp [MigInput.readings, ht])

/-- The number of queries stays as it is. -/
theorem Link.Working.count_eq (h : s.Working messages address is) : s.mig.count = messages.length :=
  h.booked.messages_length.symm

/-- **The books are right in a whole run.** -/
theorem Link.Kept.run {start : Link} {is : List LinkInput} (h : start.Kept messages address [])
    (hanswers : HaveAnswers messages) (hids : HasIds messages)
    (hcount : messages.length ≤ ushrtMax)
    (hrun : Run linkStep (Link.Unreliable address) start is s)
    (hclock : ((migInputs is).flatMap MigInput.readings).Pairwise
      fun t t' => t.nsec < t'.nsec) : s.Kept messages address (migInputs is) := by
  refine Run.invariant_history (P := fun is s =>
    ((migInputs is).flatMap MigInput.readings).Pairwise (fun t t' => t.nsec < t'.nsec) →
      s.Kept messages address (migInputs is)) (fun _ => h) ?_ hrun hclock
  rintro is s i s' - h henv hstep hclock
  have hkept := h ?_
  · exact hkept.next hanswers hids (hkept.count_eq ▸ hcount) henv hclock hstep
  · rw [migInputs_append_singleton, List.flatMap_append, List.pairwise_append] at hclock
    exact hclock.1

end Kept

/-! ### What is on record -/

/-- The queries without a reply are lost. -/
theorem Mig.Attributed.lost_eq {messages : List (List UInt8)} {mig : Mig} {as : List Arrival}
    (h : mig.Attributed as) (hbooked : mig.Booked messages) :
    mig.lost = (List.range mig.count).countP fun k => !as.any (·.origin = k) := by
  have hreceived : mig.messagesReceived
      = (List.range mig.count).countP (fun k => as.any (·.origin = k)) := by
    rw [← hbooked.received_eq, filterMap_answeredStamp, List.length_map,
      ← List.countP_eq_length_filter, h.countP_eq, hbooked.pairs_length]
  have htotal := (List.range mig.count).length_eq_countP_add_countP
    fun k => as.any (·.origin = k)
  rw [List.length_range] at htotal
  rw [Mig.lost, hreceived]
  simp only [Bool.not_eq_true, Bool.decide_eq_false] at htotal ⊢
  omega

variable {client : Option ClientId} {ns : List QueryName} {hne : ns ≠ []} {address : List UInt8}
  {count : ℕ} {is : List LinkInput} {s : Link}

/-- The answer to query number `k` for the names. -/
def answerNumber (client : Option ClientId) (ns : List QueryName) (hne : ns ≠ []) (k : ℕ) :
    List UInt8 :=
  answerMessage client k (nameOf ns hne k)

theorem transactionId_answerNumber (k : ℕ) :
    transactionId (answerNumber client ns hne k) = k % ushrtMax := by
  rw [answerNumber, answerMessage, transactionId_positiveAnswer (questionEnd_le_queryMessage ..),
    transactionId_queryMessage]

/-- Among the answers the id tells the query. -/
theorem eq_answerNumber_iff {answer : List UInt8} (hcount : count ≤ ushrtMax)
    (hanswer : ∃ j < count, answer = answerNumber client ns hne j) {k : ℕ} (hk : k < count) :
    answer = answerNumber client ns hne k ↔ transactionId answer = k := by
  obtain ⟨j, hj, rfl⟩ := hanswer
  have hid : transactionId (answerNumber client ns hne j) = j := by
    rw [transactionId_answerNumber, Nat.mod_eq_of_lt (by omega)]
  constructor
  · intro heq
    rw [heq, transactionId_answerNumber, Nat.mod_eq_of_lt (by omega)]
  · intro heq
    rw [hid] at heq
    rw [heq]

/-- What two programs with `count` queries for the names keep over an unreliable link. -/
structure Link.Keeps (client : Option ClientId) (ns : List QueryName) (hne : ns ≠ [])
    (address : List UInt8) (count : ℕ) (is : List LinkInput) (s : Link) : Prop where
  /-- What the server has sent and what is in its queue answers queries that mig has sent. -/
  served : ∃ contents, Represents s.server.queue contents ∧ ∀ e ∈ s.server.sent ++ contents,
    ∃ k < s.mig.messagesSent, e = { address, message := answerNumber client ns hne k }
  /-- So does what has come back. -/
  arrived : ∀ a ∈ arrivals (migInputs is), ∃ k < s.mig.messagesSent,
    a.bytes = answerNumber client ns hne k
  /-- A query is on record as answered exactly if an answer to it has come back. -/
  answered_iff : ∀ (k : ℕ) (pair : PairTimespec), s.mig.pairs[k]? = some pair →
    (pair.answer = 1 ↔ ∃ a ∈ arrivals (migInputs is), a.bytes = answerNumber client ns hne k)
  /-- The time on record is that of the first of them. -/
  received : ∀ (k : ℕ) (pair : PairTimespec), s.mig.pairs[k]? = some pair → pair.answer = 1 →
    ((arrivals (migInputs is)).find? (·.bytes = answerNumber client ns hne k)).bind (·.clock)
      = some pair.received
  /-- As many queries are lost as none has come back to. -/
  lost : s.mig.lost = (List.range count).countP fun k =>
    !(arrivals (migInputs is)).any (·.bytes = answerNumber client ns hne k)
  /-- The programs run without an error. -/
  running : s.mig.point ≠ .failed ∧ s.server.point ≠ .returned
  /-- Whatever an unreliable link does next, they can go on. -/
  progress : ∀ i, s.Unreliable address i → (∀ j, i = .mig j → s.mig.Expects j) →
    (linkStep s i).isSome

theorem hasIds_tableQueries (client : Option ClientId) (ns : List QueryName) (hne : ns ≠ [])
    (count : ℕ) : HasIds (tableQueries client ns hne count) :=
  hasIds_queryMessages client _

/-- The answers sent are answers to queries for the names. -/
theorem AnswersSent.exists_number {sent : ℕ} {answer : List UInt8}
    (h : AnswersSent (tableQueries client ns hne count) sent answer) :
    ∃ k < sent, answer = answerNumber client ns hne k := by
  obtain ⟨k, hk, hanswer⟩ := h
  obtain ⟨message, hmessage, hmade⟩ := Option.bind_eq_some_iff.mp hanswer
  obtain ⟨hlt, rfl⟩ := List.getElem?_eq_some_iff.mp hmessage
  rw [getElem_tableQueries, answerFor_queryMessage, Option.some.injEq] at hmade
  exact ⟨k, hk, hmade.symm⟩

/-- What has come back to a query, by the number that its id stands for. -/
theorem any_byId {as : List Arrival} (hcount : count ≤ ushrtMax)
    (has : ∀ a ∈ as, ∃ j < count, a.bytes = answerNumber client ns hne j) {k : ℕ}
    (hk : k < count) :
    ((as.map Arrival.byId).any fun a => a.origin = k) =
      as.any fun a => a.bytes = answerNumber client ns hne k := by
  rw [Bool.eq_iff_iff, List.any_eq_true, List.any_eq_true]
  simp only [List.mem_map, exists_exists_and_eq_and, decide_eq_true_iff]
  exact exists_congr fun a => and_congr_right fun ha =>
    (eq_answerNumber_iff hcount (has a ha) hk).symm

/-- The first that has come back to it. -/
theorem find?_byId {as : List Arrival} (hcount : count ≤ ushrtMax)
    (has : ∀ a ∈ as, ∃ j < count, a.bytes = answerNumber client ns hne j) {k : ℕ}
    (hk : k < count) :
    ((as.map Arrival.byId).find? fun a => a.origin = k) =
      (as.find? fun a => a.bytes = answerNumber client ns hne k).map Arrival.byId := by
  induction as with
  | nil => rfl
  | cons a as ih =>
    have hiff := eq_answerNumber_iff hcount (has a List.mem_cons_self) hk
    rw [List.map_cons, List.find?_cons, List.find?_cons,
      ih fun a' ha' => has a' (List.mem_cons_of_mem _ ha')]
    by_cases hbytes : a.bytes = answerNumber client ns hne k
    · have hid : a.byId.origin = k := hiff.mp hbytes
      rw [decide_eq_true hid, decide_eq_true hbytes]
      rfl
    · have hid : a.byId.origin ≠ k := fun hid => hbytes (hiff.mpr hid)
      rw [decide_eq_false hid, decide_eq_false hbytes]

/-- **The books of mig over an unreliable link.** For any table of names, up to `USHRT_MAX` queries
and a clock that moves on from reading to reading, whatever the network loses, repeats, holds back
or reorders: mig has exactly those queries on record as answered to which an answer has come back,
once and with the time of the first one, and what it prints as lost are the others. -/
theorem losses_accounted {malloc malloc' : Malloc} {names queries : Block} {queryLimit : ℕ}
    (hcount : count ≤ ushrtMax) (hlimit : ∀ n ∈ ns, n.labels.WithinLimit)
    (htable : NamesTable names ns)
    (hqueries : makeQueries malloc names count client = some (some queries))
    {sends receives : List Timespec} {pairs : List PairTimespec} (hsends : sends.length = count)
    (hreceives : receives.length = count) (hpairs : pairs.length = count)
    {recvBuffer sendBuffer : Block} {size : ℕ} {queue : MessageQueue}
    (hrecv : recvBuffer.size = receiveBufferSize) (hsend : sendBuffer.size = sendBufferSize)
    (hqueue : makeMessageQueue malloc' size = some queue)
    {serverReceives serverSends : Option (List Timespec)}
    (hrun : Run linkStep (Link.Unreliable address)
      (Link.initial (Mig.initial queries count queryLimit sends receives pairs)
        (Server.initial recvBuffer sendBuffer queue serverReceives serverSends)) is s)
    (hclock : ((migInputs is).flatMap MigInput.readings).Pairwise
      fun t t' => t.nsec < t'.nsec) :
    s.Keeps client ns hne address count is := by
  have hanswers := haveAnswers_tableQueries client hne hlimit count
  have hids := hasIds_tableQueries client ns hne count
  have hmessages := length_tableQueries client ns hne count
  have hstart := Mig.booked_tableQueries queryLimit hne htable hqueries hsends hreceives hpairs
  have h : s.Kept (tableQueries client ns hne count) address (migInputs is) :=
    Link.Kept.run ⟨Link.working_initial hstart hrecv hsend hqueue _ _, Mig.attributed_initial ..⟩
      hanswers hids (hmessages.trans_le hcount) hrun hclock
  have hcountEq : s.mig.count = count := h.count_eq.trans hmessages
  have hsent := h.booked.sent_le
  have harrived : ∀ a ∈ arrivals (migInputs is), ∃ j < s.mig.messagesSent,
      a.bytes = answerNumber client ns hne j := fun a ha => (h.arrived a ha).exists_number
  have hnumber : ∀ a ∈ arrivals (migInputs is), ∃ j < count,
      a.bytes = answerNumber client ns hne j := by
    intro a ha
    obtain ⟨j, hj, hbytes⟩ := harrived a ha
    exact ⟨j, by omega, hbytes⟩
  have hlt : ∀ {k : ℕ} {pair : PairTimespec}, s.mig.pairs[k]? = some pair → k < count := by
    intro k pair hpair
    obtain ⟨hk, -⟩ := List.getElem?_eq_some_iff.mp hpair
    rwa [h.booked.pairs_length, hcountEq] at hk
  constructor
  case served =>
    obtain ⟨contents, horder⟩ := h.inOrder
    refine ⟨contents, horder.queue, fun e he => ?_⟩
    have hmem : some e ∈ s.server.queued.map Datagram.reply := by
      rw [horder.order]
      exact List.mem_map_of_mem he
    obtain ⟨d, hd, hreply⟩ := List.mem_map.mp hmem
    obtain ⟨message, hmade, rfl⟩ := Option.map_eq_some_iff.mp hreply
    obtain ⟨k, hk, rfl⟩ := (h.answersSent hd hmade).exists_number
    exact ⟨k, hk, by rw [(h.queued d hd).1]⟩
  case arrived => exact harrived
  case answered_iff =>
    intro k pair hpair
    have hany := any_byId hcount hnumber (hlt hpair)
    rw [Bool.eq_iff_iff, List.any_eq_true, List.any_eq_true] at hany
    simp only [decide_eq_true_iff] at hany
    rw [h.attributed.answer_iff hpair, hany]
  case received =>
    intro k pair hpair hanswer
    have hfirst := h.attributed.received hpair hanswer
    rw [find?_byId hcount hnumber (hlt hpair), Option.bind_map] at hfirst
    exact hfirst
  case lost =>
    rw [h.attributed.lost_eq h.booked, hcountEq]
    refine List.countP_congr fun k hk => ?_
    rw [any_byId hcount hnumber (List.mem_range.mp hk)]
  case running => exact ⟨h.running, h.ready.point⟩
  case progress =>
    intro i henv hexpects
    cases i with
    | mig i =>
      obtain ⟨mig, hstep, -⟩ := migStep_outcome h.booked (hexpects i rfl)
      rw [linkStep, hstep]
      rfl
    | server i =>
      obtain ⟨server, hstep, -⟩ := h.server_progress hanswers henv
      rw [linkStep, hstep]
      rfl

/-! ### A run with losses and repetitions -/

/-- A run of mig over the network, if copies of what comes in have been sent. -/
theorem run_mig_unreliable {address : List UInt8} {is : List MigInput} {start mig : Mig}
    (hrun : Run migStep Mig.Undisturbed start is mig) (s : Link)
    (hsent : ∀ a ∈ arrivals is, Entry.mk address a.bytes ∈ s.server.sent) :
    Run linkStep (Link.Unreliable address) { s with mig := start } (is.map .mig)
      { s with mig, returned := s.returned + (arrivals is).length } :=
  run_mig_of hrun s fun _ _ _ hfair ha =>
    ⟨hfair.1, fun a hai => ⟨hfair.2 a hai, hsent a (List.mem_of_getElem? (ha a hai))⟩⟩

/-- A run of the server over it. -/
theorem run_server_unreliable {address : List UInt8} {is : List SystemResult}
    {start server : Server} (hrun : Run serveStep (Server.Fair (· = address)) start is server)
    (s : Link) (hwire : ∀ d ∈ datagrams is, d.address = address ∧ d.bytes ∈ s.mig.wire) :
    Run linkStep (Link.Unreliable address) { s with server := start } (is.map .server)
      { s with server, delivered := s.delivered + (datagrams is).length } :=
  run_server_of hrun s fun _ _ _ hfair hd =>
    ⟨hfair, fun d hdi => hwire d (List.mem_of_getElem? (hd d hdi))⟩

/-- The second query reaches the server twice, then the first does, and the third is lost. -/
def repeatedDatagrams : List Datagram :=
  [secondDatagram, secondDatagram, firstDatagram]

/-- Two answers are sent. -/
def repeatedServed : List SystemResult :=
  traffic repeatedDatagrams [askedReply 1, askedReply 1] ⟨5, 0⟩

theorem exists_run_repeated : ∃ server,
    Run serveStep (Server.Fair (· = localAddress)) freshServer
        (repeatedServed ++ sendingOne (askedReply 0) ⟨6, 0⟩) server ∧
      server.sent = [askedReply 1, askedReply 1, askedReply 0] := by
  have hreplies : repeatedDatagrams.map Datagram.reply =
      ([askedReply 1, askedReply 1] ++ [askedReply 0]).map some := by
    decide +kernel
  have hsendable : ∀ e ∈ [askedReply 1, askedReply 1], e.Sendable (· = localAddress) := by
    rw [List.forall_mem_cons, List.forall_mem_singleton]
    exact ⟨⟨by decide +kernel, rfl⟩, ⟨by decide +kernel, rfl⟩⟩
  obtain ⟨server, hrun, -, hsent, horder, hpoint⟩ := exists_run_traffic
    size_recvBuffer_freshServer size_sendBuffer_freshServer makeMessageQueue_freshServer none none
    hreplies (by decide) (by decide) hsendable ⟨5, 0⟩
  have hone : (askedReply 0).Sendable (· = localAddress) := ⟨by decide +kernel, rfl⟩
  obtain ⟨server', hrun', hsent', -⟩ := horder.exists_run_one hpoint hone ⟨6, 0⟩
  exact ⟨server', hrun.append hrun', by rw [hsent', hsent]; rfl⟩

/-- mig gets the answer to its second query twice, and in between that to the first. -/
def repeatedInputs : List MigInput :=
  [.select (.ready true false), .recv (.datagram (askedArrival 1 ⟨8, 0⟩)),
    .recv (.datagram (askedArrival 0 ⟨9, 0⟩)), .recv (.datagram (askedArrival 1 ⟨10, 0⟩)),
    .recv .again]

/-- The repetition changes nothing. -/
def repeatedMig : Mig :=
  { sentMig with
    receives := [⟨8, 0⟩, ⟨9, 0⟩, ⟨0, 0⟩]
    pairs := [⟨⟨1, 0⟩, 1, ⟨9, 0⟩⟩, ⟨⟨2, 0⟩, 1, ⟨8, 0⟩⟩, ⟨⟨4, 0⟩, 0, ⟨0, 0⟩⟩]
    readSocket := true, messagesReceived := 2 }

theorem run_repeatedMig : Run migStep Mig.Undisturbed sentMig repeatedInputs repeatedMig :=
  .of_foldlM_guarded (by decide +kernel)

/-- The calls of both programs. -/
def unreliableInputs : List LinkInput :=
  sentInputs.map .mig ++ (repeatedServed ++ sendingOne (askedReply 0) ⟨6, 0⟩).map .server ++
    repeatedInputs.map .mig

theorem losses_accounted_repeated :
    ∃ server, Link.Keeps none [nameA, nameBC] (by decide) localAddress 3 unreliableInputs
      { mig := repeatedMig, server, delivered := 3, returned := 3 } := by
  obtain ⟨server, hserved, hsent⟩ := exists_run_repeated
  have hqueries : Run linkStep (Link.Unreliable localAddress) (.initial threeMig freshServer)
      (sentInputs.map .mig) ⟨sentMig, freshServer, 0, 0⟩ :=
    run_mig_unreliable run_sentMig (.initial threeMig freshServer) (by decide)
  have hserver : Run linkStep (Link.Unreliable localAddress) ⟨sentMig, freshServer, 0, 0⟩
      ((repeatedServed ++ sendingOne (askedReply 0) ⟨6, 0⟩).map .server)
      ⟨sentMig, server, 3, 0⟩ :=
    run_server_unreliable hserved ⟨sentMig, freshServer, 0, 0⟩ (by decide)
  have hreplies : Run linkStep (Link.Unreliable localAddress) ⟨sentMig, server, 3, 0⟩
      (repeatedInputs.map .mig) ⟨repeatedMig, server, 3, 3⟩ :=
    run_mig_unreliable run_repeatedMig ⟨sentMig, server, 3, 0⟩ (by
      rw [hsent]
      decide +kernel)
  exact ⟨server, losses_accounted (by decide) withinLimit_nameA_nameBC namesTable_twoNames
    makeQueries_threeQueries rfl rfl rfl size_recvBuffer_freshServer size_sendBuffer_freshServer
    makeMessageQueue_freshServer ((hqueries.append hserver).append hreplies) (by decide)⟩

end DnsTools
