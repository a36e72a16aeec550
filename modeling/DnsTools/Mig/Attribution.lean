import DnsTools.Mig.Bookkeeping

/-!
# Attributing the answers

`recv_answer` knows the query a datagram replies to by its id alone, and the ids repeat with period
`USHRT_MAX`. It credits the datagram to the first pair with that id which has no answer and whose
time of sending, as far as there is one, has passed.

This module says when that is right. With unique ids it always is, as long as a reply is stamped
later than the queries sent before it. With more queries it is right exactly for those replies which
are `Mig.Unambiguous`. Whether the query credited has been sent at all is another matter: the time
of sending is not initialised, so it may look like a time in the past.

## The network

To say that an answer is on record with the wrong query, a datagram has to belong to one. So an
`Arrival` carries the number of the query that it replies to, its `origin`. The program does not see
it, and no step depends on it. `Genuine` says that such a query has been sent and that the datagram
has its id. A network that is `Honest` delivers nothing else; it may still lose, repeat, delay and
reorder as it likes. `Timely` adds that each reply is stamped later than the queries sent before it.

## What is to hold

`Mig.Attributed` compares the pairs with the arrivals so far, at every moment: a query is marked as
answered if and only if a reply to it has arrived, and then the time on record is that of the first.
A repetition changes nothing, and so an answer can be wrong in two ways, by being on record with
another query or by not being on record at all.

## When it holds

At a single step there is an exact condition (`Mig.Attributed.arrival_iff`), as long as all has been
right so far: the search must not come to the pair of another query before that of the right one,
and the right one must be acceptable, unless it has its answer. This is `Unambiguous`. It speaks of
the datagram, the time, and the pairs as they are in front of the step. For whole runs the two
conditions hold or fail together: up to the first ambiguous reply all is right, and at that reply it
is not.

## A run where it fails

With 65536 queries there are two with the id zero. If the reply to the first of them is repeated,
the repetition finds the first pair answered and is credited to the other one, which may not even
have been sent. `duplicateInputs` is such a run.

## Main results

* `Mig.Attributed.arrival_iff` — one reply
* `repliesAttributed_iff` — what whole runs have to keep
* `replies_attributed_iff` — exactly the runs in which every answer is on record with its query
-/

namespace DnsTools

open Memory Endian

variable {messages : List (List UInt8)} {s s' : Mig}

/-! ### Genuine replies -/

/-- The datagrams among the inputs. -/
def MigInput.arrival : MigInput → Option Arrival
  | .recv (.datagram a) => some a
  | _ => none

theorem MigInput.arrival_eq_some {i : MigInput} {a : Arrival} :
    i.arrival = some a ↔ i = .recv (.datagram a) := by
  constructor
  · intro h
    unfold arrival at h
    split at h
    · rw [Option.some.inj h]
    · simp at h
  · rintro rfl
    rfl

/-- The datagrams that have arrived. -/
def arrivals (is : List MigInput) : List Arrival := is.filterMap MigInput.arrival

/-- The datagram is a reply to a query already sent, and the clock works. -/
structure Mig.Genuine (s : Mig) (a : Arrival) : Prop where
  /-- It has the id of the query. -/
  reply : ∃ query, s.wire[a.origin]? = some query ∧ transactionId a.bytes = transactionId query
  /-- It has room for a header. -/
  long : sizeofDnsQuery ≤ a.bytes.length
  /-- The time of its arrival is known. -/
  clock : a.clock.isSome

/-- The network delivers genuine replies only. It may lose, duplicate, delay and reorder them. -/
def Mig.Honest (s : Mig) (i : MigInput) : Prop := ∀ a, i.arrival = some a → s.Genuine a

/-- The network delivers genuine replies only, and each is stamped later than the queries sent
before it. -/
def Mig.Timely (s : Mig) (i : MigInput) : Prop :=
  s.Honest i ∧ ∀ a t, i.arrival = some a → a.clock = some t →
    ∀ sent ∈ s.sends.take s.messagesSent, sent.nsec < t.nsec

theorem Mig.Genuine.honest {a : Arrival} (h : s.Genuine a) : s.Honest (.recv (.datagram a)) := by
  intro a' ha'
  rw [← Option.some.inj ha']
  exact h

theorem Mig.honest_of_arrival_none {i : MigInput} (h : i.arrival = none) : s.Honest i := by
  intro a ha
  simp [h] at ha

/-- A message that starts with these two bytes has this id. -/
theorem transactionId_append (x : UInt16) (rest : List UInt8) :
    transactionId (beBytes 2 x.toNat ++ rest) = x.toNat := by
  have htake : (beBytes 2 x.toNat ++ rest).take 2 = leBytes 2 (htons x).toNat := by
    rw [List.take_left' (length_beBytes 2 x.toNat)]
    exact (leBytes_htons x).symm
  rw [transactionId, Block.halfWord, DnsQuery.transactionId, List.drop_zero, htake,
    leNat_leBytes_of_lt (UInt16.toNat_lt _), UInt16.ofNat_toNat, htons, htons, swap16_swap16]

/-- A query carries its number, modulo the period, as id. -/
theorem transactionId_queryMessage (client : Option ClientId) (k : ℕ) (w : List UInt8) :
    transactionId (queryMessage client k w) = k % ushrtMax := by
  have hid : (UInt16.ofNat (k % ushrtMax)).toNat = k % ushrtMax := by
    rw [UInt16.toNat_ofNat', ushrtMax]
    omega
  rw [queryMessage.eq_def, List.append_assoc, List.append_assoc, ← hid]
  exact transactionId_append _ _

/-- The messages carry their numbers, modulo the period, as ids. -/
def HasIds (messages : List (List UInt8)) : Prop :=
  ∀ (k : ℕ) (message : List UInt8), messages[k]? = some message →
    transactionId message = k % ushrtMax

theorem hasIds_queryMessages (client : Option ClientId) (ws : List (List UInt8)) :
    HasIds (queryMessages client 0 ws) := by
  intro k message h
  rw [getElem?_queryMessages, Option.map_eq_some_iff] at h
  obtain ⟨w, -, rfl⟩ := h
  exact transactionId_queryMessage client k w

/-- The search for an id comes past the pairs of the queries with that id. -/
theorem inWalk_iff {j k : ℕ} : InWalk (j % ushrtMax) k ↔ k % ushrtMax = j % ushrtMax := by
  constructor
  · intro h
    rw [Table.OnStride.mod_eq h, Nat.mod_mod]
  · intro h
    exact h ▸ Table.onStride_of_mod k ushrtMax

/-! ### Attributed answers -/

/-- After the arrivals listed, every answer is on record with the query it belongs to. -/
structure Mig.Attributed (as : List Arrival) (s : Mig) : Prop where
  /-- The queries marked as answered are those a reply has arrived to. -/
  answer_iff : ∀ {k : ℕ} {pair : PairTimespec}, s.pairs[k]? = some pair →
    (pair.answer = 1 ↔ ∃ a ∈ as, a.origin = k)
  /-- The time on record is that of the first reply. -/
  received : ∀ {k : ℕ} {pair : PairTimespec}, s.pairs[k]? = some pair → pair.answer = 1 →
    (as.find? (·.origin = k)).bind (·.clock) = some pair.received

/-- No answer has come or gone. -/
def Mig.SameAnswers (s s' : Mig) : Prop :=
  ∀ (k : ℕ) (pair' : PairTimespec), s'.pairs[k]? = some pair' →
    ∃ pair, s.pairs[k]? = some pair ∧ pair'.answer = pair.answer ∧
      pair'.received = pair.received

theorem Mig.SameData.sameAnswers (h : s.SameData s') : s.SameAnswers s' := by
  intro k pair' hpair'
  exact ⟨pair', h.pairs ▸ hpair', rfl, rfl⟩

theorem Mig.sameAnswers_record {pair : PairTimespec} {t : Timespec}
    (hpair : s.pairs[s.messagesSent]? = some pair) :
    s.SameAnswers (s.record messages pair t) := by
  intro k pair' hpair'
  change (s.pairs.set s.messagesSent { pair with sent := t })[k]? = some pair' at hpair'
  by_cases hk : s.messagesSent = k
  · obtain ⟨hlt, -⟩ := List.getElem?_eq_some_iff.mp hpair
    rw [← hk, List.getElem?_set_self hlt, Option.some.injEq] at hpair'
    exact ⟨pair, hk ▸ hpair, hpair' ▸ rfl, hpair' ▸ rfl⟩
  · rw [List.getElem?_set_ne hk] at hpair'
    exact ⟨pair', hpair', rfl, rfl⟩

theorem Mig.SameAnswers.trans {s'' : Mig} (h : s.SameAnswers s') (h' : s'.SameAnswers s'') :
    s.SameAnswers s'' := by
  intro k pair'' hpair''
  obtain ⟨pair', hpair', hanswer', hreceived'⟩ := h' k pair'' hpair''
  obtain ⟨pair, hpair, hanswer, hreceived⟩ := h k pair' hpair'
  exact ⟨pair, hpair, hanswer'.trans hanswer, hreceived'.trans hreceived⟩

/-- Answers come with datagrams only. -/
theorem MigOutcome.sameAnswers {i : MigInput} (h : MigOutcome messages s i s')
    (hi : i.arrival = none) : s.SameAnswers s' := by
  cases h with
  | moved _ _ hcontinues => exact hcontinues.idle.same.sameAnswers
  | failed _ hsame _ => exact hsame.sameAnswers
  | sent hpair _ hcontinues =>
    exact (Mig.sameAnswers_record hpair).trans hcontinues.idle.same.sameAnswers
  | rejected _ => simp [MigInput.arrival] at hi
  | ignored _ _ => simp [MigInput.arrival] at hi
  | credited _ _ _ _ _ _ _ => simp [MigInput.arrival] at hi

/-- A step without a datagram, in which no call fails. -/
structure Mig.Quiet (s : Mig) (i : MigInput) (s' : Mig) : Prop where
  /-- The answers are the same. -/
  answers : s.SameAnswers s'
  /-- The times of receiving are the same. -/
  receives : s'.receives = s.receives
  /-- As many answers have been received. -/
  messagesReceived : s'.messagesReceived = s.messagesReceived
  /-- No fewer queries have been sent. -/
  messagesSent : s.messagesSent ≤ s'.messagesSent
  /-- The number of waits left. -/
  attempts : s.AttemptsLeft i s'.attempts
  /-- There is no error. -/
  point : s'.point ≠ .failed
  /-- The loops end when every query is answered or no wait is left. -/
  finished : s'.point = .finished → s.count ≤ s.messagesReceived ∨ s'.attempts = 0

theorem MigOutcome.quiet {i : MigInput} (h : MigOutcome messages s i s') (hi : i.arrival = none)
    (hfault : ¬s.Faulty i) : s.Quiet i s' := by
  have hanswers := h.sameAnswers hi
  cases h with
  | moved _ hleft hcontinues =>
    obtain ⟨⟨hsame, -, -⟩, hattempts, hpoint, -, hfinished⟩ := hcontinues
    exact ⟨hanswers, hsame.receives, hsame.messagesReceived, hsame.messagesSent.ge,
      hattempts ▸ hleft, hpoint, hattempts ▸ hfinished⟩
  | failed hfaulty _ _ => exact absurd hfaulty hfault
  | sent _ _ hcontinues =>
    obtain ⟨⟨hsame, -, -⟩, hattempts, hpoint, -, hfinished⟩ := hcontinues
    have hmore : s.messagesSent ≤ s'.messagesSent := by
      rw [hsame.messagesSent]
      exact Nat.le_succ _
    exact ⟨hanswers, hsame.receives, hsame.messagesReceived, hmore, Or.inl hattempts, hpoint,
      hattempts ▸ hfinished⟩
  | rejected _ => simp [MigInput.arrival] at hi
  | ignored _ _ => simp [MigInput.arrival] at hi
  | credited _ _ _ _ _ _ _ => simp [MigInput.arrival] at hi

section Attributed

variable {as : List Arrival} {a : Arrival}

theorem Mig.Attributed.of_sameAnswers (h : s.Attributed as) (hsame : s.SameAnswers s') :
    s'.Attributed as := by
  constructor
  · intro k pair' hpair'
    obtain ⟨pair, hpair, hanswer, -⟩ := hsame k pair' hpair'
    rw [hanswer]
    exact h.answer_iff hpair
  · intro k pair' hpair' hanswered
    obtain ⟨pair, hpair, hanswer, hreceived⟩ := hsame k pair' hpair'
    rw [hreceived]
    exact h.received hpair (hanswer ▸ hanswered)

theorem exists_origin_append {k : ℕ} :
    (∃ a' ∈ as ++ [a], a'.origin = k) ↔ (∃ a' ∈ as, a'.origin = k) ∨ a.origin = k := by
  simp only [List.mem_append, List.mem_singleton, or_and_right, exists_or, exists_eq_left]

/-- A reply to a query that has been answered before changes nothing. -/
theorem Mig.Attributed.append_duplicate (h : s.Attributed as)
    (hknown : ∃ a' ∈ as, a'.origin = a.origin) : s.Attributed (as ++ [a]) := by
  constructor
  · intro k pair hpair
    rw [h.answer_iff hpair, exists_origin_append]
    constructor
    · exact Or.inl
    · rintro (harrived | rfl)
      · exact harrived
      · exact hknown
  · intro k pair hpair hanswered
    obtain ⟨a', ha', horigin⟩ := (h.answer_iff hpair).mp hanswered
    have hfound : (as.find? (·.origin = k)).isSome :=
      List.find?_isSome.mpr ⟨a', ha', by simpa using horigin⟩
    rw [List.find?_append, Option.or_of_isSome hfound]
    exact h.received hpair hanswered

/-- The first reply to a query is credited to it. -/
theorem Mig.Attributed.append_credit (h : s.Attributed as) {pair : PairTimespec} {t : Timespec}
    (hpair : s.pairs[a.origin]? = some pair) (hanswer : pair.answer = 0)
    (hclock : a.clock = some t) : (s.credit a.origin pair t).Attributed (as ++ [a]) := by
  obtain ⟨hlt, -⟩ := List.getElem?_eq_some_iff.mp hpair
  have hnew : ¬∃ a' ∈ as, a'.origin = a.origin := by
    rw [← h.answer_iff hpair, hanswer]
    exact Nat.zero_ne_one
  have hcases : ∀ {k : ℕ} {pair' : PairTimespec},
      (s.credit a.origin pair t).pairs[k]? = some pair' →
      (k = a.origin ∧ pair' = { pair with answer := pair.answer + 1, received := t }) ∨
        (k ≠ a.origin ∧ s.pairs[k]? = some pair') := by
    intro k pair' hpair'
    by_cases hk : a.origin = k
    · subst hk
      rw [Mig.credit, List.getElem?_set_self hlt, Option.some.injEq] at hpair'
      exact Or.inl ⟨rfl, hpair'.symm⟩
    · rw [Mig.credit, List.getElem?_set_ne hk] at hpair'
      exact Or.inr ⟨Ne.symm hk, hpair'⟩
  constructor
  · intro k pair' hpair'
    rw [exists_origin_append]
    rcases hcases hpair' with ⟨rfl, rfl⟩ | ⟨hk, hpair'⟩
    · simp [hanswer]
    · rw [h.answer_iff hpair', or_iff_left (Ne.symm hk)]
  · intro k pair' hpair' hanswered
    rw [List.find?_append]
    rcases hcases hpair' with ⟨rfl, rfl⟩ | ⟨hk, hpair'⟩
    · have hnone : as.find? (·.origin = a.origin) = none := by
        rw [List.find?_eq_none]
        intro a' ha' horigin
        exact hnew ⟨a', ha', by simpa using horigin⟩
      simp [hnone, hclock]
    · obtain ⟨a', ha', horigin⟩ := (h.answer_iff hpair').mp hanswered
      have hfound : (as.find? (·.origin = k)).isSome :=
        List.find?_isSome.mpr ⟨a', ha', by simpa using horigin⟩
      rw [Option.or_of_isSome hfound]
      exact h.received hpair' hanswered

end Attributed

/-! ### Unambiguous replies -/

/-- A reply that arrives at the time `t` is not taken for a reply to another query. -/
structure Mig.Unambiguous (s : Mig) (a : Arrival) (t : Timespec) : Prop where
  /-- Unless its query has been answered before, it arrives later than the query was sent. -/
  later : ∀ {pair : PairTimespec}, s.pairs[a.origin]? = some pair → pair.answer = 0 →
    pair.sent.nsec < t.nsec
  /-- If the pair of another query with the same id is acceptable, so is that of its query, and the
  other one comes behind it. -/
  first : ∀ {k : ℕ}, k < s.count → k % ushrtMax = a.origin % ushrtMax → k ≠ a.origin →
    Eligible s.pairs t.nsec k → a.origin < k ∧ Eligible s.pairs t.nsec a.origin

/-- Every reply is unambiguous. -/
def Mig.AllUnambiguous (s : Mig) (i : MigInput) : Prop :=
  ∀ a t, i.arrival = some a → a.clock = some t → s.Unambiguous a t

section Unambiguous

variable {a : Arrival}

/-- A genuine reply has the id of its query, which has been sent. -/
theorem Mig.Genuine.origin (h : s.Genuine a) (hids : HasIds messages) (hbooked : s.Booked messages)
    (hpoint : s.point ≠ .failed) :
    a.origin < s.messagesSent ∧ transactionId a.bytes = a.origin % ushrtMax := by
  obtain ⟨query, hquery, hid⟩ := h.reply
  rw [(hbooked.sent hpoint).2, List.getElem?_take] at hquery
  split at hquery
  · rename_i hlt
    exact ⟨hlt, hid.trans (hids _ _ hquery)⟩
  · simp at hquery

/-- The checks of `recv_answer` let a genuine reply pass. -/
theorem Mig.Genuine.accepts (h : s.Genuine a) (hids : HasIds messages)
    (hbooked : s.Booked messages) (hpoint : s.point ≠ .failed) {t : Timespec}
    (hclock : a.clock = some t) : s.Accepts a t := by
  obtain ⟨hsent, hid⟩ := h.origin hids hbooked hpoint
  have hle := hbooked.sent_le
  have hmod := Nat.mod_le a.origin ushrtMax
  exact ⟨h.long, hclock, by omega⟩

/-- **One reply.** When the past is attributed, what decides whether a reply goes on record with the
query it belongs to is whether it is unambiguous. -/
theorem Mig.Attributed.arrival_iff {as : List Arrival} (h : s.Attributed as)
    (hids : HasIds messages) (hbooked : s.Booked messages) (hpoint : s.point ≠ .failed)
    (hgenuine : s.Genuine a) {t : Timespec} (hclock : a.clock = some t)
    (houtcome : MigOutcome messages s (.recv (.datagram a)) s') :
    s.Unambiguous a t ↔ s'.Attributed (as ++ [a]) := by
  obtain ⟨hsent, hid⟩ := hgenuine.origin hids hbooked hpoint
  have horigin : a.origin < s.count := Nat.lt_of_lt_of_le hsent hbooked.sent_le
  obtain ⟨own, hown⟩ : ∃ own, s.pairs[a.origin]? = some own :=
    ⟨_, List.getElem?_eq_getElem (by rw [hbooked.pairs_length]; exact horigin)⟩
  have hwalk : ∀ {k}, InWalk (transactionId a.bytes) k ↔ k % ushrtMax = a.origin % ushrtMax := by
    intro k
    rw [hid]
    exact inWalk_iff
  cases houtcome with
  | moved hi _ _ => exact absurd rfl (hi a)
  | failed hfault _ _ => exact absurd rfl (hfault.ne_datagram a)
  | rejected hreject =>
    exact absurd (hgenuine.accepts hids hbooked hpoint hclock) (hreject t)
  | @ignored _ t' haccept hnone =>
    obtain rfl : t' = t := Option.some.inj (haccept.clock.symm.trans hclock)
    have hownNot : ¬Eligible s.pairs t'.nsec a.origin := hnone _ (hwalk.mpr rfl) horigin
    constructor
    · intro hunambiguous
      have hanswered : own.answer = 1 := by
        have hle := hbooked.answer_le own (List.mem_of_getElem? hown)
        have hne : own.answer ≠ 0 := fun hzero =>
          hownNot ⟨own, hown, hunambiguous.later hown hzero, hzero⟩
        omega
      exact h.append_duplicate ((h.answer_iff hown).mp hanswered)
    · intro hattributed
      have hanswered : own.answer = 1 :=
        (hattributed.answer_iff hown).mpr ⟨a, by simp, rfl⟩
      constructor
      · intro pair hpair hanswer
        obtain rfl : own = pair := Option.some.inj (hown.symm.trans hpair)
        omega
      · intro k hk hmod _ heligible
        exact absurd heligible (hnone k (hwalk.mpr hmod) hk)
  | @credited _ t' haccept k hk hlt pair hpair hpairSent hanswer hfirst =>
    obtain rfl : t' = t := Option.some.inj (haccept.clock.symm.trans hclock)
    have heligible : Eligible s.pairs t'.nsec k := ⟨pair, hpair, hpairSent, hanswer⟩
    constructor
    · intro hunambiguous
      obtain rfl : k = a.origin := by
        by_contra hne
        obtain ⟨hbehind, hownEligible⟩ := hunambiguous.first hlt (hwalk.mp hk) hne heligible
        exact hfirst a.origin (hwalk.mpr rfl) hbehind hownEligible
      exact h.append_credit hpair hanswer hclock
    · intro hattributed
      obtain rfl : a.origin = k := by
        obtain ⟨hk', -⟩ := List.getElem?_eq_some_iff.mp hpair
        have hcredited := hattributed.answer_iff (List.getElem?_set_self hk')
        simp only [hanswer, true_iff] at hcredited
        rcases exists_origin_append.mp hcredited with harrived | horigin
        · have hone := (h.answer_iff hpair).mpr harrived
          omega
        · exact horigin
      constructor
      · intro pair' hpair' _
        obtain rfl : pair = pair' := Option.some.inj (hpair.symm.trans hpair')
        exact hpairSent
      · intro k' hk' hmod hne heligible'
        have hnot : ¬k' < a.origin := fun hlt' => hfirst k' (hwalk.mpr hmod) hlt' heligible'
        exact ⟨by omega, heligible⟩

end Unambiguous

/-! ### Whole runs -/

/-- Throughout a run, every answer goes on record with the query it belongs to. -/
structure RepliesAttributed (start : Mig) (is : List MigInput) : Prop where
  /-- At every moment the records agree with the replies that have arrived. -/
  attributed : Run.Throughout migStep (fun is s => s.Attributed (arrivals is)) start is
  /-- Whenever a query becomes answered, the datagram at hand is a reply to it. -/
  credited : ∀ (is' : List MigInput) (a : Arrival) (s s' : Mig),
    is' ++ [.recv (.datagram a)] <+: is → Run migStep (fun _ _ => True) start is' s →
    migStep s (.recv (.datagram a)) = some s' →
    ∀ (k : ℕ) (pair pair' : PairTimespec), s.pairs[k]? = some pair → s'.pairs[k]? = some pair' →
      pair.answer = 0 → pair'.answer = 1 → a.origin = k

theorem arrivals_append_singleton (is : List MigInput) (i : MigInput) :
    arrivals (is ++ [i]) = arrivals is ++ i.arrival.toList := by
  cases hi : i.arrival <;> simp [arrivals, hi]

/-- That the records agree at every moment says what happens in between. -/
theorem repliesAttributed_iff {start : Mig} {is : List MigInput} :
    RepliesAttributed start is ↔
      Run.Throughout migStep (fun is s => s.Attributed (arrivals is)) start is := by
  constructor
  · intro h
    exact h.attributed
  · intro h
    refine ⟨h, fun is' a s s' hpart hrun hstep k pair pair' hpair hpair' hanswer hanswer' => ?_⟩
    have hbefore := h is' s ((List.prefix_append _ _).trans hpart) hrun
    have hafter := h _ s' hpart (hrun.append (.single trivial hstep))
    have hcredited := (hafter.answer_iff hpair').mp hanswer'
    rw [arrivals_append_singleton] at hcredited
    rcases exists_origin_append.mp hcredited with harrived | horigin
    · have hone := (hbefore.answer_iff hpair).mpr harrived
      omega
    · exact horigin

/-- No pair has an answer when the run starts. -/
theorem Mig.answer_initial {queries : Block} {count queryLimit : ℕ} {sends receives : List Timespec}
    {pairs : List PairTimespec} {k : ℕ} {pair : PairTimespec}
    (hpair : (Mig.initial queries count queryLimit sends receives pairs).pairs[k]? = some pair) :
    pair.answer = 0 := by
  rw [(Mig.continues_initial ..).idle.same.pairs, Mig.allocated, List.getElem?_map,
    Option.map_eq_some_iff] at hpair
  obtain ⟨pair', -, rfl⟩ := hpair
  rfl

theorem Mig.attributed_initial (queries : Block) (count queryLimit : ℕ)
    (sends receives : List Timespec) (pairs : List PairTimespec) :
    (Mig.initial queries count queryLimit sends receives pairs).Attributed [] := by
  constructor
  · intro k pair hpair
    simp [Mig.answer_initial hpair]
  · intro k pair hpair hanswer
    simp [Mig.answer_initial hpair] at hanswer

/-- An input without a datagram is timely. -/
theorem Mig.timely_of_arrival_none {i : MigInput} (h : i.arrival = none) : s.Timely i :=
  ⟨Mig.honest_of_arrival_none h, fun a t ha => by simp [h] at ha⟩

/-- A genuine reply is timely, if the clock has moved on since the queries. -/
theorem Mig.timely_of_clock {a : Arrival} (hgenuine : s.Genuine a) {t : Timespec}
    (hclock : a.clock = some t)
    (hlater : ∀ sent ∈ s.sends.take s.messagesSent, sent.nsec < t.nsec) :
    s.Timely (.recv (.datagram a)) := by
  refine ⟨hgenuine.honest, fun a' t' ha' ht' => ?_⟩
  obtain rfl := Option.some.inj ha'
  exact Option.some.inj (hclock.symm.trans ht') ▸ hlater

theorem timely_answeredMig : Run migStep Mig.Timely threeMig answeredInputs answeredMig := by
  have hquiet : ∀ {s : Mig} {i : MigInput}, i.arrival = none → s.Timely i :=
    Mig.timely_of_arrival_none
  refine .cons (hquiet rfl) rfl (.cons (hquiet rfl) rfl (.cons (hquiet rfl) rfl
    (.cons (hquiet rfl) rfl (.cons (hquiet rfl) rfl (.cons ?_ rfl (.cons (hquiet rfl) rfl
      (.cons (hquiet rfl) rfl (.cons (hquiet rfl) rfl (.single ?_ rfl)))))))))
  · refine Mig.timely_of_clock ⟨⟨_, rfl, by decide⟩, by decide, rfl⟩ rfl ?_
    show ∀ sent ∈ [(⟨1, 0⟩ : Timespec), ⟨2, 0⟩], sent.nsec < (⟨3, 0⟩ : Timespec).nsec
    decide
  · refine Mig.timely_of_clock ⟨⟨_, rfl, by decide⟩, by decide, rfl⟩ rfl ?_
    show ∀ sent ∈ [(⟨1, 0⟩ : Timespec), ⟨2, 0⟩, ⟨4, 0⟩], sent.nsec < (⟨5, 0⟩ : Timespec).nsec
    decide

variable {malloc : Malloc} {names queries : Block} {count queryLimit : ℕ}
  {client : Option ClientId} {sends receives : List Timespec} {pairs : List PairTimespec}
  {is : List MigInput}

/-- The records agree with the replies at every moment exactly if every reply is unambiguous. -/
theorem throughout_attributed_iff (hids : HasIds messages)
    (hstart : (Mig.initial queries count queryLimit sends receives pairs).Booked messages)
    (hrun : Run migStep Mig.Honest (Mig.initial queries count queryLimit sends receives pairs)
      is s) :
    Run.Throughout migStep (fun is s => s.Attributed (arrivals is))
        (Mig.initial queries count queryLimit sends receives pairs) is ↔
      Run migStep Mig.AllUnambiguous
        (Mig.initial queries count queryLimit sends receives pairs) is s := by
  refine Run.throughout_iff (Mig.attributed_initial ..) ?_ hrun
  intro is s i s' hrun hpast hhonest hstep
  have hbooked := mig_booked hstart hrun
  have hpoint := (expects_of_migStep hstep).ne_failed
  have houtcome := migStep_cases hbooked hstep
  have hattributed := hpast is s (List.prefix_refl is) (hrun.mono fun _ _ _ => trivial)
  rw [arrivals_append_singleton]
  cases harrival : i.arrival with
  | none =>
    have hafter := hattributed.of_sameAnswers (houtcome.sameAnswers harrival)
    rw [Option.toList_none, List.append_nil]
    exact iff_of_true (fun a t ha => by simp [harrival] at ha) hafter
  | some a =>
    obtain rfl := MigInput.arrival_eq_some.mp harrival
    have hgenuine := hhonest a harrival
    obtain ⟨t, hclock⟩ := Option.isSome_iff_exists.mp hgenuine.clock
    rw [Option.toList_some,
      ← hattributed.arrival_iff hids hbooked hpoint hgenuine hclock houtcome]
    constructor
    · intro hall
      exact hall a t harrival hclock
    · intro hunambiguous a' t' ha' ht'
      obtain rfl := Option.some.inj (harrival.symm.trans ha')
      obtain rfl := Option.some.inj (hclock.symm.trans ht')
      exact hunambiguous

/-- **When replies are attributed.** In a network that delivers genuine replies only, every answer
goes on record with the query it belongs to exactly in those runs in which every reply is
unambiguous when it arrives. -/
theorem replies_attributed_iff
    (hqueries : makeQueries malloc names count client = some (some queries))
    (hsends : sends.length = count) (hreceives : receives.length = count)
    (hpairs : pairs.length = count)
    (hrun : Run migStep Mig.Honest (Mig.initial queries count queryLimit sends receives pairs)
      is s) :
    RepliesAttributed (Mig.initial queries count queryLimit sends receives pairs) is ↔
      Run migStep Mig.AllUnambiguous
        (Mig.initial queries count queryLimit sends receives pairs) is s := by
  obtain ⟨ws, -, hstart⟩ := mig_start queryLimit hqueries hsends hreceives hpairs
  rw [repliesAttributed_iff]
  exact throughout_attributed_iff (hasIds_queryMessages client ws) hstart hrun

/-- The two replies are unambiguous. -/
theorem replies_attributed_iff_answeredMig :
    RepliesAttributed threeMig answeredInputs ↔
      Run migStep Mig.AllUnambiguous threeMig answeredInputs answeredMig :=
  replies_attributed_iff makeQueries_threeQueries rfl rfl rfl
    (timely_answeredMig.mono fun _ _ h => h.1)

/-! ### A duplicate on record with the wrong query -/

/-- A table with the one name `a`. -/
def singleName : Block := ⟨[1, 97, 0, 0], []⟩

theorem nameWalk_singleName (n : ℕ) :
    nameWalk singleName n 0 = some (List.replicate n [1, 97, 0]) := by
  induction n with
  | zero => rfl
  | succ n ih =>
    have hlen : singleName.strlen 0 = some 2 := rfl
    have hload : singleName.load 0 (2 + 1) = some [1, 97, 0] := rfl
    have hnext : nextName singleName 0 (2 + 1) = some 0 := rfl
    simp only [nameWalk, hlen, hload, hnext, ih, Option.bind_eq_bind, Option.bind_some]
    rfl

/-- Any number of queries for one name can be built. -/
theorem exists_makeQueries_singleName {n : ℕ} (hn : 27 * n < sizeModulus) :
    ∃ queries, makeQueries .zeroed singleName n none = some (some queries) := by
  have hlength : ((queryMessages none 0 (List.replicate n [1, 97, 0])).flatMap frame).length
      = 27 * n := by
    rw [length_frames, List.map_replicate, List.sum_replicate_nat, Nat.mul_comm]
    rfl
  obtain ⟨-, c, -, -, hmake⟩ := makeQueries_of_nameWalk (nameWalk_singleName n)
    (by rw [hlength]; exact hn) (show Malloc.zeroed.alloc _ = some _ from rfl)
  exact ⟨_, hmake⟩

/-- A run with arrays that were zero when they were allocated. -/
def zeroedMig (queries : Block) (count : ℕ) : Mig :=
  .initial queries count 0 (List.replicate count ⟨0, 0⟩) (List.replicate count ⟨0, 0⟩)
    (List.replicate count ⟨⟨0, 0⟩, 0, ⟨0, 0⟩⟩)

/-- The inputs up to the point where the first query has been sent and a datagram is at hand. -/
def firstInputs : List MigInput :=
  [.select (.ready false true), .send none (some 19) (some ⟨1, 0⟩), .select (.ready true false)]

/-- The state they lead to. -/
def firstMig (queries : Block) (count : ℕ) (messages : List (List UInt8)) : Mig :=
  { (zeroedMig queries count).record messages ⟨⟨0, 0⟩, 0, ⟨0, 0⟩⟩ ⟨1, 0⟩ with
    writeSocket := false, point := .receiving }

theorem zeroedMig_eq (queries : Block) {count : ℕ} (hcount : 0 < count) :
    zeroedMig queries count
      = { count, writeInterval := 0, queries, sends := List.replicate count ⟨0, 0⟩
          receives := List.replicate count ⟨0, 0⟩
          pairs := List.replicate count ⟨⟨0, 0⟩, 0, ⟨0, 0⟩⟩, readSocket := true, writeSocket := true
          offset := 0, messagesSent := 0, messagesReceived := 0, lastSent := 0
          attempts := recvTimeout, point := .selecting, wire := [] } := by
  simp [zeroedMig, Mig.initial, Mig.allocated, Mig.continueSending, writeInterval, hcount]

theorem run_firstMig {queries : Block} {count : ℕ} (hcount : 1 < count)
    (hbooked : (zeroedMig queries count).Booked messages) {message : List UInt8}
    (hmessage : messages[0]? = some message) (hlength : message.length = 19) :
    Run migStep Mig.Honest (zeroedMig queries count) firstInputs
      (firstMig queries count messages) := by
  have hpos : 0 < count := by omega
  obtain ⟨hmsg, hget⟩ := List.getElem?_eq_some_iff.mp hmessage
  have hqueries : HoldsQueries queries messages := by
    have hqueries := hbooked.queries
    rwa [zeroedMig_eq queries hpos] at hqueries
  obtain ⟨next, hnext, hsize, hoffset, hload⟩ := hqueries.getNextQuery hmsg
  have hstart : queryOffset messages 0 = 0 := rfl
  rw [hstart] at hnext
  rw [hget] at hload
  -- the state in which the query is about to be sent
  have hsending : migStep (zeroedMig queries count) (.select (.ready false true))
      = some { zeroedMig queries count with point := .sending } := by
    rw [zeroedMig_eq queries hpos]
    rfl
  have hsent : migStep { zeroedMig queries count with point := .sending }
      (.send none (some 19) (some ⟨1, 0⟩))
      = some { (zeroedMig queries count).record messages ⟨⟨0, 0⟩, 0, ⟨0, 0⟩⟩ ⟨1, 0⟩ with
          point := .selecting } := by
    have hwire : [message.take 19] = messages.take 1 := by
      rw [List.take_of_length_le (by omega), ← hget, List.take_succ_eq_append_getElem hmsg]
      rfl
    rw [zeroedMig_eq queries hpos]
    simp [migStep, Mig.send, Mig.doSendQuery, hnext, hload, sentQuery, hlength, Table.write, hpos,
      Mig.continueSending, hcount, Mig.record, hoffset, hwire]
  have hreceiving : migStep { (zeroedMig queries count).record messages ⟨⟨0, 0⟩, 0, ⟨0, 0⟩⟩ ⟨1, 0⟩
      with point := .selecting } (.select (.ready true false))
      = some (firstMig queries count messages) := by
    rw [firstMig, zeroedMig_eq queries hpos]
    rfl
  exact .cons (Mig.honest_of_arrival_none rfl) hsending
    (.cons (Mig.honest_of_arrival_none rfl) hsent
      (.single (Mig.honest_of_arrival_none rfl) hreceiving))

/-- A reply to the first query. -/
def firstReply (t : Timespec) : Arrival := ⟨List.replicate 12 0, 0, some t⟩

/-- The first query is answered twice. -/
def duplicateInputs : List MigInput :=
  firstInputs ++ [.recv (.datagram (firstReply ⟨2, 0⟩))] ++ [.recv (.datagram (firstReply ⟨3, 0⟩))]

theorem transactionId_firstReply (t : Timespec) : transactionId (firstReply t).bytes = 0 := by
  show transactionId (List.replicate 12 0) = 0
  decide

theorem genuine_firstReply (hids : HasIds messages) {message : List UInt8}
    (hmessage : messages[0]? = some message) (hwire : s.wire = messages.take 1) (t : Timespec) :
    s.Genuine (firstReply t) := by
  refine ⟨⟨message, ?_, ?_⟩, ?_, rfl⟩
  · rw [hwire]
    exact (List.getElem?_take_of_lt Nat.zero_lt_one).trans hmessage
  · rw [transactionId_firstReply, hids 0 _ hmessage, Nat.zero_mod]
  · show sizeofDnsQuery ≤ (List.replicate 12 (0 : UInt8)).length
    decide

/-- The first reply is credited to the first query. -/
theorem migStep_firstReply (hids : HasIds messages) (hbooked : s.Booked messages)
    (hpoint : s.point = .receiving) (hgenuine : s.Genuine (firstReply ⟨2, 0⟩))
    {pair : PairTimespec} (hpair : s.pairs[0]? = some pair) (hsent : pair.sent = ⟨1, 0⟩)
    (hanswer : pair.answer = 0) :
    migStep s (.recv (.datagram (firstReply ⟨2, 0⟩))) = some (s.credit 0 pair ⟨2, 0⟩) := by
  have haccept := hgenuine.accepts hids hbooked (by rw [hpoint]; simp) rfl
  have hwalk : InWalk (transactionId (firstReply ⟨2, 0⟩).bytes) 0 := by
    rw [transactionId_firstReply]
    exact Table.onStride_self _ 0
  have hlt : 0 < s.count := by
    rw [← hbooked.pairs_length]
    exact (List.getElem?_eq_some_iff.mp hpair).1
  refine migStep_credit hbooked (Or.inl hpoint) haccept hwalk hlt hpair ?_ hanswer ?_
  · rw [hsent]
    decide
  · intro j _ hj
    exact absurd hj (Nat.not_lt_zero j)

/-- The second one finds the first query answered, and goes to the next query with the same id. -/
theorem migStep_secondReply (hids : HasIds messages) (hbooked : s.Booked messages)
    (hpoint : s.point = .receiving) (hgenuine : s.Genuine (firstReply ⟨3, 0⟩))
    (hanswered : ¬Eligible s.pairs (⟨3, 0⟩ : Timespec).nsec 0) {pair : PairTimespec}
    (hpair : s.pairs[ushrtMax]? = some pair) (hsent : pair.sent = ⟨0, 0⟩)
    (hanswer : pair.answer = 0) :
    migStep s (.recv (.datagram (firstReply ⟨3, 0⟩))) = some (s.credit ushrtMax pair ⟨3, 0⟩) := by
  have haccept := hgenuine.accepts hids hbooked (by rw [hpoint]; simp) rfl
  have hwalk : InWalk (transactionId (firstReply ⟨3, 0⟩).bytes) ushrtMax := by
    rw [transactionId_firstReply]
    exact ⟨1, by rw [Nat.one_mul, Nat.zero_add]⟩
  have hlt : ushrtMax < s.count := by
    rw [← hbooked.pairs_length]
    exact (List.getElem?_eq_some_iff.mp hpair).1
  refine migStep_credit hbooked (Or.inl hpoint) haccept hwalk hlt hpair ?_ hanswer ?_
  · rw [hsent]
    decide
  · intro j hwalk hj
    rw [transactionId_firstReply] at hwalk
    have hmod := hwalk.mod_eq
    rw [Nat.mod_eq_of_lt hj, Nat.zero_mod] at hmod
    subst hmod
    exact hanswered

/-- If ids are reused, the second reply goes on record with the next query that has the id. -/
theorem exists_misattributed {count : ℕ} (hcount : ushrtMax < count)
    (hsize : 27 * count < sizeModulus) :
    ∃ queries s, makeQueries .zeroed singleName count none = some (some queries) ∧
      Run migStep Mig.Honest (zeroedMig queries count) duplicateInputs s ∧
      ¬RepliesAttributed (zeroedMig queries count) duplicateInputs := by
  have hperiod : 0 < ushrtMax := by decide
  have hpos : 0 < count := Nat.lt_trans hperiod hcount
  obtain ⟨queries, hqueries⟩ := exists_makeQueries_singleName hsize
  obtain ⟨ws, hws, hholds⟩ := makeQueries_spec hqueries
  rw [nameWalk_singleName, Option.some.injEq] at hws
  subst hws
  have hids := hasIds_queryMessages none (List.replicate count [1, 97, 0])
  have hmessage : (queryMessages none 0 (List.replicate count [1, 97, 0]))[0]?
      = some (queryMessage none 0 [1, 97, 0]) := by
    rw [getElem?_queryMessages, List.getElem?_replicate, if_pos hpos]
    rfl
  have hbooked : (zeroedMig queries count).Booked
      (queryMessages none 0 (List.replicate count [1, 97, 0])) :=
    Mig.booked_initial 0 hholds (by rw [length_queryMessages, List.length_replicate])
      List.length_replicate List.length_replicate List.length_replicate
  generalize queryMessages none 0 (List.replicate count [1, 97, 0]) = messages at *
  have hrun := run_firstMig (by omega) hbooked hmessage rfl
  have hbooked₁ := mig_booked hbooked hrun
  have hwire : (firstMig queries count messages).wire = messages.take 1 := by
    rw [firstMig, zeroedMig_eq queries hpos]
    rfl
  have hpairs : (firstMig queries count messages).pairs
      = (List.replicate count ⟨⟨0, 0⟩, 0, ⟨0, 0⟩⟩).set 0 ⟨⟨1, 0⟩, 0, ⟨0, 0⟩⟩ := by
    rw [firstMig, zeroedMig_eq queries hpos]
    rfl
  have hpoint : (firstMig queries count messages).point = .receiving := rfl
  generalize firstMig queries count messages = s₁ at *
  have hpair₁ : s₁.pairs[0]? = some ⟨⟨1, 0⟩, 0, ⟨0, 0⟩⟩ := by
    rw [hpairs, List.getElem?_set_self (by rw [List.length_replicate]; exact hpos)]
  have hgenuine₁ := genuine_firstReply hids hmessage hwire
  have hstep₁ := migStep_firstReply hids hbooked₁ hpoint (hgenuine₁ _) hpair₁ rfl rfl
  have hbooked₂ := hbooked₁.next hstep₁
  generalize hcredit : s₁.credit 0 ⟨⟨1, 0⟩, 0, ⟨0, 0⟩⟩ ⟨2, 0⟩ = s₂ at *
  have hgenuine₂ := genuine_firstReply hids hmessage (show s₂.wire = _ from hcredit ▸ hwire)
  have hpairs₂ : s₂.pairs = s₁.pairs.set 0 ⟨⟨1, 0⟩, 1, ⟨2, 0⟩⟩ := hcredit ▸ rfl
  have hpair₂ : s₂.pairs[ushrtMax]? = some ⟨⟨0, 0⟩, 0, ⟨0, 0⟩⟩ := by
    rw [hpairs₂, hpairs, List.getElem?_set_ne (Nat.ne_of_lt hperiod),
      List.getElem?_set_ne (Nat.ne_of_lt hperiod), List.getElem?_replicate, if_pos hcount]
  have hanswered : ¬Eligible s₂.pairs (⟨3, 0⟩ : Timespec).nsec 0 := by
    rintro ⟨pair, hpair, -, hanswer⟩
    obtain ⟨hlt, -⟩ := List.getElem?_eq_some_iff.mp hpair₁
    rw [hpairs₂, List.getElem?_set_self hlt, Option.some.injEq] at hpair
    subst hpair
    exact Nat.one_ne_zero hanswer
  have hstep₂ := migStep_secondReply hids hbooked₂ (hcredit ▸ hpoint) (hgenuine₂ _) hanswered hpair₂
    rfl rfl
  have hrun₃ := (hrun.append (.single (hgenuine₁ _).honest hstep₁)).append
    (.single (hgenuine₂ _).honest hstep₂)
  refine ⟨queries, _, hqueries, hrun₃, fun hreplies => ?_⟩
  have hattributed := hreplies.attributed _ _ (List.prefix_refl _)
    (hrun₃.mono fun _ _ _ => trivial)
  obtain ⟨hlt, -⟩ := List.getElem?_eq_some_iff.mp hpair₂
  obtain ⟨a, ha, horigin⟩ := (hattributed.answer_iff (List.getElem?_set_self hlt)).mp rfl
  have harrivals : arrivals duplicateInputs = [firstReply ⟨2, 0⟩, firstReply ⟨3, 0⟩] := rfl
  rw [harrivals] at ha
  have hfirst : a.origin = 0 := by
    rcases List.mem_pair.mp ha with rfl | rfl <;> rfl
  exact Nat.ne_of_lt hperiod (hfirst.symm.trans horigin)

/-- The first of 65536 queries is answered twice. -/
theorem duplicate_misattributed :
    ∃ queries s, makeQueries .zeroed singleName 65536 none = some (some queries) ∧
      Run migStep Mig.Honest (zeroedMig queries 65536) duplicateInputs s ∧
      ¬RepliesAttributed (zeroedMig queries 65536) duplicateInputs :=
  exists_misattributed (by decide) (by decide)

/-! ### Unique ids -/

/-- If the ids are unique, a timely reply is unambiguous. -/
theorem Mig.Timely.allUnambiguous {i : MigInput} (h : s.Timely i) (hids : HasIds messages)
    (hbooked : s.Booked messages) (hpoint : s.point ≠ .failed) (hcount : s.count ≤ ushrtMax) :
    s.AllUnambiguous i := by
  intro a t harrival hclock
  obtain ⟨hsent, -⟩ := (h.1 a harrival).origin hids hbooked hpoint
  have hle := hbooked.sent_le
  constructor
  · intro pair hpair _
    obtain ⟨pair', hpair', hsends⟩ := hbooked.sends_eq a.origin hsent
    obtain rfl := Option.some.inj (hpair.symm.trans hpair')
    refine h.2 a t harrival hclock pair.sent (List.mem_of_getElem? (i := a.origin) ?_)
    rw [List.getElem?_take_of_lt hsent]
    exact hsends
  · intro k hk hmod hne _
    rw [Nat.mod_eq_of_lt (by omega), Nat.mod_eq_of_lt (by omega)] at hmod
    exact absurd hmod hne

/-- The answered queries are those a reply has arrived to. -/
theorem Mig.Attributed.countP_eq {as : List Arrival} (h : s.Attributed as) :
    s.pairs.countP (·.answer = 1)
      = (List.range s.pairs.length).countP fun k => as.any (·.origin = k) := by
  have hmap : s.pairs.map (fun pair => decide (pair.answer = 1))
      = (List.range s.pairs.length).map fun k => as.any (·.origin = k) := by
    refine List.ext_getElem (by simp) fun k hk _ => ?_
    rw [List.length_map] at hk
    have hiff := h.answer_iff (List.getElem?_eq_getElem hk)
    rw [List.getElem_map, List.getElem_map, List.getElem_range, Bool.eq_iff_iff, decide_eq_true_iff,
      hiff]
    simp
  have hcount := congrArg (List.countP id) hmap
  rwa [List.countP_map, List.countP_map] at hcount

/-- After the arrivals listed, the records of a run of `count` queries agree with the replies. -/
structure Mig.Reported (count : ℕ) (as : List Arrival) (s : Mig) : Prop where
  /-- There is a pair for every query. -/
  pairs_length : s.pairs.length = count
  /-- The answered queries are those that got a reply, each with the time of the first one. -/
  attributed : s.Attributed as
  /-- These queries are counted. -/
  received_eq :
    s.messagesReceived = (List.range count).countP fun k => as.any (·.origin = k)
  /-- The queries reported as lost are the others. -/
  lost_eq : s.lost = (List.range count).countP fun k => !as.any (·.origin = k)
  /-- No timely reply makes `recv_answer` fail. -/
  succeeds : ∀ a, s.Expects (.recv (.datagram a)) → s.Timely (.recv (.datagram a)) →
    ∃ s', recvAnswer s (.datagram a) = some (s', .again)
  /-- A duplicate changes nothing. -/
  duplicate : ∀ a, s.Expects (.recv (.datagram a)) → s.Timely (.recv (.datagram a)) →
    (∃ a' ∈ as, a'.origin = a.origin) → recvAnswer s (.datagram a) = some (s, .again)

/-- **Unique ids.** Up to `USHRT_MAX` queries, in a network that delivers timely genuine replies
only, the records agree at every moment with the replies that have arrived. -/
theorem unique_ids_reported (hcount : count ≤ ushrtMax)
    (hqueries : makeQueries malloc names count client = some (some queries))
    (hsends : sends.length = count) (hreceives : receives.length = count)
    (hpairs : pairs.length = count)
    (hrun : Run migStep Mig.Timely (Mig.initial queries count queryLimit sends receives pairs)
      is s) : s.Reported count (arrivals is) := by
  obtain ⟨ws, hmessages, hstart⟩ := mig_start queryLimit hqueries hsends hreceives hpairs
  have hids := hasIds_queryMessages client ws
  have hbooked := mig_booked hstart hrun
  have hcountEq : s.count = count := hbooked.messages_length.symm.trans hmessages
  have hunambiguous : Run migStep Mig.AllUnambiguous
      (Mig.initial queries count queryLimit sends receives pairs) is s := by
    refine hrun.mono_of_invariant (fun _ _ _ h _ hstep => h.next hstep) ?_ hstart
    intro s i s' hbooked htimely hstep
    have hle : s.count ≤ ushrtMax := by
      rw [← hbooked.messages_length, hmessages]
      exact hcount
    exact htimely.allUnambiguous hids hbooked (expects_of_migStep hstep).ne_failed hle
  have hattributed := (throughout_attributed_iff hids hstart (hrun.mono fun _ _ h => h.1)).mpr
    hunambiguous is s (List.prefix_refl is) (hrun.mono fun _ _ _ => trivial)
  have hreceived : s.messagesReceived
      = (List.range count).countP (fun k => (arrivals is).any (·.origin = k)) := by
    rw [← hbooked.received_eq, filterMap_answeredStamp, List.length_map,
      ← List.countP_eq_length_filter, hattributed.countP_eq, hbooked.pairs_length, hcountEq]
  have houtcome : ∀ a, s.Expects (.recv (.datagram a)) → s.Timely (.recv (.datagram a)) →
      (∃ s', recvAnswer s (.datagram a) = some (s', .again)) ∧
        ((∃ a' ∈ arrivals is, a'.origin = a.origin) →
          recvAnswer s (.datagram a) = some (s, .again)) := by
    intro a hexpects htimely
    have hgenuine := htimely.1 a rfl
    have hpoint := hexpects.ne_failed
    obtain ⟨t, hclock⟩ := Option.isSome_iff_exists.mp hgenuine.clock
    have houtcome := recvAnswer_outcome hbooked.toTables a
    revert houtcome
    generalize recvAnswer s (.datagram a) = r
    intro houtcome
    cases houtcome with
    | rejected hreject =>
      exact absurd (hgenuine.accepts hids hbooked hpoint hclock) (hreject t)
    | ignored _ _ => exact ⟨⟨_, rfl⟩, fun _ => rfl⟩
    | @credited _ _ k hk hlt pair hpair _ hanswer _ =>
      refine ⟨⟨_, rfl⟩, fun harrived => ?_⟩
      -- the walk comes past no other query, and this one has been answered
      obtain ⟨hsent, hid⟩ := hgenuine.origin hids hbooked hpoint
      have hle := hbooked.sent_le
      rw [hid, inWalk_iff, Nat.mod_eq_of_lt (by omega), Nat.mod_eq_of_lt (by omega)] at hk
      have hone := (hattributed.answer_iff hpair).mpr (hk ▸ harrived)
      omega
  constructor
  case pairs_length => exact hbooked.pairs_length.trans hcountEq
  case attributed => exact hattributed
  case received_eq => exact hreceived
  case lost_eq =>
    have htotal := (List.range count).length_eq_countP_add_countP
      fun k => (arrivals is).any (·.origin = k)
    rw [List.length_range] at htotal
    rw [Mig.lost, hcountEq, hreceived]
    simp only [Bool.not_eq_true, Bool.decide_eq_false] at htotal ⊢
    omega
  case succeeds => exact fun a hexpects htimely => (houtcome a hexpects htimely).1
  case duplicate => exact fun a hexpects htimely => (houtcome a hexpects htimely).2

/-- Two of three queries get their replies, in the other order. -/
theorem unique_ids_reported_answeredMig : answeredMig.Reported 3 (arrivals answeredInputs) :=
  unique_ids_reported (by decide) makeQueries_threeQueries rfl rfl rfl timely_answeredMig

end DnsTools
