import DnsTools.Mig.Attribution
import Mathlib.Data.Finset.Card

/-!
# Counting the answers

With more than `USHRT_MAX` queries an answer may go on record with the wrong query. It is counted
all the same: as long as no reply is repeated, every reply finds a pair without an answer, so the
number of lost messages is right however many queries there are.

The argument is by counting for each id. As many pairs with an id have an answer as replies with it
have come in. So when another reply comes in, there are fewer of them than queries with that id that
have been sent, and all of these were sent before the reply.

## What the network may do

It may lose replies, hold them back and reorder them, and it repeats none: to each query there is at
most one. `Timely` says that a reply is stamped later than the queries sent before it, so that the
pairs of all queries sent with its id are acceptable, if they have no answer. A pair whose query has
not been sent may be acceptable too, by what its memory held; then the count is right as well,
whichever pair is credited. This is why the invariant, `Mig.CountsReplies`, counts all pairs with
the id, and the bound only those of the queries that have been sent.

## Main results

* `Mig.CountsReplies.next` — what a step keeps
* `replies_counted` — the number of answers received in a network that repeats nothing
-/

namespace DnsTools

open Memory

variable {messages : List (List UInt8)} {s s' : Mig} {as : List Arrival} {a : Arrival}

/-- The queries with an id that have an answer on record. -/
def Mig.answeredWith (s : Mig) (id : ℕ) : Finset ℕ :=
  (Finset.range s.count).filter fun k => k % ushrtMax = id ∧ s.pairs[k]?.any (·.answer = 1)

theorem Mig.mem_answeredWith {id k : ℕ} : k ∈ s.answeredWith id ↔
    k < s.count ∧ k % ushrtMax = id ∧ ∃ pair, s.pairs[k]? = some pair ∧ pair.answer = 1 := by
  rw [answeredWith, Finset.mem_filter, Finset.mem_range, Option.any_eq_true]
  simp only [decide_eq_true_iff]

/-- A query without an answer is not among them. -/
theorem Mig.notMem_answeredWith {id k : ℕ} {pair : PairTimespec} (hpair : s.pairs[k]? = some pair)
    (hanswer : pair.answer = 0) : k ∉ s.answeredWith id := by
  rw [Mig.mem_answeredWith, hpair]
  rintro ⟨-, -, pair', hpair', hone⟩
  obtain rfl := Option.some.inj hpair'
  omega

/-- The queries with an id that have been sent. -/
def Mig.sentWith (s : Mig) (id : ℕ) : Finset ℕ :=
  (Finset.range s.messagesSent).filter fun k => k % ushrtMax = id

theorem Mig.mem_sentWith {id k : ℕ} :
    k ∈ s.sentWith id ↔ k < s.messagesSent ∧ k % ushrtMax = id := by
  rw [sentWith, Finset.mem_filter, Finset.mem_range]

/-- The replies with an id. -/
def repliesWith (as : List Arrival) (id : ℕ) : List Arrival :=
  as.filter (transactionId ·.bytes = id)

theorem repliesWith_append_singleton (as : List Arrival) (a : Arrival) (id : ℕ) :
    (repliesWith (as ++ [a]) id).length =
      (repliesWith as id).length + if transactionId a.bytes = id then 1 else 0 := by
  rw [repliesWith, List.filter_append, List.length_append, ← repliesWith]
  by_cases hid : transactionId a.bytes = id <;> simp [hid]

/-! ### The invariant -/

/-- After the replies listed, each of them is counted, and for each id as many queries have an
answer as replies with it have come in. -/
structure Mig.CountsReplies (as : List Arrival) (s : Mig) : Prop where
  /-- The replies are counted. -/
  received : s.messagesReceived = as.length
  /-- They are on record with queries that have their ids. -/
  answered : ∀ id, (s.answeredWith id).card = (repliesWith as id).length

/-- Without a datagram nothing is received. -/
theorem MigOutcome.messagesReceived_eq {i : MigInput} (h : MigOutcome messages s i s')
    (hi : i.arrival = none) : s'.messagesReceived = s.messagesReceived := by
  cases h with
  | moved _ _ hcontinues => exact hcontinues.idle.same.messagesReceived
  | failed _ hsame _ => exact hsame.messagesReceived
  | sent _ _ hcontinues => exact hcontinues.idle.same.messagesReceived
  | rejected _ => simp [MigInput.arrival] at hi
  | ignored _ _ => simp [MigInput.arrival] at hi
  | credited _ _ _ _ _ _ _ => simp [MigInput.arrival] at hi

/-- What has been sent stays sent. -/
theorem MigOutcome.messagesSent_le {i : MigInput} (h : MigOutcome messages s i s') :
    s.messagesSent ≤ s'.messagesSent := by
  cases h with
  | moved _ _ hcontinues => exact hcontinues.idle.same.messagesSent.ge
  | failed _ hsame _ => exact hsame.messagesSent.ge
  | sent _ _ hcontinues =>
    rw [hcontinues.idle.same.messagesSent]
    exact Nat.le_succ _
  | rejected _ => exact Nat.le_refl _
  | ignored _ _ => exact Nat.le_refl _
  | credited _ _ _ _ _ _ _ => exact Nat.le_refl _

/-- Without a change of the answers the same queries have one. -/
theorem Mig.SameAnswers.answeredWith (hsame : s.SameAnswers s') (hcount : s'.count = s.count)
    (hlength : s'.pairs.length = s.pairs.length) (id : ℕ) :
    s'.answeredWith id = s.answeredWith id := by
  ext k
  rw [Mig.mem_answeredWith, Mig.mem_answeredWith, hcount]
  refine and_congr_right fun _ => and_congr_right fun _ => ?_
  constructor
  · rintro ⟨pair', hpair', hanswer'⟩
    obtain ⟨pair, hpair, hanswer, -⟩ := hsame k pair' hpair'
    exact ⟨pair, hpair, hanswer ▸ hanswer'⟩
  · rintro ⟨pair, hpair, hanswer⟩
    obtain ⟨hk, -⟩ := List.getElem?_eq_some_iff.mp hpair
    obtain ⟨pair', hpair'⟩ : ∃ pair', s'.pairs[k]? = some pair' :=
      ⟨_, List.getElem?_eq_getElem (hlength ▸ hk)⟩
    obtain ⟨own, hown, hanswer', -⟩ := hsame k pair' hpair'
    obtain rfl := Option.some.inj (hpair.symm.trans hown)
    exact ⟨pair', hpair', hanswer'.trans hanswer⟩

/-- A pair that gets its answer is one more with its id. -/
theorem Mig.answeredWith_credit {k : ℕ} {pair : PairTimespec} {t : Timespec}
    (hpair : s.pairs[k]? = some pair) (hanswer : pair.answer = 0) (hk : k < s.count) (id : ℕ) :
    (s.credit k pair t).answeredWith id =
      if k % ushrtMax = id then insert k (s.answeredWith id) else s.answeredWith id := by
  obtain ⟨hlt, -⟩ := List.getElem?_eq_some_iff.mp hpair
  have hothers : ∀ j, j ≠ k →
      (j ∈ (s.credit k pair t).answeredWith id ↔ j ∈ s.answeredWith id) := by
    intro j hj
    rw [Mig.mem_answeredWith, Mig.mem_answeredWith, Mig.credit, List.getElem?_set_ne hj.symm]
  have hself : k ∈ (s.credit k pair t).answeredWith id ↔ k % ushrtMax = id := by
    rw [Mig.mem_answeredWith, Mig.credit, List.getElem?_set_self hlt]
    refine ⟨fun h => h.2.1, fun hid => ⟨hk, hid, _, rfl, ?_⟩⟩
    show pair.answer + 1 = 1
    rw [hanswer]
  ext j
  by_cases hj : j = k
  · subst hj
    split_ifs with hid
    · exact iff_of_true (hself.mpr hid) (Finset.mem_insert_self _ _)
    · exact iff_of_false (fun h => hid (hself.mp h)) (Mig.notMem_answeredWith hpair hanswer)
  · rw [hothers j hj]
    split_ifs with hid
    · rw [Finset.mem_insert, or_iff_right hj]
    · rfl

/-- When there are more queries with an id than replies with it, one of them has no answer. -/
theorem Mig.CountsReplies.exists_unanswered (h : s.CountsReplies as) {id : ℕ}
    (hroom : (repliesWith as id).length < (s.sentWith id).card) :
    ∃ k < s.messagesSent, k % ushrtMax = id ∧ k ∉ s.answeredWith id := by
  rw [← h.answered] at hroom
  obtain ⟨k, hk, hnone⟩ := Finset.exists_mem_notMem_of_card_lt_card hroom
  obtain ⟨hlt, hid⟩ := Mig.mem_sentWith.mp hk
  exact ⟨k, hlt, hid, hnone⟩

/-- So a reply with this id that comes behind these queries finds a pair without an answer. -/
theorem Mig.CountsReplies.exists_eligible (h : s.CountsReplies as) (hbooked : s.Booked messages)
    {t : Timespec} (hlater : ∀ sent ∈ s.sends.take s.messagesSent, sent.nsec < t.nsec) {id : ℕ}
    (hroom : (repliesWith as id).length < (s.sentWith id).card) :
    ∃ k < s.count, InWalk id k ∧ Eligible s.pairs t.nsec k := by
  obtain ⟨k, hk, rfl, hnone⟩ := h.exists_unanswered hroom
  have hlt : k < s.count := Nat.lt_of_lt_of_le hk hbooked.sent_le
  obtain ⟨pair, hpair, hsends⟩ := hbooked.sends_eq k hk
  have hbefore : pair.sent.nsec < t.nsec := by
    refine hlater pair.sent (List.mem_of_getElem? (i := k) ?_)
    rw [List.getElem?_take_of_lt hk]
    exact hsends
  have hanswer : pair.answer = 0 := by
    have hle := hbooked.answer_le pair (List.mem_of_getElem? hpair)
    have hne : pair.answer ≠ 1 := fun hone =>
      hnone (Mig.mem_answeredWith.mpr ⟨hlt, rfl, pair, hpair, hone⟩)
    omega
  exact ⟨k, hlt, Table.onStride_of_mod k _, pair, hpair, hbefore, hanswer⟩

/-- **A reply is counted** if fewer replies with its id have come in than queries with this id have
been sent. -/
theorem Mig.CountsReplies.arrival (h : s.CountsReplies as) (hbooked : s.Booked messages)
    {t : Timespec} (haccept : s.Accepts a t)
    (hlater : ∀ sent ∈ s.sends.take s.messagesSent, sent.nsec < t.nsec)
    (hroom : (repliesWith as (transactionId a.bytes)).length <
      (s.sentWith (transactionId a.bytes)).card)
    (houtcome : MigOutcome messages s (.recv (.datagram a)) s') :
    s'.CountsReplies (as ++ [a]) := by
  obtain ⟨j, -, hj, -⟩ := h.exists_unanswered hroom
  cases houtcome with
  | moved hi _ _ => exact absurd rfl (hi a)
  | failed hfault _ _ => exact absurd rfl (hfault.ne_datagram a)
  | rejected hreject => exact absurd haccept (hreject t)
  | @ignored _ t' haccept' hnone =>
    obtain rfl : t' = t := Option.some.inj (haccept'.clock.symm.trans haccept.clock)
    obtain ⟨k, hk, hwalk, heligible⟩ := h.exists_eligible hbooked hlater hroom
    exact absurd heligible (hnone k hwalk hk)
  | @credited _ _ _ k hwalk hlt pair hpair _ hanswer _ =>
    have hid : k % ushrtMax = transactionId a.bytes := by
      rw [← hj] at hwalk ⊢
      exact inWalk_iff.mp hwalk
    constructor
    case received =>
      rw [List.length_append, List.length_singleton, ← h.received]
      rfl
    case answered =>
      intro id
      rw [Mig.answeredWith_credit hpair hanswer hlt, repliesWith_append_singleton, ← h.answered,
        hid]
      by_cases hsame : transactionId a.bytes = id
      · rw [if_pos hsame, if_pos hsame,
          Finset.card_insert_of_notMem (Mig.notMem_answeredWith hpair hanswer)]
      · rw [if_neg hsame, if_neg hsame, Nat.add_zero]

/-- A step without a reply. -/
theorem Mig.CountsReplies.quiet (h : s.CountsReplies as) (hbooked : s.Booked messages)
    (hbooked' : s'.Booked messages) {i : MigInput} (hi : i.arrival = none)
    (houtcome : MigOutcome messages s i s') : s'.CountsReplies as := by
  have hcount : s'.count = s.count :=
    hbooked'.messages_length.symm.trans hbooked.messages_length
  have hlength : s'.pairs.length = s.pairs.length :=
    hbooked'.pairs_length.trans (hcount.trans hbooked.pairs_length.symm)
  refine ⟨(houtcome.messagesReceived_eq hi).trans h.received, fun id => ?_⟩
  rw [(houtcome.sameAnswers hi).answeredWith hcount hlength]
  exact h.answered id

/-! ### Replies without repetition -/

/-- The replies listed are to different queries, and these have been sent. -/
structure Mig.Repliers (as : List Arrival) (s : Mig) : Prop where
  /-- No two are to the same query. -/
  nodup : (as.map (·.origin)).Nodup
  /-- Their queries have been sent, and they have the ids of these. -/
  sent : ∀ a ∈ as, a.origin < s.messagesSent ∧ transactionId a.bytes = a.origin % ushrtMax

/-- There are as many queries with an id as there are replies with it. -/
theorem Mig.Repliers.length_le (h : s.Repliers as) (id : ℕ) :
    (repliesWith as id).length ≤ (s.sentWith id).card := by
  have hsublist : ((repliesWith as id).map (·.origin)).Sublist (as.map (·.origin)) :=
    List.filter_sublist.map _
  rw [← List.length_map (·.origin), ← List.toFinset_card_of_nodup (h.nodup.sublist hsublist)]
  refine Finset.card_le_card fun k hk => ?_
  obtain ⟨a, ha, rfl⟩ := List.mem_map.mp (List.mem_toFinset.mp hk)
  obtain ⟨hmem, hid⟩ := List.mem_filter.mp ha
  obtain ⟨hlt, horigin⟩ := h.sent a hmem
  exact Mig.mem_sentWith.mpr ⟨hlt, horigin.symm.trans (of_decide_eq_true hid)⟩

/-- A reply to another query. -/
theorem Mig.Repliers.append (h : s.Repliers as) (hnew : ∀ a' ∈ as, a'.origin ≠ a.origin)
    (hsent : a.origin < s.messagesSent ∧ transactionId a.bytes = a.origin % ushrtMax) :
    s.Repliers (as ++ [a]) := by
  constructor
  case nodup =>
    rw [List.map_append, List.map_singleton, ← List.concat_eq_append]
    refine h.nodup.concat fun hmem => ?_
    obtain ⟨a', ha', horigin⟩ := List.mem_map.mp hmem
    exact hnew a' ha' horigin
  case sent =>
    intro a' ha'
    rcases List.mem_append.mp ha' with ha' | ha'
    · exact h.sent a' ha'
    · exact List.mem_singleton.mp ha' ▸ hsent

theorem Mig.Repliers.mono (h : s.Repliers as) (hle : s.messagesSent ≤ s'.messagesSent) :
    s'.Repliers as := by
  refine ⟨h.nodup, fun a ha => ?_⟩
  obtain ⟨hlt, hid⟩ := h.sent a ha
  exact ⟨Nat.lt_of_lt_of_le hlt hle, hid⟩

/-- For a further reply there is a query without an answer. -/
theorem Mig.Repliers.room (h : s.Repliers as) (hnew : ∀ a' ∈ as, a'.origin ≠ a.origin)
    (hsent : a.origin < s.messagesSent ∧ transactionId a.bytes = a.origin % ushrtMax) :
    (repliesWith as (transactionId a.bytes)).length <
      (s.sentWith (transactionId a.bytes)).card := by
  have hle := (h.append hnew hsent).length_le (transactionId a.bytes)
  rw [repliesWith_append_singleton, if_pos rfl] at hle
  exact hle

/-! ### Whole runs -/

variable {malloc : Malloc} {names queries : Block} {count queryLimit : ℕ}
  {client : Option ClientId} {sends receives : List Timespec} {pairs : List PairTimespec}
  {is : List MigInput}

theorem Mig.countsReplies_initial (queries : Block) (count queryLimit : ℕ)
    (sends receives : List Timespec) (pairs : List PairTimespec) :
    (Mig.initial queries count queryLimit sends receives pairs).CountsReplies [] := by
  have hsame := (Mig.continues_initial queries count queryLimit sends receives pairs).idle.same
  refine ⟨hsame.messagesReceived, fun id => ?_⟩
  rw [repliesWith, List.filter_nil, List.length_nil, Finset.card_eq_zero,
    Finset.eq_empty_iff_forall_notMem]
  intro k hk
  obtain ⟨-, -, pair, hpair, hone⟩ := Mig.mem_answeredWith.mp hk
  exact Nat.zero_ne_one ((Mig.answer_initial hpair).symm.trans hone)

/-- A reply that is timely and new. -/
theorem Mig.CountsReplies.timely (h : s.CountsReplies as) (hreplies : s.Repliers as)
    (hids : HasIds messages) (hbooked : s.Booked messages) (hpoint : s.point ≠ .failed)
    (htimely : s.Timely (.recv (.datagram a))) (hnew : ∀ a' ∈ as, a'.origin ≠ a.origin)
    (houtcome : MigOutcome messages s (.recv (.datagram a)) s') :
    s'.CountsReplies (as ++ [a]) := by
  have hgenuine := htimely.1 a rfl
  obtain ⟨t, hclock⟩ := Option.isSome_iff_exists.mp hgenuine.clock
  have hsent := hgenuine.origin hids hbooked hpoint
  exact h.arrival hbooked (hgenuine.accepts hids hbooked hpoint hclock)
    (htimely.2 a t rfl hclock) (hreplies.room hnew hsent) houtcome

/-- The counts are right after a run in which no reply has come in twice. -/
theorem countsReplies_of_run (hids : HasIds messages)
    (hstart : (Mig.initial queries count queryLimit sends receives pairs).Booked messages)
    (hrun : Run migStep Mig.Timely (Mig.initial queries count queryLimit sends receives pairs)
      is s) (hnodup : ((arrivals is).map (·.origin)).Nodup) :
    s.CountsReplies (arrivals is) ∧ s.Repliers (arrivals is) := by
  refine hrun.invariant_history (P := fun is s => ((arrivals is).map (·.origin)).Nodup →
    s.CountsReplies (arrivals is) ∧ s.Repliers (arrivals is))
    (fun hnil => ⟨Mig.countsReplies_initial .., hnil, fun a ha => absurd ha List.not_mem_nil⟩) ?_
    hnodup
  intro is s i s' hrun ih htimely hstep hnodup
  have hbooked := mig_booked hstart hrun
  have houtcome := migStep_cases hbooked hstep
  rw [arrivals_append_singleton] at hnodup ⊢
  obtain ⟨h, hreplies⟩ := ih (hnodup.sublist ((List.sublist_append_left _ _).map _))
  cases harrival : i.arrival with
  | none =>
    rw [Option.toList_none, List.append_nil]
    exact ⟨h.quiet hbooked (hbooked.next hstep) harrival houtcome,
      hreplies.mono houtcome.messagesSent_le⟩
  | some a =>
    obtain rfl := MigInput.arrival_eq_some.mp harrival
    have hpoint := (expects_of_migStep hstep).ne_failed
    rw [harrival, Option.toList_some, List.map_append, List.map_singleton,
      List.nodup_append] at hnodup
    have hnew : ∀ a' ∈ arrivals is, a'.origin ≠ a.origin := fun a' ha' =>
      hnodup.2.2 _ (List.mem_map_of_mem ha') _ (List.mem_singleton_self _)
    have hcounts := h.timely hreplies hids hbooked hpoint htimely hnew houtcome
    have hsent := (htimely.1 a rfl).origin hids hbooked hpoint
    exact ⟨hcounts, (hreplies.append hnew hsent).mono houtcome.messagesSent_le⟩

/-- What is counted after the replies listed, of `count` queries. -/
structure Mig.Tally (count : ℕ) (as : List Arrival) (s : Mig) : Prop where
  /-- As many answers as replies have come in. -/
  received : s.messagesReceived = as.length
  /-- The other queries are reported as lost. -/
  lost : s.lost + as.length = count
  /-- For each id as many queries have an answer on record as replies with it have come in. -/
  answered : ∀ id, (s.answeredWith id).card = (repliesWith as id).length
  /-- A further reply is counted when it comes in. -/
  next : ∀ a, s.Expects (.recv (.datagram a)) → s.Timely (.recv (.datagram a)) →
    (∀ a' ∈ as, a'.origin ≠ a.origin) → ∃ s', migStep s (.recv (.datagram a)) = some s' ∧
      s'.messagesReceived = s.messagesReceived + 1

/-- **Every reply is counted.** For any number of queries, in a network that may lose, delay and
reorder timely genuine replies but repeats none: as many answers are counted as replies have come
in, also where they are on record with a wrong query, and the number reported as lost is that of the
queries without a reply. -/
theorem replies_counted
    (hqueries : makeQueries malloc names count client = some (some queries))
    (hsends : sends.length = count) (hreceives : receives.length = count)
    (hpairs : pairs.length = count)
    (hrun : Run migStep Mig.Timely (Mig.initial queries count queryLimit sends receives pairs)
      is s) (hnodup : ((arrivals is).map (·.origin)).Nodup) : s.Tally count (arrivals is) := by
  obtain ⟨ws, hmessages, hstart⟩ := mig_start queryLimit hqueries hsends hreceives hpairs
  have hids := hasIds_queryMessages client ws
  have hbooked := mig_booked hstart hrun
  have hcount : s.count = count := hbooked.messages_length.symm.trans hmessages
  obtain ⟨h, hreplies⟩ := countsReplies_of_run hids hstart hrun hnodup
  constructor
  case received => exact h.received
  case lost =>
    have hle := hbooked.received_le
    rw [Mig.lost, ← h.received]
    omega
  case answered => exact h.answered
  case next =>
    intro a hexpects htimely hnew
    obtain ⟨s', hstep, houtcome⟩ := migStep_outcome hbooked hexpects
    have h' := h.timely hreplies hids hbooked hexpects.ne_failed htimely hnew houtcome
    refine ⟨s', hstep, ?_⟩
    rw [h'.received, List.length_append, ← h.received]
    rfl

/-- Two replies to three queries are counted. -/
theorem replies_counted_answeredMig : answeredMig.Tally 3 (arrivals answeredInputs) :=
  replies_counted makeQueries_threeQueries rfl rfl rfl timely_answeredMig (by decide)

end DnsTools
