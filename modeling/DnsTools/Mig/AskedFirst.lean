import DnsTools.Mig.Attribution

/-!
# No answer before the question

`recv_answer` asks whether a query was sent before the datagram arrived, and not whether it was
sent at all. The time of sending in a pair is whatever `malloc` left there until the query is sent,
so that a datagram may be credited to a query that is still to come; the query is then sent later
than it was answered.

This does not happen exactly as long as each datagram finds an acceptable pair among those of the
queries sent, or none among the others.
-/

namespace DnsTools

open Memory

variable {messages : List (List UInt8)} {s s' : Mig}

/-- Whatever is answered has been sent, and earlier than it was answered. -/
def Mig.AnswersFollow (s : Mig) : Prop :=
  ∀ (k : ℕ) (pair : PairTimespec), s.pairs[k]? = some pair → pair.answer ≠ 0 →
    k < s.messagesSent ∧ pair.sent.nsec < pair.received.nsec

/-- A datagram that arrives at the time `t` finds an acceptable pair among those of the queries
sent, or none among the others. -/
def Mig.AskedFirst (s : Mig) (a : Arrival) (t : Timespec) : Prop :=
  (∃ k < s.messagesSent, InWalk (transactionId a.bytes) k ∧ Eligible s.pairs t.nsec k) ∨
    ∀ (k : ℕ), s.messagesSent ≤ k → k < s.count → InWalk (transactionId a.bytes) k →
      ¬Eligible s.pairs t.nsec k

/-- Every datagram that passes the checks of `recv_answer` does so. -/
def Mig.AllAskedFirst (s : Mig) (i : MigInput) : Prop :=
  ∀ a t, i.arrival = some a → s.Accepts a t → s.AskedFirst a t

theorem Mig.AnswersFollow.of_same (h : s.AnswersFollow) (hsame : s.SameData s') :
    s'.AnswersFollow := by
  intro k pair hpair hanswer
  rw [hsame.pairs] at hpair
  rw [hsame.messagesSent]
  exact h k pair hpair hanswer

/-- A query that is sent has no answer yet. -/
theorem Mig.AnswersFollow.record (h : s.AnswersFollow) {pair : PairTimespec} {t : Timespec}
    (hpair : s.pairs[s.messagesSent]? = some pair) :
    (s.record messages pair t).AnswersFollow := by
  obtain ⟨hlt, -⟩ := List.getElem?_eq_some_iff.mp hpair
  intro k pair' hpair' hanswer
  change (s.pairs.set s.messagesSent { pair with sent := t })[k]? = some pair' at hpair'
  show k < s.messagesSent + 1 ∧ _
  by_cases hk : s.messagesSent = k
  · rw [← hk, List.getElem?_set_self hlt, Option.some.injEq] at hpair'
    subst hpair'
    exact absurd (h _ pair hpair hanswer).1 (Nat.lt_irrefl _)
  · rw [List.getElem?_set_ne hk] at hpair'
    obtain ⟨hsent, hlater⟩ := h k pair' hpair' hanswer
    exact ⟨Nat.lt_succ_of_lt hsent, hlater⟩

/-- A credit is right if the query credited has been sent. -/
theorem Mig.AnswersFollow.credit_iff (h : s.AnswersFollow) {k : ℕ} {pair : PairTimespec}
    {t : Timespec} (hpair : s.pairs[k]? = some pair) (hsent : pair.sent.nsec < t.nsec) :
    (s.credit k pair t).AnswersFollow ↔ k < s.messagesSent := by
  obtain ⟨hlt, -⟩ := List.getElem?_eq_some_iff.mp hpair
  constructor
  · intro hfollow
    exact (hfollow k _ (List.getElem?_set_self hlt) (Nat.succ_ne_zero _)).1
  · intro hk k' pair' hpair' hanswer
    change (s.pairs.set k _)[k']? = some pair' at hpair'
    show k' < s.messagesSent ∧ _
    by_cases hkk : k = k'
    · rw [← hkk, List.getElem?_set_self hlt, Option.some.injEq] at hpair'
      subst hpair'
      exact ⟨hkk ▸ hk, hsent⟩
    · rw [List.getElem?_set_ne hkk] at hpair'
      exact h k' pair' hpair' hanswer

/-- **One step.** When no answer came before its question, what decides whether that goes on is
whether a datagram is one that was asked for first. -/
theorem Mig.AnswersFollow.step_iff (h : s.AnswersFollow) {i : MigInput}
    (houtcome : MigOutcome messages s i s') : s.AllAskedFirst i ↔ s'.AnswersFollow := by
  have hquiet : (∀ a, i ≠ .recv (.datagram a)) → s.AllAskedFirst i :=
    fun hi a _ harrival => absurd (MigInput.arrival_eq_some.mp harrival) (hi a)
  cases houtcome with
  | moved hi _ hcontinues => exact iff_of_true (hquiet hi) (h.of_same hcontinues.idle.same)
  | failed hfault hsame _ => exact iff_of_true (hquiet hfault.ne_datagram) (h.of_same hsame)
  | sent hpair _ hcontinues =>
    exact iff_of_true (hquiet (by simp)) ((h.record hpair).of_same hcontinues.idle.same)
  | @rejected a hreject =>
    refine iff_of_true (fun a' t harrival haccept => ?_)
      (h.of_same ⟨rfl, rfl, rfl, rfl, rfl, rfl, rfl⟩)
    obtain rfl := Option.some.inj harrival
    exact absurd haccept (hreject t)
  | @ignored a t haccept hnone =>
    refine iff_of_true (fun a' t' harrival haccept' => ?_) h
    obtain rfl := Option.some.inj harrival
    obtain rfl := Option.some.inj (haccept.clock.symm.trans haccept'.clock)
    exact Or.inr fun k _ hk hwalk => hnone k hwalk hk
  | @credited a t haccept k hwalk hlt pair hpair hsent hanswer hfirst =>
    have heligible : Eligible s.pairs t.nsec k := ⟨pair, hpair, hsent, hanswer⟩
    rw [h.credit_iff hpair hsent]
    constructor
    · intro hasked
      by_contra hk
      rcases hasked a t rfl haccept with ⟨k', hk', hwalk', heligible'⟩ | hnone
      · exact hfirst k' hwalk' (by omega) heligible'
      · exact hnone k (by omega) hlt hwalk heligible
    · intro hk a' t' harrival haccept'
      obtain rfl := Option.some.inj harrival
      obtain rfl := Option.some.inj (haccept.clock.symm.trans haccept'.clock)
      exact Or.inl ⟨k, hk, hwalk, heligible⟩

/-- A datagram changes neither the number of queries sent nor the time one was sent. -/
theorem MigOutcome.sent_eq {a : Arrival} (h : MigOutcome messages s (.recv (.datagram a)) s')
    {k : ℕ} {pair pair' : PairTimespec} (hpair : s.pairs[k]? = some pair)
    (hpair' : s'.pairs[k]? = some pair') :
    s'.messagesSent = s.messagesSent ∧ pair'.sent = pair.sent := by
  cases h with
  | moved hi _ _ => exact absurd rfl (hi a)
  | failed hfault _ _ => exact absurd rfl (hfault.ne_datagram a)
  | rejected _ | ignored _ _ =>
    obtain rfl := Option.some.inj (hpair.symm.trans hpair')
    exact ⟨rfl, rfl⟩
  | @credited _ t _ k₁ _ _ pair₁ hpair₁ _ _ _ =>
    refine ⟨rfl, ?_⟩
    change (s.pairs.set k₁ _)[k]? = some pair' at hpair'
    by_cases hk : k₁ = k
    · subst hk
      obtain ⟨hlt, -⟩ := List.getElem?_eq_some_iff.mp hpair
      obtain rfl := Option.some.inj (hpair.symm.trans hpair₁)
      rw [List.getElem?_set_self hlt, Option.some.injEq] at hpair'
      rw [← hpair']
    · rw [List.getElem?_set_ne hk, hpair, Option.some.injEq] at hpair'
      rw [hpair']

/-- Throughout a run, no query is answered before it is sent. -/
structure AskedBeforeAnswered (start : Mig) (is : List MigInput) : Prop where
  /-- At every moment, whatever is answered has been sent, and earlier than it was answered. -/
  follow : Run.Throughout migStep (fun _ s => s.AnswersFollow) start is
  /-- Whenever a query becomes answered, it has been sent, and at an earlier time. -/
  credited : ∀ (is' : List MigInput) (a : Arrival) (s s' : Mig),
    is' ++ [.recv (.datagram a)] <+: is → Run migStep (fun _ _ => True) start is' s →
    migStep s (.recv (.datagram a)) = some s' →
    ∀ (k : ℕ) (pair pair' : PairTimespec), s.pairs[k]? = some pair → s'.pairs[k]? = some pair' →
      pair.answer = 0 → pair'.answer ≠ 0 →
      k < s.messagesSent ∧ pair.sent.nsec < pair'.received.nsec

theorem askedBeforeAnswered_iff {start : Mig} (hstart : start.Booked messages)
    {is : List MigInput} : AskedBeforeAnswered start is ↔
      Run.Throughout migStep (fun _ s => s.AnswersFollow) start is := by
  constructor
  · intro h
    exact h.follow
  · intro h
    refine ⟨h, fun is' a s s' hpart hrun hstep k pair pair' hpair hpair' _ hanswer' => ?_⟩
    have hafter := h _ s' hpart (hrun.append (.single trivial hstep))
    obtain ⟨hcount, hsent⟩ := (migStep_cases (mig_booked hstart hrun) hstep).sent_eq hpair hpair'
    have hfollow := hafter k pair' hpair' hanswer'
    rwa [hcount, hsent] at hfollow

/-- **When no answer comes before its question.** Whatever datagrams arrive and whatever `pairs`
held when it was allocated, no query is answered before it is sent exactly in those runs in which
every datagram that passes the checks of `recv_answer` finds an acceptable pair among those of the
queries sent, or none among the others. -/
theorem asked_before_answered_iff {malloc : Malloc} {names queries : Block} {count queryLimit : ℕ}
    {client : Option ClientId} {sends receives : List Timespec} {pairs : List PairTimespec}
    (hqueries : makeQueries malloc names count client = some (some queries))
    (hsends : sends.length = count) (hreceives : receives.length = count)
    (hpairs : pairs.length = count) {is : List MigInput}
    (hrun : Run migStep (fun _ _ => True)
      (Mig.initial queries count queryLimit sends receives pairs) is s) :
    AskedBeforeAnswered (Mig.initial queries count queryLimit sends receives pairs) is ↔
      Run migStep Mig.AllAskedFirst
        (Mig.initial queries count queryLimit sends receives pairs) is s := by
  obtain ⟨ws, -, hstart⟩ := mig_start queryLimit hqueries hsends hreceives hpairs
  rw [askedBeforeAnswered_iff hstart]
  refine Run.throughout_iff ?_ ?_ hrun
  · intro k pair hpair hanswer
    exact absurd (Mig.answer_initial hpair) hanswer
  · intro is s i s' hrun hpast _ hstep
    have hfollow := hpast is s (List.prefix_refl is) hrun
    exact hfollow.step_iff (migStep_cases (mig_booked hstart hrun) hstep)

/-- Each query is sent before it is answered. -/
theorem asked_before_answered_iff_answeredMig :
    AskedBeforeAnswered threeMig answeredInputs ↔
      Run migStep Mig.AllAskedFirst threeMig answeredInputs answeredMig :=
  asked_before_answered_iff makeQueries_threeQueries rfl rfl rfl run_answeredMig

/-- Two queries are to be sent. A datagram with the id of the second arrives before that is sent,
and then a reply to the first. -/
def earlyInputs : List MigInput :=
  [.select (.ready false true), .send none (some 19) (some ⟨1, 0⟩), .select (.ready true false),
    .recv (.datagram ⟨[0, 1] ++ List.replicate 10 0, 0, some ⟨2, 0⟩⟩), .recv .again,
    .select (.ready false true), .send none (some 19) (some ⟨3, 0⟩), .select (.ready true false),
    .recv (.datagram ⟨List.replicate 12 0, 0, some ⟨4, 0⟩⟩), .recv .again]

/-- The start of a run with two queries and arrays that were zero when they were allocated. -/
def earlyMig (queries : Block) : Mig :=
  .initial queries 2 0 (List.replicate 2 ⟨0, 0⟩) (List.replicate 2 ⟨0, 0⟩)
    (List.replicate 2 ⟨⟨0, 0⟩, 0, ⟨0, 0⟩⟩)

/-- The second query is answered before it is sent, and reported with the later time of sending. -/
theorem answered_before_asked :
    ∃ queries s, makeQueries .zeroed ⟨[1, 97, 0, 0], []⟩ 2 none = some (some queries) ∧
      Run migStep (fun _ _ => True) (earlyMig queries) earlyInputs s ∧ s.point = .finished ∧
      s.pairs[1]? = some ⟨⟨3, 0⟩, 1, ⟨2, 0⟩⟩ ∧
      ¬AskedBeforeAnswered (earlyMig queries) earlyInputs := by
  obtain ⟨queries, s, hqueries, hrun, hpoint, hpair⟩ : ∃ queries s,
      makeQueries .zeroed ⟨[1, 97, 0, 0], []⟩ 2 none = some (some queries) ∧
        Run migStep (fun _ _ => True) (earlyMig queries) earlyInputs s ∧ s.point = .finished ∧
        s.pairs[1]? = some ⟨⟨3, 0⟩, 1, ⟨2, 0⟩⟩ := ⟨_, _, rfl, .of_foldlM rfl, rfl, rfl⟩
  refine ⟨queries, s, hqueries, hrun, hpoint, hpair, fun hasked => ?_⟩
  have hfollow := hasked.follow _ s (List.prefix_refl _) hrun 1 _ hpair Nat.one_ne_zero
  exact absurd hfollow.2 (by decide)

end DnsTools
