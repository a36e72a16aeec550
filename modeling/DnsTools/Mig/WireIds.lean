import DnsTools.Mig.Attribution

/-!
# Ids on the wire

`make_queries` numbers the queries modulo `USHRT_MAX`, so that no query carries the id `USHRT_MAX`
itself. `recv_answer` takes any id it receives for the first of the pairs with that id, and goes on
in steps of `USHRT_MAX`. The two agree on every id that a query can carry. For the id `USHRT_MAX`
the search comes past the pairs of the queries with the id zero, all but the first of them.

The check of the id does not help, because there is none when there are that many queries.

## Crediting by the id

Nothing is assumed of the datagrams here: they may be anybody's, and have any id. A step credits by
the id if the query of the pair it credits carries the id of the datagram, and if a datagram with an
id that no query carries is credited to none (`CreditsById`). Whether it is the right query among
those with the id is the subject of `Attribution`.

There are 65536 ids on the wire and 65535 that queries carry, and the exception is the one that is
left over. It is credited only if there is an acceptable pair on its way, that is, a pair from
number `USHRT_MAX` on, with a multiple of it for a number, without an answer and with a time of
sending in the past. Runs in which that never happens are those of `NoStrayId`; the others go wrong
at the first step at which it does.

## Main results

* `creditsById_credit_iff` — one credit
* `ids_agree_iff` — exactly the runs in which every credit is right
-/

namespace DnsTools

open Memory Endian

variable {messages : List (List UInt8)} {s s' : Mig}

theorem transactionId_lt (bytes : List UInt8) : transactionId bytes < 65536 := UInt16.toNat_lt _

/-- The search for an id that a query can carry comes past the pairs of such queries only. -/
theorem mod_of_inWalk {t k : ℕ} (h : InWalk t k) : k % ushrtMax = t ↔ t < ushrtMax := by
  have hmod := Table.OnStride.mod_eq h
  have hpos : 0 < ushrtMax := by decide
  constructor
  · rintro rfl
    exact Nat.mod_lt k hpos
  · intro hlt
    rw [hmod, Nat.mod_eq_of_lt hlt]

/-- What a step with a datagram must be if the datagrams are credited by the ids on the wire. -/
structure CreditsById (messages : List (List UInt8)) (s : Mig) (a : Arrival) (s' : Mig) : Prop where
  /-- The query of a pair that is credited carries the id. -/
  credited : ∀ (k : ℕ) (pair pair' : PairTimespec), s.pairs[k]? = some pair →
    s'.pairs[k]? = some pair' → pair'.answer ≠ pair.answer →
    ∃ message, messages[k]? = some message ∧ transactionId message = transactionId a.bytes
  /-- A datagram with an id that no query carries is not credited. -/
  unknown : (∀ message ∈ messages, transactionId message ≠ transactionId a.bytes) →
    s'.pairs = s.pairs

/-- Every step of a run credits the datagram, if it receives one, by its id. -/
def StepCreditsById (messages : List (List UInt8)) (s : Mig) (i : MigInput) (s' : Mig) : Prop :=
  ∀ a, i = .recv (.datagram a) → CreditsById messages s a s'

/-- A datagram with the id `USHRT_MAX` that passes the checks of `recv_answer` finds no acceptable
pair. -/
def Mig.NoStrayId (s : Mig) (i : MigInput) : Prop :=
  ∀ a t, i = .recv (.datagram a) → s.Accepts a t → transactionId a.bytes = ushrtMax →
    ∀ k, k < s.count → InWalk ushrtMax k → ¬Eligible s.pairs t.nsec k

theorem creditsById_of_pairs {a : Arrival} (h : s'.pairs = s.pairs) :
    CreditsById messages s a s' := by
  refine ⟨fun k pair pair' hpair hpair' hanswer => ?_, fun _ => h⟩
  rw [h, hpair, Option.some.injEq] at hpair'
  exact absurd (congrArg PairTimespec.answer hpair'.symm) hanswer

/-- A credit is right if the id is one that a query can carry. -/
theorem creditsById_credit_iff (hids : HasIds messages) (hlength : messages.length = s.pairs.length)
    {a : Arrival} {t : Timespec} {k : ℕ} (hwalk : InWalk (transactionId a.bytes) k)
    {pair : PairTimespec} (hpair : s.pairs[k]? = some pair) :
    CreditsById messages s a (s.credit k pair t) ↔ transactionId a.bytes < ushrtMax := by
  obtain ⟨hlt, -⟩ := List.getElem?_eq_some_iff.mp hpair
  have hmessage : messages[k]? = some messages[k] := List.getElem?_eq_getElem (hlength ▸ hlt)
  have hid := hids k _ hmessage
  rw [← mod_of_inWalk hwalk, ← hid]
  constructor
  · intro h
    obtain ⟨message, hget, hsame⟩ := h.credited k pair _ hpair (List.getElem?_set_self hlt)
      (Nat.succ_ne_self _)
    rwa [Option.some.inj (hmessage.symm.trans hget)]
  · intro hsame
    refine ⟨fun k' pair₁ pair' hpair₁ hpair' hanswer => ?_, fun hunknown => ?_⟩
    · change (s.pairs.set k _)[k']? = some pair' at hpair'
      by_cases hk : k = k'
      · exact ⟨_, hk ▸ hmessage, hsame⟩
      · rw [List.getElem?_set_ne hk, hpair₁, Option.some.injEq] at hpair'
        exact absurd (congrArg PairTimespec.answer hpair'.symm) hanswer
    · exact absurd hsame (hunknown _ (List.mem_of_getElem? hmessage))

/-- **One step.** What decides whether a datagram is credited by its id is whether the id
`USHRT_MAX` finds a pair. -/
theorem noStrayId_iff (hids : HasIds messages) (hbooked : s.Booked messages) {i : MigInput}
    (houtcome : MigOutcome messages s i s') : s.NoStrayId i ↔ StepCreditsById messages s i s' := by
  have hquiet : (∀ a, i ≠ .recv (.datagram a)) →
      (s.NoStrayId i ↔ StepCreditsById messages s i s') := fun hi =>
    iff_of_true (fun a t ha => absurd ha (hi a)) fun a ha => absurd ha (hi a)
  cases houtcome with
  | moved hi _ _ => exact hquiet hi
  | failed hfault _ _ => exact hquiet hfault.ne_datagram
  | sent _ _ _ => exact hquiet (by simp)
  | @rejected a hreject =>
    refine iff_of_true (fun a' t ha haccept => ?_) fun a' _ => creditsById_of_pairs rfl
    cases ha
    exact absurd haccept (hreject t)
  | @ignored a t haccept hnone =>
    refine iff_of_true (fun a' t' ha haccept' hid k hk hwalk => ?_)
      fun a' _ => creditsById_of_pairs rfl
    cases ha
    obtain rfl := Option.some.inj (haccept.clock.symm.trans haccept'.clock)
    exact hnone k (hid ▸ hwalk) hk
  | @credited a t haccept k hwalk hlt pair hpair hsent hanswer hfirst =>
    have hlength : messages.length = s.pairs.length :=
      hbooked.messages_length.trans hbooked.pairs_length.symm
    have hcredit := creditsById_credit_iff (t := t) hids hlength hwalk hpair
    have hid := transactionId_lt a.bytes
    constructor
    · intro hstray a' ha
      cases ha
      rw [hcredit]
      by_contra hmax
      have hmax' : transactionId a.bytes = ushrtMax := by
        rw [ushrtMax] at hmax ⊢
        omega
      exact hstray a t rfl haccept hmax' k hlt (hmax' ▸ hwalk) ⟨pair, hpair, hsent, hanswer⟩
    · intro hsteps a' t' ha haccept' hmax
      cases ha
      have hlt' := hcredit.mp (hsteps a rfl)
      exact absurd hmax (Nat.ne_of_lt hlt')

/-- Throughout a run, datagrams are credited by the ids of the queries in the buffer. -/
def IdsAgree (queries : Block) (count : ℕ) (start : Mig) (is : List MigInput) : Prop :=
  ∀ messages off, readQueries queries count 0 = some (messages, off) →
    Run.EveryStep migStep (StepCreditsById messages) start is

/-- **When the ids agree.** Whatever datagrams arrive, every pair that is credited belongs to a
query with the id of the datagram, and a datagram whose id no query carries is not credited, exactly
in those runs in which no datagram with the id `USHRT_MAX` that passes the checks of `recv_answer`
finds an acceptable pair. -/
theorem ids_agree_iff {malloc : Malloc} {names queries : Block} {count queryLimit : ℕ}
    {client : Option ClientId} {sends receives : List Timespec} {pairs : List PairTimespec}
    (hqueries : makeQueries malloc names count client = some (some queries))
    (hsends : sends.length = count) (hreceives : receives.length = count)
    (hpairs : pairs.length = count) {is : List MigInput}
    (hrun : Run migStep (fun _ _ => True)
      (Mig.initial queries count queryLimit sends receives pairs) is s) :
    IdsAgree queries count (Mig.initial queries count queryLimit sends receives pairs) is ↔
      Run migStep Mig.NoStrayId
        (Mig.initial queries count queryLimit sends receives pairs) is s := by
  obtain ⟨ws, hws, hholds⟩ := makeQueries_spec hqueries
  have hmessages : (queryMessages client 0 ws).length = count := by
    rw [length_queryMessages, length_of_nameWalk hws]
  have hstart : (Mig.initial queries count queryLimit sends receives pairs).Booked
      (queryMessages client 0 ws) :=
    Mig.booked_initial queryLimit hholds hmessages hsends hreceives hpairs
  have hread := hholds.readQueries
  rw [hmessages] at hread
  have hagree : IdsAgree queries count (Mig.initial queries count queryLimit sends receives pairs)
      is ↔ Run.EveryStep migStep (StepCreditsById (queryMessages client 0 ws))
        (Mig.initial queries count queryLimit sends receives pairs) is := by
    constructor
    · intro h
      exact h _ _ hread
    · intro h messages off hread'
      rw [hread, Option.some.injEq, Prod.mk.injEq] at hread'
      exact hread'.1 ▸ h
  rw [hagree]
  exact Run.everyStep_iff hstart (fun _ _ _ h _ hstep => h.next hstep)
    (fun _ _ _ h hstep => noStrayId_iff (hasIds_queryMessages client ws) h (migStep_cases h hstep))
    hrun

/-- Two of three queries are answered under their ids. -/
theorem ids_agree_iff_answeredMig :
    IdsAgree threeQueries 3 threeMig answeredInputs ↔
      Run migStep Mig.NoStrayId threeMig answeredInputs answeredMig :=
  ids_agree_iff makeQueries_threeQueries rfl rfl rfl run_answeredMig

/-! ### An id that no query carries -/

/-- A datagram with the id `USHRT_MAX`. -/
def strayReply : Arrival := ⟨[0xff, 0xff] ++ List.replicate 10 0, 0, some ⟨2, 0⟩⟩

theorem transactionId_strayReply : transactionId strayReply.bytes = ushrtMax := by
  show transactionId ([0xff, 0xff] ++ List.replicate 10 0) = ushrtMax
  decide

theorem transactionId_ne_strayReply {messages : List (List UInt8)} (hids : HasIds messages) :
    ∀ message ∈ messages, transactionId message ≠ transactionId strayReply.bytes := by
  intro message hmem
  obtain ⟨k, hk, rfl⟩ := List.mem_iff_getElem.mp hmem
  rw [hids k _ (List.getElem?_eq_getElem hk), transactionId_strayReply]
  exact Nat.ne_of_lt (Nat.mod_lt k (by decide))

/-- It is credited to the query number `USHRT_MAX`, before that has been sent. -/
theorem migStep_strayReply {messages : List (List UInt8)} {s : Mig} (hbooked : s.Booked messages)
    (hpoint : s.point = .receiving) (hpair : s.pairs[ushrtMax]? = some ⟨⟨0, 0⟩, 0, ⟨0, 0⟩⟩) :
    migStep s (.recv (.datagram strayReply))
      = some (s.credit ushrtMax ⟨⟨0, 0⟩, 0, ⟨0, 0⟩⟩ ⟨2, 0⟩) := by
  have hlt : ushrtMax < s.count := by
    rw [← hbooked.pairs_length]
    exact (List.getElem?_eq_some_iff.mp hpair).1
  have haccept : s.Accepts strayReply ⟨2, 0⟩ := ⟨by decide, rfl, by omega⟩
  have hwalk : InWalk (transactionId strayReply.bytes) ushrtMax := by
    rw [transactionId_strayReply]
    exact Table.onStride_self _ _
  refine migStep_credit hbooked (Or.inl hpoint) haccept hwalk hlt hpair (by decide) rfl ?_
  intro j hj hlt
  rw [transactionId_strayReply] at hj
  exact absurd hj.le (Nat.not_le.mpr hlt)

/-- It arrives before any query is sent. -/
def strayInputs : List MigInput := [.select (.ready true true), .recv (.datagram strayReply)]

/-- If ids are reused, it goes on record with the second query that has the id zero. -/
theorem exists_stray {count : ℕ} (hcount : ushrtMax < count) (hsize : 27 * count < sizeModulus) :
    ∃ queries s messages off, makeQueries .zeroed singleName count none = some (some queries) ∧
      Run migStep (fun _ _ => True) (zeroedMig queries count) strayInputs s ∧
      readQueries queries count 0 = some (messages, off) ∧
      (∃ pair, s.pairs[ushrtMax]? = some pair ∧ pair.answer = 1) ∧
      (∀ message ∈ messages, transactionId message ≠ transactionId strayReply.bytes) ∧
      ¬IdsAgree queries count (zeroedMig queries count) strayInputs := by
  have hpos : 0 < count := Nat.zero_lt_of_lt hcount
  obtain ⟨queries, hqueries⟩ := exists_makeQueries_singleName hsize
  obtain ⟨ws, hws, hholds⟩ := makeQueries_spec hqueries
  have hmessages : (queryMessages none 0 ws).length = count := by
    rw [length_queryMessages, length_of_nameWalk hws]
  have hids := hasIds_queryMessages none ws
  have hread := hholds.readQueries
  rw [hmessages] at hread
  have hbooked : (zeroedMig queries count).Booked (queryMessages none 0 ws) :=
    Mig.booked_initial 0 hholds hmessages List.length_replicate List.length_replicate
      List.length_replicate
  generalize queryMessages none 0 ws = messages at *
  -- the state in which the datagram is at hand
  have hselect : migStep (zeroedMig queries count) (.select (.ready true true))
      = some { zeroedMig queries count with point := .receiving } := by
    rw [zeroedMig_eq queries hpos]
    rfl
  have hbooked₁ := hbooked.next hselect
  have hpair : ({ zeroedMig queries count with point := .receiving } : Mig).pairs[ushrtMax]?
      = some ⟨⟨0, 0⟩, 0, ⟨0, 0⟩⟩ := by
    rw [zeroedMig_eq queries hpos]
    exact (List.getElem?_replicate ..).trans (if_pos hcount)
  have hpoint : ({ zeroedMig queries count with point := .receiving } : Mig).point = .receiving :=
    rfl
  generalize ({ zeroedMig queries count with point := .receiving } : Mig) = s₁ at *
  have hstep := migStep_strayReply hbooked₁ hpoint hpair
  obtain ⟨hlt, -⟩ := List.getElem?_eq_some_iff.mp hpair
  have hunknown := transactionId_ne_strayReply hids
  refine ⟨queries, _, messages, _, hqueries, .cons trivial hselect (.single trivial hstep), hread,
    ⟨_, List.getElem?_set_self hlt, rfl⟩, hunknown, fun hagree => ?_⟩
  have hsame := (hagree _ _ hread [.select (.ready true true)] _ s₁ _ (List.prefix_refl _)
    (.single trivial hselect) hstep strayReply rfl).unknown hunknown
  have hget := congrArg (·[ushrtMax]?) hsame
  simp only [hpair] at hget
  rw [Mig.credit, List.getElem?_set_self hlt] at hget
  exact Nat.one_ne_zero (congrArg PairTimespec.answer (Option.some.inj hget))

/-- One datagram to a run with 65536 queries. -/
theorem stray_id_credited :
    ∃ queries s messages off, makeQueries .zeroed singleName 65536 none = some (some queries) ∧
      Run migStep (fun _ _ => True) (zeroedMig queries 65536) strayInputs s ∧
      readQueries queries 65536 0 = some (messages, off) ∧
      (∃ pair, s.pairs[ushrtMax]? = some pair ∧ pair.answer = 1) ∧
      (∀ message ∈ messages, transactionId message ≠ transactionId strayReply.bytes) ∧
      ¬IdsAgree queries 65536 (zeroedMig queries 65536) strayInputs :=
  exists_stray (by decide) (by decide)

end DnsTools
