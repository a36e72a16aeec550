import DnsTools.Mig.Main
import DnsTools.Lib.Run

/-!
# The bookkeeping of a run

The arrays and counters of a run of mig fit together in every state: `Mig.Booked` is the invariant.
Nothing is assumed about the datagrams that arrive, nor about what the arrays held when they were
allocated.

`migStep_outcome` says everything a step can do to a state with the invariant: it sends the next
query, or credits a datagram to the first pair its search accepts, or leaves the data alone. In
particular every step is defined, so no access is out of bounds. The invariant and the results of
the later modules are derived from it.

## The invariant

It has three parts. `Tables` is about the arrays: their lengths, that the two records of a time of
sending agree, and that the first entries of `receives` are the times of the answered pairs, with
zeros behind. That no entry is zero but these is what the analyser goes by when it reads a report.
`PointFits` ties the place in the program to the counters, and `sent` says where in the buffer the
next query lies. Behind an error the last part is dropped, since there the program prints nothing
and the buffer is not read any more.

What the arrays held when they were allocated shows in one place only: a pair whose query has not
been sent has whatever time of sending its memory held. Nothing in the invariant depends on it, and
the results that do say so (`AskedFirst`).

## The step

Most of a step is control: which loop goes on, and what the next system call is. That part touches
no data, and `Continues` says so for all of it at once, together with what it leads to. So each
outcome names the data that change and leaves the rest to `Continues`. A failing call leads to the
point `failed` from any of them.

The search of `recv_answer` goes through the pairs by strides of `USHRT_MAX`. `SearchOutcome` says
where it ends, without the strides: at the first pair on its way that is acceptable, or nowhere. It
has fuel, which never runs out.

## The clock

At the end of the module stands what holds if the clock does not go back: the recorded times are
readings, in their order, and no answer is earlier than its query. This needs no more than that each
record is made of the reading at hand.

## Main results

* `migStep_outcome` — what a step does, and that it is defined
* `Mig.Booked.next` — the bookkeeping is an invariant
* `mig_bookkeeping` — what holds of a run
-/

namespace DnsTools

open Memory

/-! ### The search -/

/-- The search of `recv_answer` accepts pair number `k`. -/
def Eligible (pairs : List PairTimespec) (receivedNsec k : ℕ) : Prop :=
  ∃ pair, pairs[k]? = some pair ∧ pair.sent.nsec < receivedNsec ∧ pair.answer = 0

/-- The search that starts at the first index comes past the second. -/
abbrev InWalk (start k : ℕ) : Prop := Table.OnStride ushrtMax start k

/-- How the search ends: at the first pair it accepts, or past the end. -/
inductive SearchOutcome (pairs : List PairTimespec) (count receivedNsec start : ℕ) :
    Option (Option ℕ) → Prop
  | found {k : ℕ} (hwalk : InWalk start k) (hlt : k < count)
      (heligible : Eligible pairs receivedNsec k)
      (hfirst : ∀ j, InWalk start j → j < k → ¬Eligible pairs receivedNsec j) :
      SearchOutcome pairs count receivedNsec start (some (some k))
  | exhausted (hnone : ∀ j, InWalk start j → j < count → ¬Eligible pairs receivedNsec j) :
      SearchOutcome pairs count receivedNsec start (some none)

theorem findPair_outcome {pairs : List PairTimespec} {count fuel start : ℕ} (receivedNsec : ℕ)
    (hlength : pairs.length = count) (hfuel : 0 < fuel) (hcount : count < fuel + start) :
    SearchOutcome pairs count receivedNsec start
      (findPair pairs count receivedNsec fuel start) := by
  induction fuel generalizing start with
  | zero => exact absurd hfuel (Nat.lt_irrefl 0)
  | succ fuel ih =>
    rw [findPair]
    by_cases hend : count ≤ start
    · rw [if_pos hend]
      exact .exhausted fun j hwalk hlt => absurd hwalk.le (by omega)
    · have hpair : pairs[start]? = some pairs[start] := List.getElem?_eq_getElem (by omega)
      rw [if_neg hend, hpair, Option.bind_eq_bind, Option.bind_some]
      split
      · rename_i heligible
        exact .found (Table.onStride_self _ _) (by omega) ⟨_, hpair, heligible⟩
          fun j hwalk hj => absurd hwalk.le (by omega)
      · rename_i hnot
        have hstart : ¬Eligible pairs receivedNsec start := by
          rintro ⟨pair, hp, heligible⟩
          rw [hpair, Option.some.injEq] at hp
          exact hnot (hp ▸ heligible)
        have hpos : 0 < ushrtMax := by decide
        have hnext := @ih (start + ushrtMax) (by omega) (by omega)
        revert hnext
        generalize findPair pairs count receivedNsec fuel (start + ushrtMax) = r
        intro hnext
        cases hnext with
        | found hwalk hk heligible hfirst =>
          refine .found (Table.onStride_iff.mpr (Or.inr hwalk)) hk heligible fun j hj hjk => ?_
          rcases Table.onStride_iff.mp hj with rfl | hj
          · exact hstart
          · exact hfirst j hj hjk
        | exhausted hnone =>
          refine .exhausted fun j hj hjc => ?_
          rcases Table.onStride_iff.mp hj with rfl | hj
          · exact hstart
          · exact hnone j hj hjc

/-! ### The invariant -/

/-- The stamp of an answered pair. -/
def answeredStamp (pair : PairTimespec) : Option Timespec :=
  if pair.answer = 1 then some pair.received else none

/-- The point lies in the first loop. -/
def MigPoint.inFirstLoop : MigPoint → Bool
  | .selecting | .receiving | .sending => true
  | _ => false

/-- The point lies in the second loop or behind it. -/
def MigPoint.inSecondLoop : MigPoint → Bool
  | .waiting | .draining | .finished => true
  | _ => false

/-- The point of the run agrees with the counters. -/
structure Mig.PointFits (s : Mig) : Prop where
  /-- In the first loop there is a query left to send. -/
  firstLoop : s.point.inFirstLoop = true → s.messagesSent < s.count
  /-- Behind the first loop there is none. -/
  secondLoop : s.point.inSecondLoop = true → s.messagesSent = s.count
  /-- While the run waits for an answer, one is missing. -/
  waiting : s.point = .waiting → s.messagesReceived < s.count

/-- The arrays and counters fit together. -/
structure Mig.Tables (messages : List (List UInt8)) (s : Mig) : Prop where
  /-- The queries lie in their buffer. -/
  queries : HoldsQueries s.queries messages
  /-- There are `count` queries. -/
  messages_length : messages.length = s.count
  /-- The length of `sends`. -/
  sends_length : s.sends.length = s.count
  /-- The length of `receives`. -/
  receives_length : s.receives.length = s.count
  /-- The length of `pairs`. -/
  pairs_length : s.pairs.length = s.count
  /-- No query is answered twice. -/
  answer_le : ∀ pair ∈ s.pairs, pair.answer ≤ 1
  /-- No more queries are sent than there are. -/
  sent_le : s.messagesSent ≤ s.count
  /-- The two records of a time of sending agree. -/
  sends_eq : ∀ k < s.messagesSent, ∃ pair, s.pairs[k]? = some pair ∧ s.sends[k]? = some pair.sent
  /-- The answered pairs are counted. -/
  received_eq : (s.pairs.filterMap answeredStamp).length = s.messagesReceived
  /-- Their stamps are the first entries of `receives`, in some order. -/
  receives_perm :
    (s.receives.take s.messagesReceived).Perm (s.pairs.filterMap answeredStamp)
  /-- None of these entries is zero. -/
  receives_pos : ∀ t ∈ s.receives.take s.messagesReceived, 0 < t.nsec
  /-- All later entries are zero. -/
  receives_zero : ∀ t ∈ s.receives.drop s.messagesReceived, t = { tvSec := 0, tvNsec := 0 }

/-- The invariant of a run. -/
structure Mig.Booked (messages : List (List UInt8)) (s : Mig) : Prop
    extends s.Tables messages where
  /-- The loop is the right one. -/
  fits : s.PointFits
  /-- The next query is found where it lies, and the queries sent were sent in order. -/
  sent : s.point ≠ .failed → s.offset = queryOffset messages s.messagesSent ∧
    s.wire = messages.take s.messagesSent

variable {messages : List (List UInt8)} {s s' : Mig}

/-- Only answered pairs are counted, so one that is not leaves room for another answer. -/
theorem Mig.Tables.received_lt (h : s.Tables messages) {k : ℕ} {pair : PairTimespec}
    (hk : s.pairs[k]? = some pair) (hanswer : pair.answer = 0) : s.messagesReceived < s.count := by
  obtain ⟨hlt, hget⟩ := List.getElem?_eq_some_iff.mp hk
  have hnone : answeredStamp s.pairs[k] = none := by
    rw [hget, answeredStamp, hanswer]
    rfl
  have hperm := Table.perm_filterMap_set (x := { pair with answer := 1 }) hlt hnone rfl
  have hle := List.length_filterMap_le answeredStamp (s.pairs.set k { pair with answer := 1 })
  rw [hperm.length_eq, List.length_cons, h.received_eq, List.length_set, h.pairs_length] at hle
  exact hle

theorem Mig.Tables.received_le (h : s.Tables messages) : s.messagesReceived ≤ s.count := by
  have hle := List.length_filterMap_le answeredStamp s.pairs
  rwa [h.received_eq, h.pairs_length] at hle

/-! ### What a step does -/

/-- `recv_answer` searches for a pair to credit the datagram to, received at the time `t`. -/
structure Mig.Accepts (s : Mig) (a : Arrival) (t : Timespec) : Prop where
  /-- The datagram has room for a header. -/
  long : sizeofDnsQuery ≤ a.bytes.length
  /-- The clock gives the time. -/
  clock : a.clock = some t
  /-- If there are fewer queries than ids, the id is one of theirs. -/
  id : ¬(s.count < ushrtMax ∧ s.count ≤ transactionId a.bytes)

/-- Pair number `k` gets its answer. -/
def Mig.credit (s : Mig) (k : ℕ) (pair : PairTimespec) (t : Timespec) : Mig :=
  { s with receives := s.receives.set s.messagesReceived t
           pairs := s.pairs.set k { pair with answer := pair.answer + 1, received := t }
           messagesReceived := s.messagesReceived + 1 }

/-- Everything `recv_answer` can do with a datagram. -/
inductive RecvAnswerOutcome (s : Mig) (a : Arrival) : Option (Mig × RecvTurn) → Prop
  | rejected (hreject : ∀ t, ¬s.Accepts a t) : RecvAnswerOutcome s a (some (s, .failed))
  | ignored {t : Timespec} (haccept : s.Accepts a t)
      (hnone : ∀ j, InWalk (transactionId a.bytes) j → j < s.count → ¬Eligible s.pairs t.nsec j) :
      RecvAnswerOutcome s a (some (s, .again))
  | credited {t : Timespec} (haccept : s.Accepts a t) {k : ℕ}
      (hwalk : InWalk (transactionId a.bytes) k) (hlt : k < s.count) {pair : PairTimespec}
      (hpair : s.pairs[k]? = some pair) (hsent : pair.sent.nsec < t.nsec)
      (hanswer : pair.answer = 0)
      (hfirst : ∀ j, InWalk (transactionId a.bytes) j → j < k → ¬Eligible s.pairs t.nsec j) :
      RecvAnswerOutcome s a (some (s.credit k pair t, .again))

theorem recvAnswer_outcome (h : s.Tables messages) (a : Arrival) :
    RecvAnswerOutcome s a (recvAnswer s (.datagram a)) := by
  rw [recvAnswer]
  by_cases hshort : a.bytes.length < sizeofDnsQuery
  · rw [if_pos hshort]
    exact .rejected fun t haccept => absurd haccept.long (Nat.not_le.mpr hshort)
  rw [if_neg hshort]
  cases hclock : a.clock with
  | none => exact .rejected fun t haccept => by simp [haccept.clock] at hclock
  | some t =>
    by_cases hid : s.count < ushrtMax ∧ s.count ≤ transactionId a.bytes
    · simp only
      rw [if_pos hid]
      exact .rejected fun t haccept => haccept.id hid
    · have haccept : s.Accepts a t := ⟨Nat.not_lt.mp hshort, hclock, hid⟩
      have hsearch := findPair_outcome t.nsec h.pairs_length (Nat.succ_pos s.count)
        (show s.count < s.count + 1 + transactionId a.bytes by omega)
      simp only
      rw [if_neg hid]
      revert hsearch
      generalize findPair s.pairs s.count t.nsec (s.count + 1) (transactionId a.bytes) = r
      intro hsearch
      cases hsearch with
      | exhausted hnone => exact .ignored haccept hnone
      | @found k hwalk hlt heligible hfirst =>
        obtain ⟨pair, hpair, hsent, hanswer⟩ := heligible
        have hreceived := h.received_lt hpair hanswer
        rw [← h.receives_length] at hreceived
        have hk : k < s.pairs.length := by rw [h.pairs_length]; exact hlt
        simp only [Option.bind_eq_bind, Option.bind_some, hpair, Table.write_of_lt hreceived,
          Table.write_of_lt hk]
        exact .credited haccept hwalk hlt hpair hsent hanswer hfirst

/-- The arrays and counters are the same. -/
structure Mig.SameData (s s' : Mig) : Prop where
  /-- The number of queries is the same. -/
  count : s'.count = s.count
  /-- The queries are the same. -/
  queries : s'.queries = s.queries
  /-- The times of sending are the same. -/
  sends : s'.sends = s.sends
  /-- The times of receiving are the same. -/
  receives : s'.receives = s.receives
  /-- The pairs are the same. -/
  pairs : s'.pairs = s.pairs
  /-- As many queries have been sent. -/
  messagesSent : s'.messagesSent = s.messagesSent
  /-- As many answers have been received. -/
  messagesReceived : s'.messagesReceived = s.messagesReceived

theorem Mig.SameData.refl (s : Mig) : s.SameData s := ⟨rfl, rfl, rfl, rfl, rfl, rfl, rfl⟩

theorem Mig.SameData.trans {s'' : Mig} (h : s.SameData s') (h' : s'.SameData s'') :
    s.SameData s'' :=
  ⟨h'.1.trans h.1, h'.2.trans h.2, h'.3.trans h.3, h'.4.trans h.4, h'.5.trans h.5,
    h'.6.trans h.6, h'.7.trans h.7⟩

/-- Nothing but the point, the sockets, the time of the last query and the number of waits left is
different. -/
structure Mig.Idle (s s' : Mig) : Prop where
  /-- The arrays and counters are the same. -/
  same : s.SameData s'
  /-- The next query is the same. -/
  offset : s'.offset = s.offset
  /-- Nothing is sent. -/
  wire : s'.wire = s.wire

theorem Mig.Idle.refl (s : Mig) : s.Idle s := ⟨.refl s, rfl, rfl⟩

theorem Mig.Idle.trans {s'' : Mig} (h : s.Idle s') (h' : s'.Idle s'') : s.Idle s'' :=
  ⟨h.same.trans h'.same, h'.offset.trans h.offset, h'.wire.trans h.wire⟩

theorem Mig.idle_with {read write : Bool} {lastSent attempts : ℕ} {point : MigPoint} :
    s.Idle { s with readSocket := read, writeSocket := write, lastSent, attempts, point } :=
  ⟨⟨rfl, rfl, rfl, rfl, rfl, rfl, rfl⟩, rfl, rfl⟩

/-- From `s` the run goes on to its next system call, with so many waits left in the second loop,
and touches no data. -/
structure Mig.Continues (s : Mig) (left : ℕ) (s' : Mig) : Prop where
  /-- No data is touched. -/
  idle : s.Idle s'
  /-- The number of waits left. -/
  attempts : s'.attempts = left
  /-- There is no error. -/
  point : s'.point ≠ .failed
  /-- The loop is the right one. -/
  fits : s'.PointFits
  /-- The loops end when every query is answered or no wait is left. -/
  finished : s'.point = .finished → s.count ≤ s.messagesReceived ∨ left = 0

section Continues

variable {t : Mig} {left : ℕ}

/-- A change of the point alone, from a state with the same data. -/
theorem Mig.Idle.continues (h : s.Idle t) (hleft : t.attempts = left) {point : MigPoint}
    (hpoint : point ≠ .failed) (hfirst : point.inFirstLoop = true → s.messagesSent < s.count)
    (hsecond : point.inSecondLoop = true → s.messagesSent = s.count)
    (hwaiting : point = .waiting → s.messagesReceived < s.count)
    (hfinished : point = .finished → s.count ≤ s.messagesReceived ∨ left = 0) :
    s.Continues left { t with point } := by
  have hsent := h.same.messagesSent
  have hreceived := h.same.messagesReceived
  have hcount := h.same.count
  refine ⟨h.trans idle_with, hleft, hpoint, ⟨?_, ?_, ?_⟩, hfinished⟩
  · intro hin
    show t.messagesSent < t.count
    rw [hsent, hcount]
    exact hfirst hin
  · intro hin
    show t.messagesSent = t.count
    rw [hsent, hcount]
    exact hsecond hin
  · intro hin
    show t.messagesReceived < t.count
    rw [hreceived, hcount]
    exact hwaiting hin

/-- The same at a point of the first loop. -/
theorem Mig.Idle.continuesFirst (h : s.Idle t) (hleft : t.attempts = left) {point : MigPoint}
    (hpoint : point.inFirstLoop = true) (hsent : s.messagesSent < s.count) :
    s.Continues left { t with point } := by
  cases point with
  | selecting | receiving | sending =>
    exact h.continues hleft (by simp) (fun _ => hsent) (by simp [MigPoint.inSecondLoop]) (by simp)
      (by simp)
  | waiting | draining | finished | failed => simp [MigPoint.inFirstLoop] at hpoint

theorem Mig.Idle.continueWaiting (h : s.Idle t) (hleft : t.attempts = left)
    (hsent : s.messagesSent = s.count) : s.Continues left t.continueWaiting := by
  have hreceived := h.same.messagesReceived
  have hcount := h.same.count
  rw [Mig.continueWaiting]
  split
  · exact h.continues hleft (by simp) (by simp [MigPoint.inFirstLoop]) (fun _ => hsent)
      (fun _ => by omega) (by simp)
  · exact h.continues hleft (by simp) (by simp [MigPoint.inFirstLoop]) (fun _ => hsent) (by simp)
      fun _ => by omega

theorem Mig.Idle.continueSending (h : s.Idle t) (hleft : t.attempts = left)
    (hsent : s.messagesSent ≤ s.count) : s.Continues left t.continueSending := by
  have hsame := h.same.messagesSent
  have hcount := h.same.count
  rw [Mig.continueSending]
  split
  · exact h.continuesFirst hleft rfl (by omega)
  · exact h.continueWaiting hleft (by omega)

theorem Mig.Idle.startSending (h : s.Idle t) (hleft : t.attempts = left)
    (hsent : s.messagesSent < s.count) : s.Continues left t.startSending := by
  rw [Mig.startSending]
  split
  · exact h.continuesFirst hleft rfl hsent
  · exact Idle.continueSending (h.trans idle_with) hleft (Nat.le_of_lt hsent)

theorem Mig.Idle.startReceiving (h : s.Idle t) (hleft : t.attempts = left)
    (hsent : s.messagesSent < s.count) : s.Continues left t.startReceiving := by
  rw [Mig.startReceiving]
  split
  · exact h.continuesFirst hleft rfl hsent
  · exact Idle.startSending (h.trans idle_with) hleft hsent

end Continues

/-- The next query has been sent at the time `t`. -/
def Mig.record (messages : List (List UInt8)) (s : Mig) (pair : PairTimespec) (t : Timespec) :
    Mig :=
  { s with sends := s.sends.set s.messagesSent t
           pairs := s.pairs.set s.messagesSent { pair with sent := t }
           messagesSent := s.messagesSent + 1
           offset := queryOffset messages (s.messagesSent + 1)
           wire := messages.take (s.messagesSent + 1) }

/-- How many waits are left in the second loop after an input that moves the run on. -/
def Mig.AttemptsLeft (s : Mig) (i : MigInput) (left : ℕ) : Prop :=
  left = s.attempts ∨ left = recvTimeout ∨
    (s.point = .waiting ∧ i = .select .timeout ∧ left = s.attempts - 1)

/-- A call fails: the system call itself, the clock, or `sendto` by sending a part only. -/
def Mig.Faulty (s : Mig) : MigInput → Prop
  | .select r => r = .failed
  | .recv r => r = .failed
  | .send now n clock => s.doSendQuery now = none ∨ s.doSendQuery now = some true ∧
      (clock = none ∨ ∀ next, getNextQuery s.queries s.offset = some next → n ≠ some next.size)

instance (s : Mig) (i : MigInput) : Decidable (s.Faulty i) :=
  match i with
  | .select r => inferInstanceAs (Decidable (r = .failed))
  | .recv r => inferInstanceAs (Decidable (r = .failed))
  | .send now n clock =>
    inferInstanceAs (Decidable (s.doSendQuery now = none ∨ s.doSendQuery now = some true ∧
      (clock = none ∨ ∀ next ∈ getNextQuery s.queries s.offset, n ≠ some next.size)))

theorem Mig.Faulty.ne_datagram {i : MigInput} (h : s.Faulty i) (a : Arrival) :
    i ≠ .recv (.datagram a) := by
  rintro rfl
  exact Reception.noConfusion h

/-- Everything a step can do. -/
inductive MigOutcome (messages : List (List UInt8)) (s : Mig) : MigInput → Mig → Prop
  /-- It goes on to the next system call. -/
  | moved {i : MigInput} (hi : ∀ a, i ≠ .recv (.datagram a)) {s' : Mig} {left : ℕ}
      (hleft : s.AttemptsLeft i left) (hcontinues : s.Continues left s') :
      MigOutcome messages s i s'
  /-- A call has failed. -/
  | failed {i : MigInput} (hfault : s.Faulty i) {s' : Mig} (hsame : s.SameData s')
      (hpoint : s'.point = .failed) : MigOutcome messages s i s'
  /-- The next query is sent. -/
  | sent {now : Option Timespec} {n : Option ℕ} {t : Timespec} {pair : PairTimespec}
      (hpair : s.pairs[s.messagesSent]? = some pair) (hlt : s.messagesSent < s.count) {s' : Mig}
      (hcontinues : (s.record messages pair t).Continues s.attempts s') :
      MigOutcome messages s (.send now n (some t)) s'
  /-- A datagram ends the run. -/
  | rejected {a : Arrival} (hreject : ∀ t, ¬s.Accepts a t) :
      MigOutcome messages s (.recv (.datagram a)) s.fail
  /-- A datagram is not credited to any pair. -/
  | ignored {a : Arrival} {t : Timespec} (haccept : s.Accepts a t)
      (hnone : ∀ j, InWalk (transactionId a.bytes) j → j < s.count → ¬Eligible s.pairs t.nsec j) :
      MigOutcome messages s (.recv (.datagram a)) s
  /-- A datagram is credited to a pair. -/
  | credited {a : Arrival} {t : Timespec} (haccept : s.Accepts a t) {k : ℕ}
      (hwalk : InWalk (transactionId a.bytes) k) (hlt : k < s.count) {pair : PairTimespec}
      (hpair : s.pairs[k]? = some pair) (hsent : pair.sent.nsec < t.nsec)
      (hanswer : pair.answer = 0)
      (hfirst : ∀ j, InWalk (transactionId a.bytes) j → j < k → ¬Eligible s.pairs t.nsec j) :
      MigOutcome messages s (.recv (.datagram a)) (s.credit k pair t)

/-- The input answers the system call that comes next. -/
def Mig.Expects (s : Mig) : MigInput → Prop
  | .select _ => s.point = .selecting ∨ s.point = .waiting
  | .recv _ => s.point = .receiving ∨ s.point = .draining
  | .send .. => s.point = .sending

/-- A turn of `recv_answer` with a datagram, in either loop. -/
theorem recvAnswer_turn (h : s.Tables messages) (a : Arrival) (done : Mig → Option Mig) :
    ∃ s', ((recvAnswer s (.datagram a)).bind fun p => match p.2 with
        | .again => some p.1
        | .done => done p.1
        | .failed => some p.1.fail) = some s' ∧
      MigOutcome messages s (.recv (.datagram a)) s' := by
  have houtcome := recvAnswer_outcome h a
  revert houtcome
  generalize recvAnswer s (.datagram a) = r
  intro houtcome
  cases houtcome with
  | rejected hreject => exact ⟨_, rfl, .rejected hreject⟩
  | ignored haccept hnone => exact ⟨_, rfl, .ignored haccept hnone⟩
  | credited haccept hwalk hlt hpair hsent hanswer hfirst =>
    exact ⟨_, rfl, .credited haccept hwalk hlt hpair hsent hanswer hfirst⟩

/-- `sent_query` fails and records nothing, or sends the next query and records the time. -/
theorem sentQuery_outcome (h : s.Tables messages) (hmsg : s.messagesSent < messages.length)
    {offset : ℕ} (hoffset : offset = queryOffset messages (s.messagesSent + 1))
    (hwire : s.wire = messages.take s.messagesSent) (n : Option ℕ) (clock : Option Timespec) :
    ∃ r s', sentQuery { s with offset } messages[s.messagesSent] n clock = some (r, s') ∧
      ((r = -1 ∧ s.SameData s' ∧ (clock = none ∨ n ≠ some messages[s.messagesSent].length)) ∨
        (r = 0 ∧ ∃ t pair, s.pairs[s.messagesSent]? = some pair ∧ clock = some t ∧
          s' = s.record messages pair t)) := by
  have hlt : s.messagesSent < s.count := by rw [← h.messages_length]; exact hmsg
  have hpairs : s.messagesSent < s.pairs.length := by rw [h.pairs_length]; exact hlt
  have hsends : s.messagesSent < s.sends.length := by rw [h.sends_length]; exact hlt
  have hsame : ∀ offset wire, s.SameData { s with offset, wire } :=
    fun _ _ => ⟨rfl, rfl, rfl, rfl, rfl, rfl, rfl⟩
  cases n with
  | none => exact ⟨_, _, rfl, Or.inl ⟨rfl, hsame _ _, Or.inr (by simp)⟩⟩
  | some n =>
    simp only [sentQuery]
    by_cases hwhole : n = messages[s.messagesSent].length
    · rw [if_neg (not_not.mpr hwhole), hwhole, List.take_length, hwire,
        ← List.take_succ_eq_append_getElem hmsg, hoffset]
      cases clock with
      | none => exact ⟨_, _, rfl, Or.inl ⟨rfl, hsame _ _, Or.inl rfl⟩⟩
      | some t =>
        simp only [Table.write_of_lt hsends, Table.write_of_lt hpairs,
          List.getElem?_eq_getElem hpairs, Option.bind_eq_bind, Option.bind_some]
        exact ⟨_, _, rfl, Or.inr ⟨rfl, t, _, rfl, rfl, rfl⟩⟩
    · rw [if_pos hwhole]
      exact ⟨_, _, rfl, Or.inl ⟨rfl, hsame _ _, Or.inr (by simpa using hwhole)⟩⟩

/-- The body of the test of `writefds`. -/
theorem Mig.send_outcome (h : s.Booked messages) (hpoint : s.point = .sending)
    (now : Option Timespec) (n : Option ℕ) (clock : Option Timespec) :
    ∃ s', s.send now n clock = some s' ∧ MigOutcome messages s (.send now n clock) s' := by
  have hlt : s.messagesSent < s.count := h.fits.firstLoop (by rw [hpoint]; rfl)
  rw [send]
  cases hdo : s.doSendQuery now with
  | none =>
    have hfault : s.Faulty (.send now n clock) := Or.inl hdo
    exact ⟨_, rfl, .failed hfault ⟨rfl, rfl, rfl, rfl, rfl, rfl, rfl⟩ rfl⟩
  | some doSend =>
    cases doSend with
    | false =>
      exact ⟨_, rfl, .moved (by simp) (Or.inl rfl)
        ((Idle.refl s).continueSending rfl (Nat.le_of_lt hlt))⟩
    | true =>
      have hmsg : s.messagesSent < messages.length := by rw [h.messages_length]; exact hlt
      obtain ⟨next, hnext, hsize, hoffset, hload⟩ := h.queries.getNextQuery hmsg
      obtain ⟨hpos, hwire⟩ := h.sent (by rw [hpoint]; simp)
      obtain ⟨r, s₁, hquery, hsent⟩ := sentQuery_outcome h.toTables hmsg hoffset hwire n clock
      simp only [hpos, hnext, hload, Option.bind_eq_bind, Option.bind_some, hquery]
      rcases hsent with ⟨rfl, hsame, hcause⟩ | ⟨rfl, t, pair, hpair, rfl, rfl⟩
      · have hfault : s.Faulty (.send now n clock) := by
          refine Or.inr ⟨hdo, hcause.imp_right fun hne next' hnext' => ?_⟩
          rw [hpos, hnext, Option.some.injEq] at hnext'
          rw [← hnext', hsize]
          exact hne
        exact ⟨_, rfl, .failed hfault (hsame.trans ⟨rfl, rfl, rfl, rfl, rfl, rfl, rfl⟩) rfl⟩
      · rw [if_neg (by simp)]
        have hnext : (s.record messages pair t).messagesSent ≤ s.count := hlt
        by_cases hinterval : 0 < (s.record messages pair t).writeInterval
        · have hget : (s.record messages pair t).pairs[s.messagesSent + 1 - 1]?
              = some { pair with sent := t } := by
            rw [Nat.add_sub_cancel]
            exact List.getElem?_set_self (by rw [h.pairs_length]; exact hlt)
          rw [if_pos hinterval]
          simp only [Mig.record] at hget ⊢
          simp only [hget, Option.bind_some]
          exact ⟨_, rfl, .sent hpair hlt (idle_with.continueSending rfl hnext)⟩
        · rw [if_neg hinterval]
          exact ⟨_, rfl, .sent hpair hlt (idle_with.continueSending rfl hnext)⟩

/-- **What a step does.** Every step is defined. -/
theorem migStep_outcome (h : s.Booked messages) {i : MigInput} (hi : s.Expects i) :
    ∃ s', migStep s i = some s' ∧ MigOutcome messages s i s' := by
  have hfail : ∀ i, s.Faulty i → MigOutcome messages s i s.fail :=
    fun _ hfault => .failed hfault ⟨rfl, rfl, rfl, rfl, rfl, rfl, rfl⟩ rfl
  unfold migStep
  cases i with
  | send now n clock =>
    have hpoint : s.point = .sending := hi
    simp only [hpoint]
    exact Mig.send_outcome h hpoint now n clock
  | select r =>
    rcases hi with hpoint | hpoint
    · have hlt : s.messagesSent < s.count := h.fits.firstLoop (by rw [hpoint]; rfl)
      simp only [hpoint]
      cases r with
      | failed => exact ⟨_, rfl, hfail _ rfl⟩
      | timeout =>
        exact ⟨_, rfl, .moved (by simp) (Or.inl rfl)
          (Mig.idle_with.continueSending rfl (Nat.le_of_lt hlt))⟩
      | ready read write =>
        exact ⟨_, rfl, .moved (by simp) (Or.inl rfl) (Mig.idle_with.startReceiving rfl hlt)⟩
    · have heq : s.messagesSent = s.count := h.fits.secondLoop (by rw [hpoint]; rfl)
      simp only [hpoint]
      cases r with
      | failed => exact ⟨_, rfl, hfail _ rfl⟩
      | timeout =>
        exact ⟨_, rfl, .moved (by simp) (Or.inr (Or.inr ⟨hpoint, rfl, rfl⟩))
          (Mig.idle_with.continueWaiting rfl heq)⟩
      | ready read write =>
        simp only
        split
        · exact ⟨_, rfl, .moved (by simp) (Or.inl rfl) ⟨Mig.idle_with, rfl, by simp,
            ⟨by simp [MigPoint.inFirstLoop], fun _ => heq, by simp⟩, by simp⟩⟩
        · exact ⟨_, rfl, .moved (by simp) (Or.inl rfl) (Mig.idle_with.continueWaiting rfl heq)⟩
  | recv r =>
    rcases hi with hpoint | hpoint
    · have hlt : s.messagesSent < s.count := h.fits.firstLoop (by rw [hpoint]; rfl)
      simp only [hpoint]
      cases r with
      | datagram a => exact recvAnswer_turn h.toTables a fun s => some s.startSending
      | again => exact ⟨_, rfl, .moved (by simp) (Or.inl rfl) (Mig.idle_with.startSending rfl hlt)⟩
      | failed => exact ⟨_, rfl, hfail _ rfl⟩
    · have heq : s.messagesSent = s.count := h.fits.secondLoop (by rw [hpoint]; rfl)
      simp only [hpoint]
      cases r with
      | datagram a =>
        exact recvAnswer_turn h.toTables a
          fun s => some { s with attempts := recvTimeout }.continueWaiting
      | again =>
        exact ⟨_, rfl, .moved (by simp) (Or.inr (Or.inl rfl))
          (Mig.idle_with.continueWaiting rfl heq)⟩
      | failed => exact ⟨_, rfl, hfail _ rfl⟩

theorem expects_of_migStep {i : MigInput} (h : migStep s i = some s') : s.Expects i := by
  unfold migStep at h
  split at h <;> simp_all [Mig.Expects]

theorem migStep_cases (h : s.Booked messages) {i : MigInput} (hstep : migStep s i = some s') :
    MigOutcome messages s i s' := by
  obtain ⟨s₁, hstep₁, houtcome⟩ := migStep_outcome h (expects_of_migStep hstep)
  rw [hstep, Option.some.injEq] at hstep₁
  exact hstep₁ ▸ houtcome

/-- A datagram is credited to the first pair on its walk that is acceptable. -/
theorem migStep_credit (h : s.Booked messages) {a : Arrival}
    (hexpects : s.Expects (.recv (.datagram a))) {t : Timespec} (haccept : s.Accepts a t) {k : ℕ}
    (hwalk : InWalk (transactionId a.bytes) k) (hlt : k < s.count) {pair : PairTimespec}
    (hpair : s.pairs[k]? = some pair) (hsent : pair.sent.nsec < t.nsec) (hanswer : pair.answer = 0)
    (hfirst : ∀ j, InWalk (transactionId a.bytes) j → j < k → ¬Eligible s.pairs t.nsec j) :
    migStep s (.recv (.datagram a)) = some (s.credit k pair t) := by
  have heligible : Eligible s.pairs t.nsec k := ⟨pair, hpair, hsent, hanswer⟩
  obtain ⟨s', hstep, houtcome⟩ := migStep_outcome h hexpects
  rw [hstep]
  cases houtcome with
  | moved hi _ _ => exact absurd rfl (hi a)
  | failed hfault _ _ => exact absurd rfl (hfault.ne_datagram a)
  | rejected hreject => exact absurd haccept (hreject t)
  | ignored haccept' hnone =>
    obtain rfl := Option.some.inj (haccept.clock.symm.trans haccept'.clock)
    exact absurd heligible (hnone k hwalk hlt)
  | @credited _ t' haccept' k' hwalk' _ pair' hpair' hsent' hanswer' hfirst' =>
    obtain rfl := Option.some.inj (haccept.clock.symm.trans haccept'.clock)
    rcases Nat.lt_trichotomy k k' with hk | rfl | hk
    · exact absurd heligible (hfirst' k hwalk hk)
    · rw [Option.some.inj (hpair.symm.trans hpair')]
    · exact absurd ⟨pair', hpair', hsent', hanswer'⟩ (hfirst k' hwalk' hk)

/-! ### The invariant is kept -/

theorem Mig.Tables.of_same (h : s.Tables messages) (hsame : s.SameData s') :
    s'.Tables messages := by
  obtain ⟨hcount, hqueries, hsends, hreceives, hpairs, hmessagesSent, hmessagesReceived⟩ := hsame
  constructor
  all_goals simp only [hcount, hqueries, hsends, hreceives, hpairs, hmessagesSent,
    hmessagesReceived]
  exacts [h.queries, h.messages_length, h.sends_length, h.receives_length, h.pairs_length,
    h.answer_le, h.sent_le, h.sends_eq, h.received_eq, h.receives_perm, h.receives_pos,
    h.receives_zero]

/-- A query is sent. -/
theorem Mig.Tables.record (h : s.Tables messages) {pair : PairTimespec}
    (hpair : s.pairs[s.messagesSent]? = some pair) (hlt : s.messagesSent < s.count)
    (t : Timespec) : (s.record messages pair t).Tables messages := by
  obtain ⟨hk, hget⟩ := List.getElem?_eq_some_iff.mp hpair
  have hpairs : (s.record messages pair t).pairs.filterMap answeredStamp
      = s.pairs.filterMap answeredStamp :=
    Table.filterMap_set_of_eq hk (by rw [hget]; rfl)
  have hlength : s.messagesSent < s.sends.length := by rw [h.sends_length]; exact hlt
  constructor
  case queries => exact h.queries
  case messages_length => exact h.messages_length
  case sends_length => exact (List.length_set ..).trans h.sends_length
  case receives_length => exact h.receives_length
  case pairs_length => exact (List.length_set ..).trans h.pairs_length
  case answer_le =>
    intro p hp
    rcases List.mem_or_eq_of_mem_set hp with hp | rfl
    · exact h.answer_le p hp
    · exact h.answer_le pair (List.mem_of_getElem? hpair)
  case sent_le => exact hlt
  case sends_eq =>
    intro j hj
    show ∃ p, (s.pairs.set s.messagesSent { pair with sent := t })[j]? = some p ∧
      (s.sends.set s.messagesSent t)[j]? = some p.sent
    by_cases hjk : j = s.messagesSent
    · subst hjk
      exact ⟨_, List.getElem?_set_self hk, List.getElem?_set_self hlength⟩
    · rw [List.getElem?_set_ne (Ne.symm hjk), List.getElem?_set_ne (Ne.symm hjk)]
      have hj : j < s.messagesSent + 1 := hj
      exact h.sends_eq j (by omega)
  case received_eq => rw [hpairs]; exact h.received_eq
  case receives_perm => rw [hpairs]; exact h.receives_perm
  case receives_pos => exact h.receives_pos
  case receives_zero => exact h.receives_zero

/-- An answer is credited to a pair. -/
theorem Mig.Tables.credit (h : s.Tables messages) {k : ℕ} {pair : PairTimespec} {t : Timespec}
    (hpair : s.pairs[k]? = some pair) (hsent : pair.sent.nsec < t.nsec)
    (hanswer : pair.answer = 0) : (s.credit k pair t).Tables messages := by
  obtain ⟨hk, hget⟩ := List.getElem?_eq_some_iff.mp hpair
  have hreceived : s.messagesReceived < s.receives.length := by
    rw [h.receives_length]
    exact h.received_lt hpair hanswer
  have hold : answeredStamp s.pairs[k] = none := by
    rw [hget, answeredStamp, hanswer]
    rfl
  have hnew : answeredStamp { pair with answer := pair.answer + 1, received := t } = some t := by
    rw [hanswer]
    rfl
  have hpairs : ((s.credit k pair t).pairs.filterMap answeredStamp).Perm
      (t :: s.pairs.filterMap answeredStamp) := Table.perm_filterMap_set hk hold hnew
  have htake : (s.credit k pair t).receives.take (s.messagesReceived + 1)
      = s.receives.take s.messagesReceived ++ [t] := Table.take_succ_set hreceived
  constructor
  case queries => exact h.queries
  case messages_length => exact h.messages_length
  case sends_length => exact h.sends_length
  case receives_length => exact (List.length_set ..).trans h.receives_length
  case pairs_length => exact (List.length_set ..).trans h.pairs_length
  case answer_le =>
    intro p hp
    rcases List.mem_or_eq_of_mem_set hp with hp | rfl
    · exact h.answer_le p hp
    · show pair.answer + 1 ≤ 1
      omega
  case sent_le => exact h.sent_le
  case sends_eq =>
    intro j hj
    obtain ⟨p, hp, hsends⟩ := h.sends_eq j hj
    show ∃ p, (s.pairs.set k { pair with answer := pair.answer + 1, received := t })[j]? = some p ∧
      s.sends[j]? = some p.sent
    by_cases hjk : j = k
    · subst hjk
      rw [hpair, Option.some.injEq] at hp
      exact ⟨_, List.getElem?_set_self hk, hp ▸ hsends⟩
    · rw [List.getElem?_set_ne (Ne.symm hjk)]
      exact ⟨p, hp, hsends⟩
  case received_eq =>
    rw [hpairs.length_eq, List.length_cons, h.received_eq]
    rfl
  case receives_perm =>
    show ((s.credit k pair t).receives.take (s.messagesReceived + 1)).Perm _
    rw [htake]
    exact (List.perm_append_singleton t _).trans ((h.receives_perm.cons t).trans hpairs.symm)
  case receives_pos =>
    show ∀ t' ∈ (s.credit k pair t).receives.take (s.messagesReceived + 1), 0 < t'.nsec
    rw [htake]
    intro t' ht'
    rcases List.mem_append.mp ht' with ht' | ht'
    · exact h.receives_pos t' ht'
    · rw [List.mem_singleton.mp ht']
      exact Nat.zero_lt_of_lt hsent
  case receives_zero =>
    show ∀ t' ∈ (s.receives.set s.messagesReceived t).drop (s.messagesReceived + 1), _
    intro t' ht'
    rw [List.drop_set_of_lt (Nat.lt_succ_self _)] at ht'
    refine h.receives_zero t' (List.mem_of_mem_drop (i := 1) ?_)
    rwa [List.drop_drop]

theorem Mig.Expects.ne_failed {i : MigInput} (h : s.Expects i) : s.point ≠ .failed := by
  intro hpoint
  cases i <;> simp [Mig.Expects, hpoint] at h

/-- The state after a step that moves the run on. -/
theorem Mig.Continues.booked {left : ℕ} (h : s.Continues left s') (htables : s.Tables messages)
    (hsent : s.offset = queryOffset messages s.messagesSent ∧
      s.wire = messages.take s.messagesSent) : s'.Booked messages := by
  refine ⟨htables.of_same h.idle.same, h.fits, fun _ => ?_⟩
  rw [h.idle.offset, h.idle.wire, h.idle.same.messagesSent]
  exact hsent

/-- **The bookkeeping is an invariant.** -/
theorem Mig.Booked.next (h : s.Booked messages) {i : MigInput} (hstep : migStep s i = some s') :
    s'.Booked messages := by
  have hpoint := (expects_of_migStep hstep).ne_failed
  cases migStep_cases h hstep with
  | moved _ _ hcontinues => exact hcontinues.booked h.toTables (h.sent hpoint)
  | failed _ hsame hfailed =>
    exact ⟨h.toTables.of_same hsame, ⟨by simp [hfailed, MigPoint.inFirstLoop],
      by simp [hfailed, MigPoint.inSecondLoop], by simp [hfailed]⟩, fun hne => absurd hfailed hne⟩
  | sent hpair hlt hcontinues =>
    exact hcontinues.booked (h.toTables.record hpair hlt _) ⟨rfl, rfl⟩
  | rejected _ =>
    exact ⟨h.toTables.of_same ⟨rfl, rfl, rfl, rfl, rfl, rfl, rfl⟩,
      ⟨by simp [Mig.fail, MigPoint.inFirstLoop], by simp [Mig.fail, MigPoint.inSecondLoop],
        by simp [Mig.fail]⟩,
      fun hne => absurd rfl hne⟩
  | ignored _ _ => exact h
  | @credited _ t _ k _ _ pair hpair hsent hanswer _ =>
    -- the datagram came in at a call of `recv`
    have hfits : (s.credit k pair t).PointFits := by
      refine ⟨h.fits.firstLoop, h.fits.secondLoop, fun hwaiting => ?_⟩
      rcases expects_of_migStep hstep with hreceiving | hdraining
      · exact absurd (hreceiving.symm.trans hwaiting) (by simp)
      · exact absurd (hdraining.symm.trans hwaiting) (by simp)
    exact ⟨h.toTables.credit hpair hsent hanswer, hfits, h.sent⟩

/-- Nothing happens before the loops. -/
theorem Mig.continues_initial (queries : Block) (count queryLimit : ℕ)
    (sends receives : List Timespec) (pairs : List PairTimespec) :
    (Mig.allocated queries count queryLimit sends receives pairs).Continues recvTimeout
      (Mig.initial queries count queryLimit sends receives pairs) :=
  (Mig.Idle.refl _).continueSending rfl (Nat.zero_le _)

/-- What `make_queries` returns and the three arrays fit together when the run starts. -/
theorem Mig.booked_initial {queries : Block} {count : ℕ} (queryLimit : ℕ)
    {sends receives : List Timespec} {pairs : List PairTimespec}
    (hqueries : HoldsQueries queries messages)
    (hmessages : messages.length = count) (hsends : sends.length = count)
    (hreceives : receives.length = count) (hpairs : pairs.length = count) :
    (Mig.initial queries count queryLimit sends receives pairs).Booked messages := by
  have hnone : ((pairs.map fun pair => { pair with answer := 0 }).filterMap answeredStamp) = [] :=
    List.filterMap_eq_nil_iff.mpr (by simp [answeredStamp])
  refine (Mig.continues_initial ..).booked ?_ ⟨rfl, rfl⟩
  constructor
  case queries => exact hqueries
  case messages_length => exact hmessages
  case sends_length => exact hsends
  case receives_length => exact (List.length_map ..).trans hreceives
  case pairs_length => exact (List.length_map ..).trans hpairs
  case answer_le => simp [Mig.allocated]
  case sent_le => exact Nat.zero_le _
  case sends_eq => exact fun k hk => absurd hk (Nat.not_lt_zero k)
  case received_eq => simp [Mig.allocated, hnone]
  case receives_perm => simp [Mig.allocated, hnone]
  case receives_pos => simp [Mig.allocated]
  case receives_zero => simp [Mig.allocated]

/-! ### The clock -/

/-- The readings of the clock. One that is not taken need not be given. -/
def MigInput.readings : MigInput → List Timespec
  | .select _ => []
  | .recv (.datagram a) => a.clock.toList
  | .recv _ => []
  | .send now _ clock => now.toList ++ clock.toList

/-- What is recorded in `sends` and `receives` is read from the clock, in this order. -/
structure Mig.Clocked (readings : List Timespec) (s : Mig) : Prop where
  /-- The times of sending. -/
  sends : (s.sends.take s.messagesSent).Sublist readings
  /-- The times of receiving. -/
  receives : (s.receives.take s.messagesReceived).Sublist readings

theorem Mig.Clocked.of_same {readings readings' : List Timespec} (h : s.Clocked readings)
    (hsame : s.SameData s') (hreadings : readings.Sublist readings') : s'.Clocked readings' := by
  obtain ⟨hsends, hreceives⟩ := h
  rw [← hsame.sends, ← hsame.messagesSent] at hsends
  rw [← hsame.receives, ← hsame.messagesReceived] at hreceives
  exact ⟨hsends.trans hreadings, hreceives.trans hreadings⟩

theorem Mig.clocked_initial (queries : Block) (count queryLimit : ℕ)
    (sends receives : List Timespec) (pairs : List PairTimespec) :
    (Mig.initial queries count queryLimit sends receives pairs).Clocked [] := by
  have hallocated : (Mig.allocated queries count queryLimit sends receives pairs).Clocked [] :=
    ⟨List.Sublist.refl _, List.Sublist.refl _⟩
  exact hallocated.of_same (Mig.continues_initial ..).idle.same (List.Sublist.refl _)

theorem Mig.Clocked.next {readings : List Timespec} (hbooked : s.Booked messages)
    (h : s.Clocked readings) {i : MigInput} (hstep : migStep s i = some s') :
    s'.Clocked (readings ++ i.readings) := by
  have hle := List.sublist_append_left readings i.readings
  cases migStep_cases hbooked hstep with
  | moved _ _ hcontinues => exact h.of_same hcontinues.idle.same hle
  | failed _ hsame _ => exact h.of_same hsame hle
  | rejected _ => exact h.of_same ⟨rfl, rfl, rfl, rfl, rfl, rfl, rfl⟩ hle
  | ignored _ _ => exact h.of_same (.refl s) hle
  | @sent now _ t pair hpair hlt _ hcontinues =>
    have hlength : s.messagesSent < s.sends.length := by rw [hbooked.sends_length]; exact hlt
    have hrecord : (s.record messages pair t).Clocked (readings ++ (now.toList ++ [t])) := by
      constructor
      · show ((s.sends.set s.messagesSent t).take (s.messagesSent + 1)).Sublist _
        rw [Table.take_succ_set hlength]
        exact h.sends.append (List.sublist_append_right _ _)
      · exact h.receives.trans hle
    exact hrecord.of_same hcontinues.idle.same (List.Sublist.refl _)
  | @credited a t haccept k _ _ pair hpair hsent hanswer _ =>
    have hlength : s.messagesReceived < s.receives.length := by
      rw [hbooked.receives_length]
      exact hbooked.received_lt hpair hanswer
    have hreadings : (MigInput.recv (.datagram a)).readings = [t] := by
      rw [MigInput.readings, haccept.clock]
      rfl
    rw [hreadings] at hle ⊢
    constructor
    · exact h.sends.trans hle
    · show ((s.receives.set s.messagesReceived t).take (s.messagesReceived + 1)).Sublist _
      rw [Table.take_succ_set hlength]
      exact h.receives.append (List.Sublist.refl [t])

/-! ### Whole runs -/

/-- What holds of a run from its start. -/
theorem mig_booked {env : Mig → MigInput → Prop} {is : List MigInput} {start : Mig}
    (hstart : start.Booked messages) (hrun : Run migStep env start is s) : s.Booked messages :=
  hrun.invariant (fun _ _ _ h _ hstep => h.next hstep) hstart

theorem mig_clocked {env : Mig → MigInput → Prop} {is : List MigInput} {start : Mig}
    (hstart : start.Booked messages) (hclocked : start.Clocked [])
    (hrun : Run migStep env start is s) : s.Clocked (is.flatMap MigInput.readings) := by
  refine hrun.invariant_history (P := fun is s => s.Clocked (is.flatMap MigInput.readings))
    hclocked ?_
  intro is s i s' hrun h _ hstep
  rw [List.flatMap_append, List.flatMap_singleton]
  exact h.next (mig_booked hstart hrun) hstep

/-- `main` enters its loops with its books in order. -/
theorem mig_start {malloc : Malloc} {names queries : Block} {count : ℕ} (queryLimit : ℕ)
    {client : Option ClientId} {sends receives : List Timespec} {pairs : List PairTimespec}
    (hqueries : makeQueries malloc names count client = some (some queries))
    (hsends : sends.length = count) (hreceives : receives.length = count)
    (hpairs : pairs.length = count) :
    ∃ ws, (queryMessages client 0 ws).length = count ∧
      (Mig.initial queries count queryLimit sends receives pairs).Booked
        (queryMessages client 0 ws) := by
  obtain ⟨ws, hws, hholds⟩ := makeQueries_spec hqueries
  have hmessages : (queryMessages client 0 ws).length = count := by
    rw [length_queryMessages, length_of_nameWalk hws]
  exact ⟨ws, hmessages, Mig.booked_initial queryLimit hholds hmessages hsends hreceives hpairs⟩

/-- Throughout a run of `count` queries the books are kept, and about so many queries. -/
theorem mig_run {malloc : Malloc} {names queries : Block} {count queryLimit : ℕ}
    {client : Option ClientId} {sends receives : List Timespec} {pairs : List PairTimespec}
    (hqueries : makeQueries malloc names count client = some (some queries))
    (hsends : sends.length = count) (hreceives : receives.length = count)
    (hpairs : pairs.length = count) {is : List MigInput}
    (hrun : Run migStep (fun _ _ => True)
      (Mig.initial queries count queryLimit sends receives pairs) is s) :
    ∃ messages, s.Booked messages ∧ s.Clocked (is.flatMap MigInput.readings) ∧
      s.count = count := by
  obtain ⟨ws, hmessages, hstart⟩ := mig_start queryLimit hqueries hsends hreceives hpairs
  have h := mig_booked hstart hrun
  exact ⟨_, h, mig_clocked hstart (Mig.clocked_initial ..) hrun,
    h.messages_length.symm.trans hmessages⟩

/-- The answered pairs, as the report tells them from the others. -/
theorem filterMap_answeredStamp (pairs : List PairTimespec) :
    pairs.filterMap answeredStamp = (pairs.filter (·.answer = 1)).map (·.received) := by
  induction pairs with
  | nil => rfl
  | cons pair pairs ih =>
    rw [List.filterMap_cons, List.filter_cons, answeredStamp, ih]
    split <;> simp_all

/-- The books of a run of `count` queries are in order. -/
structure Mig.Accounted (count : ℕ) (s : Mig) : Prop where
  /-- No query is answered twice. -/
  answer_le : ∀ pair ∈ s.pairs, pair.answer ≤ 1
  /-- The answered queries are counted. -/
  received_eq : s.messagesReceived = s.pairs.countP (·.answer = 1)
  /-- No more answers are counted than there are queries. -/
  received_le : s.messagesReceived ≤ count
  /-- `receives` is in the order of time. -/
  receives_sorted :
    (s.receives.take s.messagesReceived).Pairwise fun t t' => t.nsec ≤ t'.nsec
  /-- It holds no zero so far. -/
  receives_pos : ∀ t ∈ s.receives.take s.messagesReceived, 0 < t.nsec
  /-- It lists the times of the answered pairs. -/
  receives_perm : (s.receives.take s.messagesReceived).Perm
    ((s.pairs.filter (·.answer = 1)).map (·.received))
  /-- It is zero behind them. -/
  receives_zero : ∀ t ∈ s.receives.drop s.messagesReceived, t = { tvSec := 0, tvNsec := 0 }
  /-- `sends` is in the order of time. -/
  sends_sorted : (s.sends.take s.messagesSent).Pairwise fun t t' => t.nsec ≤ t'.nsec
  /-- It agrees with the pairs entry by entry. -/
  sends_eq : s.sends.take s.messagesSent = (s.pairs.take s.messagesSent).map (·.sent)
  /-- There is room in `sends` for every query. -/
  sends_length : s.sends.length = count
  /-- There is room in `receives` for every answer. -/
  receives_length : s.receives.length = count
  /-- There is a pair for every query. -/
  pairs_length : s.pairs.length = count
  /-- No access of the next step is out of range, whatever the system answers. -/
  defined : ∀ i, s.Expects i → (migStep s i).isSome

/-- **Run bookkeeping.** At every moment of a run with a clock that does not go back, the books are
in order. -/
theorem mig_bookkeeping {malloc : Malloc} {names queries : Block} {count queryLimit : ℕ}
    {client : Option ClientId} {sends receives : List Timespec} {pairs : List PairTimespec}
    (hqueries : makeQueries malloc names count client = some (some queries))
    (hsends : sends.length = count) (hreceives : receives.length = count)
    (hpairs : pairs.length = count) {is : List MigInput}
    (hrun : Run migStep (fun _ _ => True)
      (Mig.initial queries count queryLimit sends receives pairs) is s)
    (hclock : (is.flatMap MigInput.readings).Pairwise fun t t' => t.nsec ≤ t'.nsec) :
    s.Accounted count := by
  obtain ⟨messages, h, hc, hcount⟩ := mig_run hqueries hsends hreceives hpairs hrun
  have hfilter := filterMap_answeredStamp s.pairs
  constructor
  case answer_le => exact h.answer_le
  case received_eq => rw [← h.received_eq, hfilter, List.length_map, List.countP_eq_length_filter]
  case received_le => exact hcount ▸ h.received_le
  case receives_sorted => exact hclock.sublist hc.receives
  case receives_pos => exact h.receives_pos
  case receives_perm => exact hfilter ▸ h.receives_perm
  case receives_zero => exact h.receives_zero
  case sends_sorted => exact hclock.sublist hc.sends
  case sends_eq =>
    refine List.ext_getElem? fun k => ?_
    rw [List.getElem?_take, List.getElem?_map, List.getElem?_take]
    split
    · rename_i hk
      obtain ⟨pair, hpair, hsent⟩ := h.sends_eq k hk
      rw [hpair, hsent]
      rfl
    · rfl
  case sends_length => exact h.sends_length.trans hcount
  case receives_length => exact h.receives_length.trans hcount
  case pairs_length => exact h.pairs_length.trans hcount
  case defined =>
    intro i hi
    obtain ⟨s', hstep, -⟩ := migStep_outcome h hi
    rw [hstep]
    rfl

/-- A table with the names `a` and `b.c`. -/
def twoNames : List UInt8 := [1, 97, 0, 1, 98, 1, 99, 0, 0]

/-- A buffer with three queries, for `a`, `b.c` and again `a`. -/
def threeQueries : Block :=
  ⟨[19, 0, 0, 0, 0, 0, 0, 0, 0, 0, 1, 0, 0, 1, 0, 0, 0, 0, 0, 0, 1, 97, 0, 0, 1, 0, 1,
      21, 0, 0, 0, 0, 0, 0, 0, 0, 1, 1, 0, 0, 1, 0, 0, 0, 0, 0, 0, 1, 98, 1, 99, 0, 0, 1, 0, 1,
      19, 0, 0, 0, 0, 0, 0, 0, 0, 2, 1, 0, 0, 1, 0, 0, 0, 0, 0, 0, 1, 97, 0, 0, 1, 0, 1],
    [(81, 2), (79, 2), (76, 3), (74, 2), (72, 2), (70, 2), (68, 2), (66, 2), (64, 2), (56, 8),
      (54, 2), (52, 2), (47, 5), (45, 2), (43, 2), (41, 2), (39, 2), (37, 2), (35, 2), (27, 8),
      (25, 2), (23, 2), (20, 3), (18, 2), (16, 2), (14, 2), (12, 2), (10, 2), (8, 2), (0, 8)]⟩

theorem makeQueries_threeQueries :
    makeQueries .zeroed ⟨twoNames, []⟩ 3 none = some (some threeQueries) := by decide +kernel

/-- The start of a run with three queries, in arrays with whatever was in them. -/
def threeMig : Mig :=
  .initial threeQueries 3 0 (List.replicate 3 ⟨0, 0⟩) (List.replicate 3 ⟨0, 0⟩)
    (List.replicate 3 ⟨⟨7, 0⟩, 5, ⟨0, 0⟩⟩)

/-- The header of a reply with this id, which refuses the query. -/
def refusedReply (id : UInt8) : List UInt8 := [0, id, 0x81, 5, 0, 0, 0, 0, 0, 0, 0, 0]

/-- Two queries are sent, the second is answered, the third is sent, and then a reply to the first
comes. -/
def answeredInputs : List MigInput :=
  [.select (.ready false true), .send none (some 19) (some ⟨1, 0⟩),
    .select (.ready false true), .send none (some 21) (some ⟨2, 0⟩),
    .select (.ready true true), .recv (.datagram ⟨refusedReply 1, 1, some ⟨3, 0⟩⟩), .recv .again,
    .send none (some 19) (some ⟨4, 0⟩),
    .select (.ready true false), .recv (.datagram ⟨refusedReply 0, 0, some ⟨5, 0⟩⟩)]

/-- The three queries. -/
def askedMessages : List (List UInt8) :=
  [[0, 0, 1, 0, 0, 1, 0, 0, 0, 0, 0, 0, 1, 97, 0, 0, 1, 0, 1],
    [0, 1, 1, 0, 0, 1, 0, 0, 0, 0, 0, 0, 1, 98, 1, 99, 0, 0, 1, 0, 1],
    [0, 2, 1, 0, 0, 1, 0, 0, 0, 0, 0, 0, 1, 97, 0, 0, 1, 0, 1]]

/-- Where they lead to: the third query has no answer. -/
def answeredMig : Mig :=
  { threeMig with
    sends := [⟨1, 0⟩, ⟨2, 0⟩, ⟨4, 0⟩], receives := [⟨3, 0⟩, ⟨5, 0⟩, ⟨0, 0⟩]
    pairs := [⟨⟨1, 0⟩, 1, ⟨5, 0⟩⟩, ⟨⟨2, 0⟩, 1, ⟨3, 0⟩⟩, ⟨⟨4, 0⟩, 0, ⟨0, 0⟩⟩], readSocket := true
    offset := 83, messagesSent := 3, messagesReceived := 2, point := .draining
    wire := askedMessages }

theorem run_answeredMig : Run migStep (fun _ _ => True) threeMig answeredInputs answeredMig :=
  .of_foldlM (by decide +kernel)

/-- Nothing more comes. -/
def finalInputs : List MigInput :=
  answeredInputs ++ .recv .again :: List.replicate recvTimeout (.select .timeout)

/-- So mig ends with the third query unanswered. -/
def finalMig : Mig := { answeredMig with attempts := 0, point := .finished }

theorem run_finalMig : Run migStep (fun _ _ => True) threeMig finalInputs finalMig :=
  run_answeredMig.append (.of_foldlM (by decide +kernel))

theorem mig_bookkeeping_answeredMig : answeredMig.Accounted 3 :=
  mig_bookkeeping makeQueries_threeQueries rfl rfl rfl run_answeredMig (by decide)

end DnsTools
