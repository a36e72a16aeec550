import DnsTools.Mig.Waiting

/-!
# What mig does when it is woken up

Both loops of `main` hand the same sets to `pselect` and `select` again and again, which take from
them what is not ready. A set that the socket is missing from is filled again in the same turn.

So no wakeup is lost. Whenever the socket can be read, it is read until it is empty, and whenever it
can be written, there is one try to send a query, before the loop waits again. Without a limit each
try sends one, so the first loop is over after as many wakeups as there are queries.

## Counting what is due

A wakeup is dealt with over several system calls, between which the run may be looked at. So the
count of the wakeups and the count of what was done about them differ by what is due at the moment:
`Mig.toRead` and `Mig.toSend` are one or zero, and the sums in `Mig.Awake` are exact at every
moment. When the loop waits again nothing is due, and the counts agree.

In the second loop `select` is asked about reading only, so it reports nothing else
(`Mig.AskedFor`). A run that ends in an error is left out: the wakeup at hand is not dealt with.

## Main results

* `Mig.Due.next` — what is due after a step
* `wakeups_answered` — what mig does with the wakeups of a whole run
-/

namespace DnsTools

open Memory

variable {messages : List (List UInt8)} {s s' : Mig} {i : MigInput} {is : List MigInput}
  {r w : ℕ}

/-! ### Wakeups -/

/-- The socket can be read. -/
def MigInput.isReadable : MigInput → Bool
  | .select (.ready read _) => read
  | _ => false

/-- The socket can be written. -/
def MigInput.isWritable : MigInput → Bool
  | .select (.ready _ write) => write
  | _ => false

/-- A query is sent, if it is time for one. -/
def MigInput.isSend : MigInput → Bool
  | .send .. => true
  | _ => false

/-- In the second loop `select` is not asked about writing, so it does not report it. -/
def Mig.AskedFor (s : Mig) (i : MigInput) : Prop := i.isWritable = true → s.point = .selecting

instance (s : Mig) (i : MigInput) : Decidable (s.AskedFor i) :=
  inferInstanceAs (Decidable (i.isWritable = true → s.point = .selecting))

/-- The socket is being read. -/
def Mig.toRead (s : Mig) : ℕ := if s.point = .receiving ∨ s.point = .draining then 1 else 0

/-- There will be a try to send a query. -/
def Mig.toSend (s : Mig) : ℕ :=
  if s.point = .sending ∨ s.point = .receiving ∧ s.writeSocket = true then 1 else 0

/-! ### What is due -/

/-- The sets are filled, and this is due before the loop waits again. -/
structure Mig.Due (r w : ℕ) (s : Mig) : Prop where
  /-- The socket is in `readfds`. -/
  readSocket : s.readSocket = true
  /-- It is in `writefds` as long as there are queries to send. -/
  writeSocket : s.point = .selecting ∨ s.point = .sending → s.writeSocket = true
  /-- Whether the socket is being read. -/
  toRead : s.toRead = r
  /-- Whether a query is to be sent. -/
  toSend : s.toSend = w

theorem Mig.Due.continueWaiting (hread : s.readSocket = true) : s.continueWaiting.Due 0 0 := by
  rw [Mig.continueWaiting]
  split <;> exact ⟨hread, by simp, by simp [Mig.toRead], by simp [Mig.toSend]⟩

theorem Mig.Due.continueSending (hread : s.readSocket = true) (hwrite : s.writeSocket = true) :
    s.continueSending.Due 0 0 := by
  rw [Mig.continueSending]
  split
  · exact ⟨hread, fun _ => hwrite, by simp [Mig.toRead], by simp [Mig.toSend]⟩
  · exact .continueWaiting hread

theorem Mig.Due.startSending (hread : s.readSocket = true) :
    s.startSending.Due 0 (if s.writeSocket then 1 else 0) := by
  rw [Mig.startSending]
  by_cases hwrite : s.writeSocket = true
  · rw [if_pos hwrite, if_pos hwrite]
    exact ⟨hread, fun _ => hwrite, by simp [Mig.toRead], by simp [Mig.toSend]⟩
  · rw [if_neg hwrite, if_neg hwrite]
    exact .continueSending hread rfl

theorem Mig.Due.startReceiving (s : Mig) :
    s.startReceiving.Due (if s.readSocket then 1 else 0) (if s.writeSocket then 1 else 0) := by
  rw [Mig.startReceiving]
  by_cases hread : s.readSocket = true
  · rw [if_pos hread, if_pos hread]
    exact ⟨hread, by simp, by simp [Mig.toRead], by simp [Mig.toSend]⟩
  · rw [if_neg hread, if_neg hread]
    exact .startSending (s := { s with readSocket := true }) rfl

/-- A try to send a query, after which the loop goes on. -/
theorem Mig.Due.send {now : Option Timespec} {n : Option ℕ} {clock : Option Timespec}
    (h : s.send now n clock = some s') (hpoint : s'.point ≠ .failed) (hread : s.readSocket = true)
    (hwrite : s.writeSocket = true) : s'.Due 0 0 ∧
      (s'.messagesSent = s.messagesSent + 1 ∨
        0 < s.writeInterval ∧ s'.messagesSent = s.messagesSent) := by
  obtain ⟨t, hwaits, rfl, hsent⟩ := Mig.send_continues h hpoint
  have hsame := Mig.SamePace.continueSending (s := t) (t := t) ⟨rfl, rfl, rfl, rfl⟩
  refine ⟨.continueSending (hwaits.readSocket.trans hread) (hwaits.writeSocket.trans hwrite), ?_⟩
  rw [hsame.messagesSent]
  rcases hsent with hsent | ⟨hearly, hsent⟩
  · exact .inl hsent
  · refine .inr ⟨?_, hsent⟩
    rw [Mig.doSendQuery] at hearly
    split at hearly
    · cases hearly
    · omega

/-- What is due after an input. -/
structure Mig.Answers (s : Mig) (i : MigInput) (s' : Mig) : Prop where
  /-- The sets are filled. -/
  due : s'.Due s'.toRead s'.toSend
  /-- The socket is being read, or has been read until it was empty. -/
  read : s'.toRead + (if i.isAgain then 1 else 0) = s.toRead + (if i.isReadable then 1 else 0)
  /-- There will be a try to send, or there has been one. -/
  write : s'.toSend + (if i.isSend then 1 else 0) = s.toSend + (if i.isWritable then 1 else 0)

theorem Mig.Due.answers (h : s'.Due r w)
    (hread : r + (if i.isAgain then 1 else 0) = s.toRead + (if i.isReadable then 1 else 0))
    (hwrite : w + (if i.isSend then 1 else 0) = s.toSend + (if i.isWritable then 1 else 0)) :
    s.Answers i s' :=
  ⟨⟨h.readSocket, h.writeSocket, rfl, rfl⟩, h.toRead ▸ hread, h.toSend ▸ hwrite⟩

/-- When the loop waits nothing is due. -/
theorem Mig.nothing_due (hpoint : s.point = .selecting ∨ s.point = .waiting) :
    s.toRead = 0 ∧ s.toSend = 0 := by
  rcases hpoint with hselecting | hwaiting
  · simp [Mig.toRead, Mig.toSend, hselecting]
  · simp [Mig.toRead, Mig.toSend, hwaiting]

/-- What is due then is what the socket is ready for. -/
theorem Mig.Due.answers_select {r : Wakeup}
    (h : s'.Due (if (MigInput.select r).isReadable then 1 else 0)
      (if (MigInput.select r).isWritable then 1 else 0))
    (hpoint : s.point = .selecting ∨ s.point = .waiting) : s.Answers (.select r) s' := by
  obtain ⟨hread, hsend⟩ := Mig.nothing_due hpoint
  refine h.answers ?_ ?_
  · rw [hread]
    exact Nat.add_comm _ _
  · rw [hsend]
    exact Nat.add_comm _ _

/-- **What a step leaves due.** -/
theorem Mig.Due.next (hbooked : s.Booked messages) (h : s.Due s.toRead s.toSend)
    (hasked : s.AskedFor i) (hstep : migStep s i = some s') (hpoint : s'.point ≠ .failed) :
    s.Answers i s' := by
  have hexpects := expects_of_migStep hstep
  cases i with
  | send now n clock =>
    have hsending : s.point = .sending := hexpects
    simp only [migStep, hsending] at hstep
    have hdue := (Mig.Due.send hstep hpoint h.readSocket (h.writeSocket (.inr hsending))).1
    exact hdue.answers (by simp [Mig.toRead, hsending, MigInput.isAgain, MigInput.isReadable])
      (by simp [Mig.toSend, hsending, MigInput.isSend, MigInput.isWritable])
  | select r =>
    rcases hexpects with hselecting | hwaiting
    · refine Mig.Due.answers_select ?_ (.inl hselecting)
      simp only [migStep, hselecting] at hstep
      cases r with
      | failed => exact absurd (Option.some.inj hstep ▸ rfl) hpoint
      | timeout =>
        obtain rfl := Option.some.inj hstep
        exact .continueSending rfl rfl
      | ready read write =>
        obtain rfl := Option.some.inj hstep
        rw [h.readSocket, h.writeSocket (.inl hselecting), Bool.true_and, Bool.true_and]
        exact .startReceiving
          { s with readSocket := read, writeSocket := write, point := .selecting }
    · refine Mig.Due.answers_select ?_ (.inr hwaiting)
      simp only [migStep, hwaiting] at hstep
      cases r with
      | failed => exact absurd (Option.some.inj hstep ▸ rfl) hpoint
      | timeout =>
        obtain rfl := Option.some.inj hstep
        exact .continueWaiting rfl
      | ready read write =>
        obtain rfl : write = false := by
          cases write with
          | false => rfl
          | true => exact absurd (hwaiting.symm.trans (hasked rfl)) (by simp)
        simp only [h.readSocket, Bool.true_and] at hstep
        cases read with
        | true =>
          obtain rfl := Option.some.inj hstep
          exact ⟨rfl, by simp, by simp [Mig.toRead, MigInput.isReadable],
            by simp [Mig.toSend, MigInput.isWritable]⟩
        | false =>
          obtain rfl := Option.some.inj hstep
          exact .continueWaiting rfl
  | recv r =>
    cases r with
    | datagram a =>
      cases migStep_cases hbooked hstep with
      | moved hi => exact absurd rfl (hi a)
      | failed _ _ hfailed => exact absurd hfailed hpoint
      | rejected => exact absurd rfl hpoint
      | ignored => exact h.answers rfl rfl
      | credited => exact Mig.Due.answers ⟨h.readSocket, h.writeSocket, rfl, rfl⟩ rfl rfl
    | failed =>
      rcases hexpects with hreceiving | hdraining
      · simp only [migStep, hreceiving] at hstep
        exact absurd (Option.some.inj hstep ▸ rfl) hpoint
      · simp only [migStep, hdraining] at hstep
        exact absurd (Option.some.inj hstep ▸ rfl) hpoint
    | again =>
      rcases hexpects with hreceiving | hdraining
      · simp only [migStep, hreceiving] at hstep
        obtain rfl := Option.some.inj hstep
        refine (Mig.Due.startSending h.readSocket).answers ?_ ?_
        · simp [Mig.toRead, hreceiving, MigInput.isAgain, MigInput.isReadable]
        · simp [Mig.toSend, hreceiving, MigInput.isSend, MigInput.isWritable]
      · simp only [migStep, hdraining] at hstep
        obtain rfl := Option.some.inj hstep
        refine Mig.Due.answers (.continueWaiting h.readSocket) ?_ ?_
        · simp [Mig.toRead, hdraining, MigInput.isAgain, MigInput.isReadable]
        · simp [Mig.toSend, hdraining, MigInput.isSend, MigInput.isWritable]

/-- Queries are sent by the tries to send one, and without a limit by each of them. -/
theorem Mig.Due.sent (h : s.Due s.toRead s.toSend) (hstep : migStep s i = some s')
    (hpoint : s'.point ≠ .failed) : s'.writeInterval = s.writeInterval ∧
      s'.messagesSent ≤ s.messagesSent + (if i.isSend then 1 else 0) ∧
      (s.writeInterval = 0 → s'.messagesSent = s.messagesSent + (if i.isSend then 1 else 0)) := by
  have hexpects := expects_of_migStep hstep
  have hpace := migStep_pace hstep
  cases i with
  | send now n clock =>
    have hsending : s.point = .sending := hexpects
    have hinterval : s'.writeInterval = s.writeInterval := by
      cases hpace with
      | kept hsame => exact hsame.writeInterval
      | sent _ _ _ _ _ hinterval => exact hinterval
    simp only [migStep, hsending] at hstep
    obtain ⟨-, hsent | ⟨hlimit, hsent⟩⟩ :=
      Mig.Due.send hstep hpoint h.readSocket (h.writeSocket (.inr hsending))
    · exact ⟨hinterval, hsent.le, fun _ => hsent⟩
    · exact ⟨hinterval, hsent.le.trans (Nat.le_succ _), fun hnone => by omega⟩
  | select _ | recv _ =>
    cases hpace with
    | kept hsame => exact ⟨hsame.writeInterval, hsame.messagesSent.le, fun _ => hsame.messagesSent⟩

/-! ### Whole runs -/

/-- What has been done with the wakeups. -/
structure Mig.Awake (interval : ℕ) (is : List MigInput) (s : Mig) : Prop where
  /-- The interval does not change. -/
  writeInterval : s.writeInterval = interval
  /-- The sets are filled. -/
  due : s.Due s.toRead s.toSend
  /-- After each wakeup for reading the socket has been read until it was empty, or it is being
  read. -/
  read : is.countP MigInput.isAgain + s.toRead = is.countP MigInput.isReadable
  /-- After each wakeup for writing there was one try to send, or there will be one. -/
  write : is.countP MigInput.isSend + s.toSend = is.countP MigInput.isWritable
  /-- No query is sent without. -/
  sent_le : s.messagesSent ≤ is.countP MigInput.isSend
  /-- Without a limit each try sends one. -/
  sent : interval = 0 → s.messagesSent = is.countP MigInput.isSend

theorem Mig.Awake.next {interval : ℕ} (hbooked : s.Booked messages) (h : s.Awake interval is)
    (hasked : s.AskedFor i) (hstep : migStep s i = some s') (hpoint : s'.point ≠ .failed) :
    s'.Awake interval (is ++ [i]) := by
  obtain ⟨hdue, hread, hwrite⟩ := h.due.next hbooked hasked hstep hpoint
  obtain ⟨hinterval, hle, hsent⟩ := h.due.sent hstep hpoint
  have hreadBefore := h.read
  have hwriteBefore := h.write
  have hleBefore := h.sent_le
  constructor
  case writeInterval => exact hinterval.trans h.writeInterval
  case due => exact hdue
  case read =>
    rw [List.countP_append, List.countP_append, List.countP_singleton, List.countP_singleton]
    omega
  case write =>
    rw [List.countP_append, List.countP_append, List.countP_singleton, List.countP_singleton]
    omega
  case sent_le =>
    rw [List.countP_append, List.countP_singleton]
    omega
  case sent =>
    intro hnone
    rw [hsent (h.writeInterval.trans hnone), h.sent hnone, List.countP_append,
      List.countP_singleton]

theorem Mig.awake_initial (queries : Block) (count queryLimit : ℕ)
    (sends receives : List Timespec) (pairs : List PairTimespec) :
    (Mig.initial queries count queryLimit sends receives pairs).Awake
      (DnsTools.writeInterval queryLimit) [] := by
  have hdue : (Mig.initial queries count queryLimit sends receives pairs).Due 0 0 :=
    .continueSending rfl rfl
  have hsame : (Mig.allocated queries count queryLimit sends receives pairs).SamePace
      (Mig.initial queries count queryLimit sends receives pairs) :=
    Mig.SamePace.continueSending ⟨rfl, rfl, rfl, rfl⟩
  exact ⟨hsame.writeInterval, ⟨hdue.readSocket, hdue.writeSocket, rfl, rfl⟩,
    by rw [hdue.toRead]; rfl, by rw [hdue.toSend]; rfl, hsame.messagesSent.le,
    fun _ => hsame.messagesSent⟩

/-- What mig has done with the wakeups, of `count` queries. -/
structure Mig.AnswersWakeups (count queryLimit : ℕ) (is : List MigInput) (s : Mig) : Prop where
  /-- `pselect` is asked about reading and writing. -/
  selecting : s.point = .selecting → s.readSocket = true ∧ s.writeSocket = true
  /-- `select` is asked about reading. -/
  waiting : s.point = .waiting → s.readSocket = true
  /-- When one of them is called, the socket has been read until it was empty once for each wakeup
  for reading, and there has been one try to send a query for each wakeup for writing. -/
  answered : s.point = .selecting ∨ s.point = .waiting →
    is.countP MigInput.isAgain = is.countP MigInput.isReadable ∧
      is.countP MigInput.isSend = is.countP MigInput.isWritable
  /-- In between one of each may be missing. -/
  between : is.countP MigInput.isAgain ≤ is.countP MigInput.isReadable ∧
    is.countP MigInput.isReadable ≤ is.countP MigInput.isAgain + 1 ∧
    is.countP MigInput.isSend ≤ is.countP MigInput.isWritable ∧
    is.countP MigInput.isWritable ≤ is.countP MigInput.isSend + 1
  /-- No query is sent without a wakeup for writing, and without a limit the first loop is over
  after one for each query. -/
  sent : s.messagesSent ≤ is.countP MigInput.isWritable ∧
    (DnsTools.writeInterval queryLimit = 0 → s.point.inSecondLoop = true →
      is.countP MigInput.isWritable = count)

/-- **No wakeup is lost.** In every run without an error, whatever the socket is ready for and
whenever: each time the loop waits it waits for all it has to do, and has done all that it was woken
up for. -/
theorem wakeups_answered {malloc : Malloc} {names queries : Block} {count queryLimit : ℕ}
    {client : Option ClientId} {sends receives : List Timespec} {pairs : List PairTimespec}
    (hqueries : makeQueries malloc names count client = some (some queries))
    (hsends : sends.length = count) (hreceives : receives.length = count)
    (hpairs : pairs.length = count)
    (hrun : Run migStep Mig.AskedFor
      (Mig.initial queries count queryLimit sends receives pairs) is s)
    (hpoint : s.point ≠ .failed) : s.AnswersWakeups count queryLimit is := by
  obtain ⟨ws, hmessages, hstart⟩ := mig_start queryLimit hqueries hsends hreceives hpairs
  have hbooked := mig_booked hstart hrun
  have hcount : s.count = count := hbooked.messages_length.symm.trans hmessages
  have h : s.Awake (writeInterval queryLimit) is := by
    refine hrun.invariant_history (P := fun is s => s.point ≠ .failed →
      s.Awake (writeInterval queryLimit) is) (fun _ => Mig.awake_initial ..) ?_ hpoint
    intro is s i s' hbefore ih hasked hstep hpoint
    exact (ih (expects_of_migStep hstep).ne_failed).next (mig_booked hstart hbefore) hasked hstep
      hpoint
  have hread := h.read
  have hwrite := h.write
  have hreadLe : s.toRead ≤ 1 := by
    rw [Mig.toRead]
    split <;> omega
  have hsendLe : s.toSend ≤ 1 := by
    rw [Mig.toSend]
    split <;> omega
  constructor
  case selecting => exact fun hselecting => ⟨h.due.readSocket, h.due.writeSocket (.inl hselecting)⟩
  case waiting => exact fun _ => h.due.readSocket
  case answered =>
    intro hcalled
    have hnone := Mig.nothing_due hcalled
    omega
  case between => omega
  case sent =>
    have hle := h.sent_le
    refine ⟨by omega, fun hnone hsecond => ?_⟩
    have hnothing : s.toSend = 0 := by
      cases hpoint' : s.point <;> simp_all [Mig.toSend, MigPoint.inSecondLoop]
    have hall := hbooked.fits.secondLoop hsecond
    have hsent := h.sent hnone
    omega

/-- Three wakeups for the queries, and one for an answer. -/
theorem wakeups_answered_waitingMig : waitingMig.AnswersWakeups 3 0 waitingInputs :=
  wakeups_answered makeQueries_threeQueries rfl rfl rfl
    (.of_foldlM_guarded (by decide +kernel) :
      Run migStep Mig.AskedFor threeMig waitingInputs waitingMig)
    (by decide)

end DnsTools
