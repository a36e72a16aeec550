import DnsTools.Lib.Potential
import DnsTools.Mig.Pacing
import Mathlib.Algebra.BigOperators.Ring.List

/-!
# Waiting for the last answers

The second loop of `main` waits a second at a time. It counts the waits in vain down from
`RECV_TIMEOUT`, and starts again whenever the socket has been read until it is empty.

## Which waits count

`attempts` goes down by one when `select` times out in the second loop, and back to `RECV_TIMEOUT`
when `recv_answer` has read the socket empty, whether or not a datagram was among what it read. When
the first loop is over all waits are left, since nothing there touches the counter.

`idleWaits` counts the same from the inputs of the run, with no look at the state: the waits in vain
since the socket was last read empty, or since the last query was sent. In the first loop a wait can
be in vain as well, but there it costs nothing, and the query that ends the loop sets the count to
zero. The invariant `Mig.Patient` is that the waits left and those in vain are `RECV_TIMEOUT`
together as soon as the first loop is over.

## How long it can take

Each time the socket is read empty, at most `RECV_TIMEOUT` waits follow. So the waits in vain are
bounded by `RECV_TIMEOUT` for each of these times, and once for the beginning; the waits left are a
potential for this, in the sense of `Potential`. Without answers mig is done after `RECV_TIMEOUT`
waits, but there is no bound for the whole as long as datagrams keep coming in: a peer that sends
one every second keeps it waiting.

## What is assumed

Nothing of the datagrams, the clock or the results of the calls; a call that fails ends the run.

## Main results

* `migStep_waits` — what a step does to the number of waits left
* `Mig.Patient.next` — the waits left and those in vain are `RECV_TIMEOUT` together
* `mig_gives_up` — the loop ends when every query is answered, or when `RECV_TIMEOUT` waits in a row
  have been in vain, and not before
-/

namespace DnsTools

open Memory

variable {messages : List (List UInt8)} {s s' : Mig} {i : MigInput} {is is' : List MigInput}
  {left : ℕ}

/-! ### The waits left -/

/-- So many waits are left, and the run only waits if there are any. -/
structure Mig.HasWaits (left : ℕ) (s : Mig) : Prop where
  /-- So many are left. -/
  attempts : s.attempts = left
  /-- One is left for the next wait. -/
  waiting : s.point = .waiting → 0 < left

theorem Mig.HasWaits.continueWaiting (h : s.attempts = left) : s.continueWaiting.HasWaits left := by
  rw [Mig.continueWaiting]
  split
  · rename_i hmissing
    exact ⟨h, fun _ => h ▸ hmissing.2⟩
  · exact ⟨h, fun hwaiting => by cases hwaiting⟩

theorem Mig.HasWaits.continueSending (h : s.attempts = left) : s.continueSending.HasWaits left := by
  rw [Mig.continueSending]
  split
  · exact ⟨h, fun hwaiting => by cases hwaiting⟩
  · exact .continueWaiting h

theorem Mig.HasWaits.startSending (h : s.attempts = left) : s.startSending.HasWaits left := by
  rw [Mig.startSending]
  split
  · exact ⟨h, fun hwaiting => by cases hwaiting⟩
  · exact .continueSending h

theorem Mig.HasWaits.startReceiving (h : s.attempts = left) : s.startReceiving.HasWaits left := by
  rw [Mig.startReceiving]
  split
  · exact ⟨h, fun hwaiting => by cases hwaiting⟩
  · exact .startSending h

/-- What the loops wait for, and how often, is the same. -/
structure Mig.SameWaits (s s' : Mig) : Prop where
  /-- `readfds`. -/
  readSocket : s'.readSocket = s.readSocket
  /-- `writefds`. -/
  writeSocket : s'.writeSocket = s.writeSocket
  /-- `attempts`. -/
  attempts : s'.attempts = s.attempts

/-- After a try to send a query the first loop goes on, unless there was an error. -/
theorem Mig.send_continues {now : Option Timespec} {n : Option ℕ} {clock : Option Timespec}
    (h : s.send now n clock = some s') (hpoint : s'.point ≠ .failed) :
    ∃ t, s.SameWaits t ∧ s' = t.continueSending ∧ (t.messagesSent = s.messagesSent + 1 ∨
      s.doSendQuery now = some false ∧ t.messagesSent = s.messagesSent) := by
  rw [Mig.send] at h
  split at h
  · exact absurd (Option.some.inj h ▸ rfl) hpoint
  · rename_i hearly
    exact ⟨s, ⟨rfl, rfl, rfl⟩, (Option.some.inj h).symm, .inr ⟨hearly, rfl⟩⟩
  · obtain ⟨next, -, hnext⟩ := Option.bind_eq_some_iff.mp h
    obtain ⟨query, -, hload⟩ := Option.bind_eq_some_iff.mp hnext
    obtain ⟨⟨r, s₁⟩, hquery, hrest⟩ := Option.bind_eq_some_iff.mp hload
    change (if r ≠ 0 then _ else if 0 < s₁.writeInterval then _ else _) = _ at hrest
    rcases sentQuery_pace hquery with ⟨hr, -⟩ | ⟨rfl, time, pair, -, -, -, hrecord⟩
    · rw [if_pos hr] at hrest
      exact absurd (Option.some.inj hrest ▸ rfl) hpoint
    · have hsame : s.SameWaits s₁ := by
        rw [hrecord]
        exact ⟨rfl, rfl, rfl⟩
      have hsent : s₁.messagesSent = s.messagesSent + 1 := by rw [hrecord]
      rw [if_neg (not_not.mpr rfl)] at hrest
      split at hrest
      · obtain ⟨pair', -, hlast⟩ := Option.bind_eq_some_iff.mp hrest
        exact ⟨{ s₁ with lastSent := pair'.sent.nsec },
          ⟨hsame.readSocket, hsame.writeSocket, hsame.attempts⟩, (Option.some.inj hlast).symm,
          .inl hsent⟩
      · exact ⟨s₁, hsame, (Option.some.inj hrest).symm, .inl hsent⟩

theorem Mig.HasWaits.send {now : Option Timespec} {n : Option ℕ} {clock : Option Timespec}
    (h : s.send now n clock = some s') (hpoint : s'.point ≠ .failed) : s'.HasWaits s.attempts := by
  obtain ⟨t, hsame, rfl, -⟩ := Mig.send_continues h hpoint
  exact .continueSending hsame.attempts

/-- How many waits an input leaves. -/
def Mig.waitsLeft (s : Mig) : MigInput → ℕ
  | .select .timeout => if s.point = .waiting then s.attempts - 1 else s.attempts
  | .recv .again => if s.point = .draining then recvTimeout else s.attempts
  | _ => s.attempts

/-- **What a step does to the waits left.** -/
theorem migStep_waits (h : s.Booked messages) (hwaits : s.HasWaits s.attempts)
    (hstep : migStep s i = some s') (hpoint : s'.point ≠ .failed) :
    s'.HasWaits (s.waitsLeft i) := by
  have hexpects := expects_of_migStep hstep
  cases i with
  | send now n clock =>
    have hsending : s.point = .sending := hexpects
    simp only [migStep, hsending] at hstep
    exact .send hstep hpoint
  | select r =>
    rcases hexpects with hselecting | hwaiting
    · simp only [migStep, hselecting] at hstep
      cases r with
      | failed => exact absurd (Option.some.inj hstep ▸ rfl) hpoint
      | timeout =>
        obtain rfl := Option.some.inj hstep
        exact .continueSending (by simp [Mig.waitsLeft, hselecting])
      | ready read write =>
        obtain rfl := Option.some.inj hstep
        exact .startReceiving rfl
    · simp only [migStep, hwaiting] at hstep
      cases r with
      | failed => exact absurd (Option.some.inj hstep ▸ rfl) hpoint
      | timeout =>
        obtain rfl := Option.some.inj hstep
        exact .continueWaiting (by simp [Mig.waitsLeft, hwaiting])
      | ready read write =>
        simp only at hstep
        split at hstep
        · obtain rfl := Option.some.inj hstep
          exact ⟨rfl, fun hwaiting => by cases hwaiting⟩
        · obtain rfl := Option.some.inj hstep
          exact .continueWaiting rfl
  | recv r =>
    cases r with
    | datagram a =>
      cases migStep_cases h hstep with
      | moved hi => exact absurd rfl (hi a)
      | failed _ _ hfailed => exact absurd hfailed hpoint
      | rejected => exact absurd rfl hpoint
      | ignored => exact hwaits
      | credited => exact ⟨rfl, hwaits.waiting⟩
    | failed =>
      rcases hexpects with hreceiving | hdraining
      · simp only [migStep, hreceiving] at hstep
        exact absurd (Option.some.inj hstep ▸ rfl) hpoint
      · simp only [migStep, hdraining] at hstep
        exact absurd (Option.some.inj hstep ▸ rfl) hpoint
    | again =>
      rcases hexpects with hreceiving | hdraining
      · simp only [migStep, hreceiving] at hstep
        obtain rfl := Option.some.inj hstep
        exact .startSending (by simp [Mig.waitsLeft, hreceiving])
      · simp only [migStep, hdraining] at hstep
        obtain rfl := Option.some.inj hstep
        exact .continueWaiting (by simp [Mig.waitsLeft, hdraining])

/-! ### The waits in vain -/

/-- Counts an input: a wait in vain adds one, and what is sent or read to its end begins anew. -/
def countWait (n : ℕ) : MigInput → ℕ
  | .select .timeout => n + 1
  | .send .. => 0
  | .recv .again => 0
  | _ => n

/-- The waits in vain since the last query was sent, or the socket was last read empty. -/
def idleWaits (is : List MigInput) : ℕ := is.foldl countWait 0

theorem idleWaits_concat (is : List MigInput) (i : MigInput) :
    idleWaits (is ++ [i]) = countWait (idleWaits is) i := by
  rw [idleWaits, List.foldl_append]
  rfl

/-- The invariant of the waits. -/
structure Mig.Patient (is : List MigInput) (s : Mig) : Prop where
  /-- None is used up in the first loop. -/
  firstLoop : s.point.inFirstLoop = true → s.attempts = recvTimeout
  /-- In the second loop, those in vain are. -/
  secondLoop : s.point.inSecondLoop = true → s.attempts + idleWaits is = recvTimeout
  /-- The loop goes on as long as there are any left. -/
  waits : s.HasWaits s.attempts
  /-- It ends when there are none, or every query is answered. -/
  finished : s.point = .finished → s.messagesReceived = s.count ∨ s.attempts = 0

/-- The first loop uses up no waits. -/
theorem Mig.waitsLeft_of_inFirstLoop (hfirst : s.point.inFirstLoop = true) (i : MigInput) :
    s.waitsLeft i = s.attempts := by
  rw [waitsLeft.eq_def]
  split
  · exact if_neg fun hwaiting => by simp [hwaiting, MigPoint.inFirstLoop] at hfirst
  · exact if_neg fun hdraining => by simp [hdraining, MigPoint.inFirstLoop] at hfirst
  · rfl

/-- In the second loop a wait in vain is used up, and reading to the end gives all of them back. -/
theorem Mig.waitsLeft_of_inSecondLoop {n : ℕ} (hexpects : s.Expects i)
    (hsecond : s.point.inSecondLoop = true) (hwaits : s.HasWaits s.attempts)
    (h : s.attempts + n = recvTimeout) : s.waitsLeft i + countWait n i = recvTimeout := by
  cases i with
  | send now m clock =>
    have hsending : s.point = .sending := hexpects
    simp [hsending, MigPoint.inSecondLoop] at hsecond
  | select r =>
    cases r with
    | failed => exact h
    | ready => exact h
    | timeout =>
      rcases hexpects with hselecting | hwaiting
      · simp [hselecting, MigPoint.inSecondLoop] at hsecond
      · have hpos := hwaits.waiting hwaiting
        rw [waitsLeft, if_pos hwaiting, countWait]
        omega
  | recv r =>
    cases r with
    | datagram => exact h
    | failed => exact h
    | again =>
      rcases hexpects with hreceiving | hdraining
      · simp [hreceiving, MigPoint.inSecondLoop] at hsecond
      · rw [waitsLeft, if_pos hdraining, countWait]
        rfl

/-- A point at which the run still goes on lies in one of the loops. -/
theorem MigPoint.inLoop {point : MigPoint} (h : point ≠ .failed) :
    point.inFirstLoop = true ∨ point.inSecondLoop = true := by
  cases point <;> simp_all [inFirstLoop, inSecondLoop]

/-- A step that leaves the first loop sends the last query. -/
theorem Mig.Booked.left_firstLoop (h : s.Booked messages) (hstep : migStep s i = some s')
    (hfirst : s.point.inFirstLoop = true) (hsecond : s'.point.inSecondLoop = true) :
    ∃ now n clock, i = .send now n clock := by
  have hlt := h.fits.firstLoop hfirst
  have heq := (h.next hstep).fits.secondLoop hsecond
  cases migStep_cases h hstep with
  | sent => exact ⟨_, _, _, rfl⟩
  | moved _ _ hcontinues =>
    have hsame := hcontinues.idle.same
    rw [hsame.messagesSent, hsame.count] at heq
    omega
  | failed _ _ hfailed => simp [hfailed, MigPoint.inSecondLoop] at hsecond
  | rejected => simp [Mig.fail, MigPoint.inSecondLoop] at hsecond
  | ignored => omega
  | credited => exact absurd heq (Nat.ne_of_lt hlt)

/-- No step leads back into the first loop. -/
theorem Mig.Booked.inFirstLoop_of_next (h : s.Booked messages) (hstep : migStep s i = some s')
    (hfirst' : s'.point.inFirstLoop = true) : s.point.inFirstLoop = true := by
  refine (MigPoint.inLoop (expects_of_migStep hstep).ne_failed).resolve_right fun hsecond => ?_
  have heq := h.fits.secondLoop hsecond
  have hlt := (h.next hstep).fits.firstLoop hfirst'
  cases migStep_cases h hstep with
  | sent _ hlt' => omega
  | moved _ _ hcontinues =>
    have hsame := hcontinues.idle.same
    rw [hsame.messagesSent, hsame.count] at hlt
    omega
  | failed _ _ hfailed => simp [hfailed, MigPoint.inFirstLoop] at hfirst'
  | rejected => simp [Mig.fail, MigPoint.inFirstLoop] at hfirst'
  | ignored => omega
  | credited => exact absurd heq (Nat.ne_of_lt hlt)

/-- A step that ends the loops has found every query answered, or no wait left. -/
theorem Mig.Booked.finished_of_next (h : s.Booked messages) (hstep : migStep s i = some s')
    (hfinished : s'.point = .finished) :
    s'.messagesReceived = s'.count ∨ s'.attempts = 0 := by
  have hle := (h.next hstep).received_le
  have hends {t : Mig} {left : ℕ} (hcontinues : t.Continues left s') :
      s'.messagesReceived = s'.count ∨ s'.attempts = 0 := by
    rw [hcontinues.attempts]
    refine (hcontinues.finished hfinished).imp_left fun hall => Nat.le_antisymm hle ?_
    rwa [hcontinues.idle.same.count, hcontinues.idle.same.messagesReceived]
  cases migStep_cases h hstep with
  | moved _ _ hcontinues => exact hends hcontinues
  | sent _ _ hcontinues => exact hends hcontinues
  | failed _ _ hfailed => exact absurd (hfailed.symm.trans hfinished) (by simp)
  | rejected => cases hfinished
  | ignored =>
    rcases expects_of_migStep hstep with hpoint | hpoint
    · exact absurd (hpoint.symm.trans hfinished) (by simp)
    · exact absurd (hpoint.symm.trans hfinished) (by simp)
  | credited =>
    rcases expects_of_migStep hstep with hpoint | hpoint
    · exact absurd (hpoint.symm.trans hfinished) (by simp)
    · exact absurd (hpoint.symm.trans hfinished) (by simp)

/-- **The waits are counted.** -/
theorem Mig.Patient.next (hbooked : s.Booked messages) (h : s.Patient is)
    (hstep : migStep s i = some s') : s'.Patient (is ++ [i]) := by
  by_cases hfailed : s'.point = .failed
  · refine ⟨?_, ?_, ⟨rfl, ?_⟩, ?_⟩ <;>
      simp [hfailed, MigPoint.inFirstLoop, MigPoint.inSecondLoop]
  have hexpects := expects_of_migStep hstep
  have hwaits := migStep_waits hbooked h.waits hstep hfailed
  have hattempts := hwaits.attempts
  refine ⟨fun hfirst' => ?_, fun hsecond' => ?_, hattempts.symm ▸ hwaits,
    hbooked.finished_of_next hstep⟩
  · have hfirst := hbooked.inFirstLoop_of_next hstep hfirst'
    rw [hattempts, Mig.waitsLeft_of_inFirstLoop hfirst, h.firstLoop hfirst]
  · rw [hattempts, idleWaits_concat]
    rcases MigPoint.inLoop hexpects.ne_failed with hfirst | hsecond
    · obtain ⟨now, n, clock, rfl⟩ := hbooked.left_firstLoop hstep hfirst hsecond'
      rw [Mig.waitsLeft_of_inFirstLoop hfirst, h.firstLoop hfirst]
      rfl
    · exact Mig.waitsLeft_of_inSecondLoop hexpects hsecond h.waits (h.secondLoop hsecond)

/-! ### Whole runs -/

/-- All waits are left when `main` enters its loops. -/
theorem Mig.patient_initial (queries : Block) (count queryLimit : ℕ)
    (sends receives : List Timespec) (pairs : List PairTimespec) :
    (Mig.initial queries count queryLimit sends receives pairs).Patient [] := by
  have hwaits : (Mig.initial queries count queryLimit sends receives pairs).HasWaits recvTimeout :=
    .continueSending rfl
  have hattempts := hwaits.attempts
  refine ⟨fun _ => hattempts, fun _ => hattempts, hattempts.symm ▸ hwaits, fun hfinished => ?_⟩
  have hcontinues := Mig.continues_initial queries count queryLimit sends receives pairs
  have hsame := hcontinues.idle.same
  rw [hattempts, hsame.count, hsame.messagesReceived]
  exact (hcontinues.finished hfinished).imp_left fun hall => (Nat.le_zero.mp hall).symm

theorem mig_patient {env : Mig → MigInput → Prop} {start : Mig} (hstart : start.Booked messages)
    (hpatient : start.Patient []) (hrun : Run migStep env start is s) : s.Patient is :=
  hrun.invariant_history (P := fun is s => s.Patient is) hpatient
    fun _ _ _ _ hbefore h _ hstep => h.next (mig_booked hstart hbefore) hstep

/-- Waits in vain, as many as are left, end the loop. -/
theorem Mig.run_timeouts {n : ℕ} (hwaiting : s.point = .waiting)
    (hmissing : s.messagesReceived < s.count) (hattempts : s.attempts = n) (hpos : 0 < n) :
    ∃ s', Run migStep (fun _ _ => True) s (List.replicate n (.select .timeout)) s' ∧
      s'.point = .finished ∧ s.SameData s' := by
  induction n generalizing s with
  | zero => omega
  | succ n ih =>
    obtain ⟨t, ht⟩ : ∃ t, { s with attempts := s.attempts - 1, readSocket := true } = t := ⟨_, rfl⟩
    have hleft : t.attempts = n := by rw [← ht, ← Nat.add_sub_cancel n 1, ← hattempts]
    have hsame : s.SameData t := ht ▸ ⟨rfl, rfl, rfl, rfl, rfl, rfl, rfl⟩
    have hstep : migStep s (.select .timeout) = some t.continueWaiting := by
      rw [← ht]
      simp only [migStep, hwaiting]
    have hmissing' : t.messagesReceived < t.count := by
      rwa [hsame.messagesReceived, hsame.count]
    rw [List.replicate_succ]
    by_cases hlast : n = 0
    · rw [continueWaiting, if_neg fun h => Nat.ne_of_gt h.2 (hleft.trans hlast)] at hstep
      rw [hlast]
      exact ⟨_, .single trivial hstep, rfl, hsame.trans ⟨rfl, rfl, rfl, rfl, rfl, rfl, rfl⟩⟩
    · have hpos' : 0 < n := Nat.pos_of_ne_zero hlast
      rw [continueWaiting, if_pos ⟨hmissing', hleft ▸ hpos'⟩] at hstep
      have hon : s.SameData { t with point := .waiting } :=
        hsame.trans ⟨rfl, rfl, rfl, rfl, rfl, rfl, rfl⟩
      obtain ⟨s', hrun, hfinished, hsame'⟩ :=
        ih (s := { t with point := .waiting }) rfl hmissing' hleft hpos'
      exact ⟨s', .cons trivial hstep hrun, hfinished, hon.trans hsame'⟩

/-- A wait in vain. -/
def MigInput.isTimeout : MigInput → Bool
  | .select .timeout => true
  | _ => false

/-- The socket has been read until it is empty. -/
def MigInput.isAgain : MigInput → Bool
  | .recv .again => true
  | _ => false

/-- The waits left, of which there are none behind an error. -/
def Mig.patience (s : Mig) : ℕ := if s.point = .failed then 0 else s.attempts

/-- Behind the first loop a wait in vain costs one, and only reading to the end gives any back. -/
theorem Mig.Patient.patience_le (hbooked : s.Booked messages) (h : s.Patient is)
    (hsecond : s.point.inSecondLoop = true) (hstep : migStep s i = some s') :
    s'.patience + (if i.isTimeout then 1 else 0) ≤
      s.patience + recvTimeout * (if i.isAgain then 1 else 0) := by
  have hexpects := expects_of_migStep hstep
  have hpatience : s.patience = s.attempts := if_neg hexpects.ne_failed
  rw [hpatience]
  by_cases hfailed : s'.point = .failed
  · rw [patience, if_pos hfailed]
    cases migStep_cases hbooked hstep with
    | failed hfault _ _ =>
      have hno : i.isTimeout = false := by
        cases i with
        | select r => exact hfault ▸ rfl
        | _ => rfl
      simp [hno]
    | rejected => exact Nat.zero_le _
    | ignored => exact Nat.zero_le _
    | credited => exact Nat.zero_le _
    | sent _ _ hcontinues => exact absurd hfailed hcontinues.point
    | moved _ _ hcontinues => exact absurd hfailed hcontinues.point
  · rw [patience, if_neg hfailed, (migStep_waits hbooked h.waits hstep hfailed).attempts]
    have hbefore := h.secondLoop hsecond
    have hafter := Mig.waitsLeft_of_inSecondLoop hexpects hsecond h.waits hbefore
    cases i with
    | send => exact Nat.le_refl _
    | select r =>
      cases r with
      | timeout =>
        change s.waitsLeft (.select .timeout) + 1 ≤ s.attempts + recvTimeout * 0
        rw [countWait] at hafter
        omega
      | failed => exact Nat.le_refl _
      | ready => exact Nat.le_refl _
    | recv r =>
      cases r with
      | again =>
        change s.waitsLeft (.recv .again) + 0 ≤ s.attempts + recvTimeout * 1
        rw [countWait] at hafter
        omega
      | failed => exact Nat.le_refl _
      | datagram => exact Nat.le_refl _

/-- The run has left the first loop, and may have failed. -/
def Mig.Ending (messages : List (List UInt8)) (s : Mig) : Prop :=
  s.Booked messages ∧ (∃ is, s.Patient is) ∧ (s.point ≠ .failed → s.point.inSecondLoop = true)

theorem Mig.Ending.next (h : s.Ending messages) (hstep : migStep s i = some s') :
    s'.Ending messages := by
  obtain ⟨hbooked, ⟨is, hpatient⟩, hsecond⟩ := h
  refine ⟨hbooked.next hstep, ⟨is ++ [i], hpatient.next hbooked hstep⟩, fun hpoint => ?_⟩
  refine (MigPoint.inLoop hpoint).resolve_left fun hfirst' => ?_
  have heq := hbooked.fits.secondLoop (hsecond (expects_of_migStep hstep).ne_failed)
  have hlt := hbooked.fits.firstLoop (hbooked.inFirstLoop_of_next hstep hfirst')
  omega

/-- In the second loop, each time the socket is read empty pays for so many waits in vain. -/
theorem Mig.Ending.timeouts_le (h : s.Ending messages)
    (hrun : Run migStep (fun _ _ => True) s is s') :
    is.countP MigInput.isTimeout ≤ s.patience + recvTimeout * is.countP MigInput.isAgain := by
  have hsum : s'.patience + (is.map fun i => if i.isTimeout then 1 else 0).sum ≤
      s.patience + (is.map fun i => recvTimeout * if i.isAgain then 1 else 0).sum := by
    refine hrun.sum_cost_le (P := Mig.Ending messages) _ _ _
      (fun _ _ _ h _ hstep => h.next hstep) ?_ h
    intro s i s' h _ hstep
    obtain ⟨hbooked, ⟨is, hpatient⟩, hsecond⟩ := h
    exact hpatient.patience_le hbooked (hsecond (expects_of_migStep hstep).ne_failed) hstep
  rw [Run.sum_map_ite, List.sum_map_mul_left, Run.sum_map_ite] at hsum
  omega

/-- **When mig gives up.** When the loops are done every query has been sent, and either every one
has been answered or the last `RECV_TIMEOUT` waits have been in vain. As long as it waits fewer
have, an answer is missing, and the rest of them would end the loop with what has been received so
far. It can only wait longer if answers keep coming in. -/
theorem mig_gives_up {malloc : Malloc} {names queries : Block} {count queryLimit : ℕ}
    {client : Option ClientId} {sends receives : List Timespec} {pairs : List PairTimespec}
    (hqueries : makeQueries malloc names count client = some (some queries))
    (hsends : sends.length = count) (hreceives : receives.length = count)
    (hpairs : pairs.length = count)
    (hrun : Run migStep (fun _ _ => True)
      (Mig.initial queries count queryLimit sends receives pairs) is s) :
    (s.point = .finished → s.messagesSent = count ∧
      (s.messagesReceived = count ∨ idleWaits is = recvTimeout)) ∧
    (s.point = .waiting → s.messagesSent = count ∧ s.messagesReceived < count ∧
      idleWaits is < recvTimeout ∧
      ∃ s', Run migStep (fun _ _ => True) s
          (List.replicate (recvTimeout - idleWaits is) (.select .timeout)) s' ∧
        s'.point = .finished ∧ s.SameData s') ∧
    (s.point.inSecondLoop = true → ∀ is' s', Run migStep (fun _ _ => True) s is' s' →
      is'.countP MigInput.isTimeout + idleWaits is ≤
        recvTimeout * (1 + is'.countP MigInput.isAgain)) := by
  obtain ⟨ws, hmessages, hstart⟩ := mig_start queryLimit hqueries hsends hreceives hpairs
  have h := mig_booked hstart hrun
  have hpatient := mig_patient hstart (Mig.patient_initial ..) hrun
  have hcount : s.count = count := h.messages_length.symm.trans hmessages
  refine ⟨fun hfinished => ?_, fun hwaiting => ?_, fun hsecond is' s' hafter => ?_⟩
  · have hsecond : s.point.inSecondLoop = true := by rw [hfinished]; rfl
    have hwaits := hpatient.secondLoop hsecond
    refine ⟨hcount ▸ h.fits.secondLoop hsecond, ?_⟩
    exact (hpatient.finished hfinished).imp (fun hall => hall.trans hcount) fun hnone => by omega
  · have hsecond : s.point.inSecondLoop = true := by rw [hwaiting]; rfl
    have hwaits := hpatient.secondLoop hsecond
    have hpos := hpatient.waits.waiting hwaiting
    have hmissing := h.fits.waiting hwaiting
    exact ⟨hcount ▸ h.fits.secondLoop hsecond, hcount ▸ hmissing, by omega,
      Mig.run_timeouts hwaiting hmissing (by omega) (by omega)⟩
  · have hwaits := hpatient.secondLoop hsecond
    have hending : s.Ending (queryMessages client 0 ws) := ⟨h, ⟨is, hpatient⟩, fun _ => hsecond⟩
    have hle := hending.timeouts_le hafter
    have hpatience : s.patience ≤ s.attempts := by
      rw [Mig.patience]
      split <;> omega
    rw [Nat.mul_add, Nat.mul_one]
    omega

/-- The queries are sent, three seconds pass in vain, and then the second one is answered. -/
def waitingInputs : List MigInput :=
  [.select (.ready false true), .send none (some 19) (some ⟨1, 0⟩), .select (.ready false true),
    .send none (some 21) (some ⟨2, 0⟩), .select (.ready false true),
    .send none (some 19) (some ⟨4, 0⟩)] ++ List.replicate 3 (.select .timeout) ++
  [.select (.ready true false), .recv (.datagram ⟨refusedReply 1, 1, some ⟨8, 0⟩⟩), .recv .again]

/-- Where they lead to: all waits are left again. -/
def waitingMig : Mig :=
  { threeMig with
    sends := [⟨1, 0⟩, ⟨2, 0⟩, ⟨4, 0⟩], receives := [⟨8, 0⟩, ⟨0, 0⟩, ⟨0, 0⟩]
    pairs := [⟨⟨1, 0⟩, 0, ⟨0, 0⟩⟩, ⟨⟨2, 0⟩, 1, ⟨8, 0⟩⟩, ⟨⟨4, 0⟩, 0, ⟨0, 0⟩⟩], offset := 83
    messagesSent := 3, messagesReceived := 1, point := .waiting, wire := askedMessages }

theorem run_waitingMig : Run migStep (fun _ _ => True) threeMig waitingInputs waitingMig :=
  .of_foldlM (by decide +kernel)

theorem mig_gives_up_waitingMig :
    ∃ s, Run migStep (fun _ _ => True) waitingMig (List.replicate 35 (.select .timeout)) s ∧
      s.point = .finished ∧ waitingMig.SameData s := by
  have h := (mig_gives_up makeQueries_threeQueries rfl rfl rfl run_waitingMig).2.1 rfl
  exact h.2.2.2

end DnsTools
