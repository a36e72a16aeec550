import DnsTools.Mig.Attribution
import Mathlib.Algebra.Order.Round
import Mathlib.Data.List.Chain
import Mathlib.Data.Rat.Floor
import Mathlib.Tactic.FieldSimp
import Mathlib.Tactic.Ring

/-!
# The rate limit

With a limit of `L` queries in a second the first loop sends a query only when `write_interval`
nanoseconds have passed since the last one was sent. The interval is meant to be `10 ^ 9 / L`,
rounded, but the remainder of the division is compared with half of `NANOSECONDS` instead of half of
`L`, so that it is always rounded down as long as `L` is at most `NANOSECONDS`.

The loop itself keeps to its interval in every run, whichever way it is woken up.

## What the loop measures

The loop reads the clock in front of a query to see whether the interval has passed, and once more
behind `sendto` for the record. It measures from the record of the last query to the reading in
front of the next, so the records of the two are at least that far apart, and they are further apart
by the time that `sendto` takes. Times are nanoseconds in an unsigned word and wrap around; what the
subtraction gives is never more than the time that has really passed (`passed_le`), so wrapping can
only make the loop wait.

Nothing but the last time of sending matters to this, and a step either sends a query or leaves all
of it alone: `SamePace` and `PaceOutcome`. The invariant `Mig.Paced` needs no more of the run.

## Where the interval is too short

For `L` above `NANOSECONDS` the interval is one, which is not too short. For smaller `L` it is the
quotient rounded down, so it is the nearest integer exactly if the remainder is less than half of
`L`. `RateLimited` is about all runs, so a limit that is not kept needs a run that shows it: two
queries as fast as the loop lets them go, where the clock gives for the record of the second the
very time at which the interval has passed (`exists_hurried`).

## What is assumed

That the readings of the clock do not go back. The rate is that of the records; what the network
makes of it is not the program's concern.

## Main results

* `Mig.Paced.next` — what a step does to the times of sending
* `mig_paced` — queries are at least `write_interval` apart
* `rateLimited_iff` — the limits for which that is the nearest integer
-/

namespace DnsTools

open Memory

/-- A time in nanoseconds, as a number without bounds. -/
def Timespec.time (t : Timespec) : ℕ := t.tvSec * nanoseconds + t.tvNsec

theorem Timespec.nsec_eq (t : Timespec) : t.nsec = t.time % sizeModulus := rfl

/-- The time that has passed, as the loop computes it, is not more than has really passed. -/
theorem passed_le {t now : Timespec} (h : t.time ≤ now.time) :
    (now.nsec + (sizeModulus - t.nsec)) % sizeModulus ≤ now.time - t.time := by
  rw [Timespec.nsec_eq, Timespec.nsec_eq]
  simp only [sizeModulus]
  omega

/-! ### The interval -/

/-- `10 ^ 9 / L`, rounded to the nearest integer. -/
def nearestInterval (L : ℕ) : ℕ := (2 * nanoseconds + L) / (2 * L)

theorem round_interval {L : ℕ} (hL : 0 < L) :
    round ((nanoseconds : ℚ) / L) = (nearestInterval L : ℤ) := by
  have hsum : (nanoseconds : ℚ) / L + 1 / 2
      = ((2 * nanoseconds + L : ℕ) : ℚ) / ((2 * L : ℕ) : ℚ) := by
    push_cast
    field_simp
  rw [round_eq, hsum, Rat.floor_natCast_div_natCast, nearestInterval]
  rfl

/-- Rounding adds one if the remainder is at least half of the divisor. -/
theorem nearestInterval_eq {L : ℕ} (hL : 0 < L) :
    nearestInterval L
      = nanoseconds / L + if L ≤ 2 * (nanoseconds % L) then 1 else 0 := by
  have hdiv := Nat.div_add_mod nanoseconds L
  have hmod := Nat.mod_lt nanoseconds hL
  have hsplit : 2 * nanoseconds + L
      = (2 * (nanoseconds % L) + L) + nanoseconds / L * (2 * L) := by
    conv_lhs => rw [← hdiv]
    ring
  rw [nearestInterval, hsplit, Nat.add_mul_div_right _ _ (by omega), Nat.add_comm]
  congr 1
  generalize nanoseconds % L = r at *
  split
  · rw [Nat.div_eq_iff (by omega)]
    omega
  · exact Nat.div_eq_of_lt (by omega)

/-- **When the interval is wide enough.** -/
theorem nearestInterval_le_iff {L : ℕ} (hL : 0 < L) :
    nearestInterval L ≤ writeInterval L ↔ nanoseconds < L ∨ 2 * (nanoseconds % L) < L := by
  have hdiv := Nat.div_add_mod nanoseconds L
  have hmod := Nat.mod_lt nanoseconds hL
  rw [nearestInterval_eq hL, writeInterval, if_neg (show ¬L = 0 by omega)]
  by_cases hbig : nanoseconds < L
  · rw [Nat.mod_eq_of_lt hbig, Nat.div_eq_of_lt hbig, if_pos (Nat.div_le_self _ _)]
    refine iff_of_true ?_ (Or.inl hbig)
    split <;> omega
  · -- the remainder cannot be half of `NANOSECONDS`
    have hquot : L ≤ L * (nanoseconds / L) :=
      Nat.le_mul_of_pos_right L (Nat.div_pos (Nat.not_lt.mp hbig) hL)
    have hhalf : ¬nanoseconds / 2 ≤ nanoseconds % L := by
      simp only [nanoseconds] at *
      omega
    rw [if_neg hhalf]
    split <;> omega

/-! ### What a step does -/

/-- What decides when the next query is sent is the same. -/
structure Mig.SamePace (s s' : Mig) : Prop where
  /-- The times of sending. -/
  sends : s'.sends = s.sends
  /-- Their number. -/
  messagesSent : s'.messagesSent = s.messagesSent
  /-- The last of them. -/
  lastSent : s'.lastSent = s.lastSent
  /-- The interval. -/
  writeInterval : s'.writeInterval = s.writeInterval

section SamePace

variable {s t : Mig}

theorem Mig.samePace_with {read write : Bool} {attempts : ℕ} {point : MigPoint} :
    s.SamePace { s with readSocket := read, writeSocket := write, attempts, point } :=
  ⟨rfl, rfl, rfl, rfl⟩

theorem Mig.SamePace.continueWaiting (h : s.SamePace t) : s.SamePace t.continueWaiting := by
  rw [Mig.continueWaiting]
  split <;> exact ⟨h.sends, h.messagesSent, h.lastSent, h.writeInterval⟩

theorem Mig.SamePace.continueSending (h : s.SamePace t) : s.SamePace t.continueSending := by
  rw [Mig.continueSending]
  split
  · exact ⟨h.sends, h.messagesSent, h.lastSent, h.writeInterval⟩
  · exact h.continueWaiting

theorem Mig.SamePace.startSending (h : s.SamePace t) : s.SamePace t.startSending := by
  rw [Mig.startSending]
  split
  · exact ⟨h.sends, h.messagesSent, h.lastSent, h.writeInterval⟩
  · exact SamePace.continueSending ⟨h.sends, h.messagesSent, h.lastSent, h.writeInterval⟩

theorem Mig.SamePace.startReceiving (h : s.SamePace t) : s.SamePace t.startReceiving := by
  rw [Mig.startReceiving]
  split
  · exact ⟨h.sends, h.messagesSent, h.lastSent, h.writeInterval⟩
  · exact SamePace.startSending ⟨h.sends, h.messagesSent, h.lastSent, h.writeInterval⟩

end SamePace

theorem recvAnswer_samePace {s s' : Mig} {r : Reception} {turn : RecvTurn}
    (h : recvAnswer s r = some (s', turn)) : s.SamePace s' := by
  have hrefl : s.SamePace s := ⟨rfl, rfl, rfl, rfl⟩
  cases r with
  | again =>
    obtain ⟨rfl, -⟩ := Prod.mk.inj (Option.some.inj h)
    exact hrefl
  | failed =>
    obtain ⟨rfl, -⟩ := Prod.mk.inj (Option.some.inj h)
    exact hrefl
  | datagram a =>
    rw [recvAnswer] at h
    split at h
    · obtain ⟨rfl, -⟩ := Prod.mk.inj (Option.some.inj h)
      exact hrefl
    · split at h
      · obtain ⟨rfl, -⟩ := Prod.mk.inj (Option.some.inj h)
        exact hrefl
      · split at h
        · obtain ⟨rfl, -⟩ := Prod.mk.inj (Option.some.inj h)
          exact hrefl
        · obtain ⟨found, -, h⟩ := Option.bind_eq_some_iff.mp h
          cases found with
          | none =>
            obtain ⟨rfl, -⟩ := Prod.mk.inj (Option.some.inj h)
            exact hrefl
          | some k =>
            obtain ⟨pair, -, h⟩ := Option.bind_eq_some_iff.mp h
            obtain ⟨receives, -, h⟩ := Option.bind_eq_some_iff.mp h
            obtain ⟨pairs, -, h⟩ := Option.bind_eq_some_iff.mp h
            obtain ⟨rfl, -⟩ := Prod.mk.inj (Option.some.inj h)
            exact ⟨rfl, rfl, rfl, rfl⟩

/-- What a step can do about the pace. -/
inductive PaceOutcome (s : Mig) : MigInput → Mig → Prop
  /-- Nothing is sent. -/
  | kept {i : MigInput} {s' : Mig} (hsame : s.SamePace s') : PaceOutcome s i s'
  /-- The next query is sent when the interval has passed. -/
  | sent {now : Option Timespec} {n : Option ℕ} {t : Timespec} {s' : Mig}
      (hdo : s.doSendQuery now = some true) (hlt : s.messagesSent < s.sends.length)
      (hsends : s'.sends = s.sends.set s.messagesSent t)
      (hsent : s'.messagesSent = s.messagesSent + 1)
      (hlast : 0 < s.writeInterval → s'.lastSent = t.nsec)
      (hinterval : s'.writeInterval = s.writeInterval) :
      PaceOutcome s (.send now n (some t)) s'

/-- A query that was sent is recorded with the time. -/
theorem sentQuery_pace {s s' : Mig} {query : List UInt8} {n : Option ℕ} {clock : Option Timespec}
    {r : ℤ} (h : sentQuery s query n clock = some (r, s')) :
    (r ≠ 0 ∧ s.SamePace s') ∨
      (r = 0 ∧ ∃ (t : Timespec) (pair : PairTimespec), clock = some t ∧
        s.messagesSent < s.sends.length ∧
        s.messagesSent < s.pairs.length ∧
        s' = { s with
          sends := s.sends.set s.messagesSent t
          pairs := s.pairs.set s.messagesSent { pair with sent := t }
          messagesSent := s.messagesSent + 1
          wire := s'.wire }) := by
  rw [sentQuery.eq_def] at h
  split at h
  · obtain ⟨rfl, rfl⟩ := Prod.mk.inj (Option.some.inj h)
    exact Or.inl ⟨by decide, rfl, rfl, rfl, rfl⟩
  · split at h
    · obtain ⟨rfl, rfl⟩ := Prod.mk.inj (Option.some.inj h)
      exact Or.inl ⟨by decide, rfl, rfl, rfl, rfl⟩
    · split at h
      · obtain ⟨rfl, rfl⟩ := Prod.mk.inj (Option.some.inj h)
        exact Or.inl ⟨by decide, rfl, rfl, rfl, rfl⟩
      · rename_i t
        obtain ⟨sends, hsends, h⟩ := Option.bind_eq_some_iff.mp h
        obtain ⟨pair, -, h⟩ := Option.bind_eq_some_iff.mp h
        obtain ⟨pairs, hpairs, h⟩ := Option.bind_eq_some_iff.mp h
        obtain ⟨rfl, rfl⟩ := Prod.mk.inj (Option.some.inj h)
        obtain ⟨hlt, hset⟩ := Option.ite_none_right_eq_some.mp hsends
        obtain ⟨hlt', hset'⟩ := Option.ite_none_right_eq_some.mp hpairs
        obtain rfl := Option.some.inj hset
        obtain rfl := Option.some.inj hset'
        exact Or.inr ⟨rfl, t, pair, rfl, hlt, hlt', rfl⟩

/-- When the next query is on record, the loop goes on. -/
theorem PaceOutcome.of_record {s s' : Mig} {now : Option Timespec} {n : Option ℕ} {t : Timespec}
    (hdo : s.doSendQuery now = some true) (hlt : s.messagesSent < s.sends.length)
    (hsends : s'.sends = s.sends.set s.messagesSent t)
    (hsent : s'.messagesSent = s.messagesSent + 1)
    (hlast : 0 < s.writeInterval → s'.lastSent = t.nsec)
    (hinterval : s'.writeInterval = s.writeInterval) :
    PaceOutcome s (.send now n (some t)) s'.continueSending := by
  have hsame : s'.SamePace s'.continueSending := Mig.SamePace.continueSending ⟨rfl, rfl, rfl, rfl⟩
  exact .sent hdo hlt (hsame.sends.trans hsends) (hsame.messagesSent.trans hsent)
    (fun hpos => hsame.lastSent.trans (hlast hpos)) (hsame.writeInterval.trans hinterval)

theorem Mig.send_pace {s s' : Mig} {now : Option Timespec} {n : Option ℕ} {clock : Option Timespec}
    (h : s.send now n clock = some s') : PaceOutcome s (.send now n clock) s' := by
  rw [Mig.send] at h
  split at h
  · obtain rfl := Option.some.inj h
    exact .kept samePace_with
  · obtain rfl := Option.some.inj h
    exact .kept (SamePace.continueSending ⟨rfl, rfl, rfl, rfl⟩)
  · rename_i hdo
    obtain ⟨next, -, hnext⟩ := Option.bind_eq_some_iff.mp h
    obtain ⟨query, -, hload⟩ := Option.bind_eq_some_iff.mp hnext
    obtain ⟨⟨r, s₁⟩, hquery, hrest⟩ := Option.bind_eq_some_iff.mp hload
    change (if r ≠ 0 then _ else if 0 < s₁.writeInterval then _ else _) = _ at hrest
    rcases sentQuery_pace hquery with ⟨hr, hsame⟩ | ⟨rfl, t, pair, rfl, hlt, hlt', hrecord⟩
    · rw [if_pos hr] at hrest
      obtain rfl := Option.some.inj hrest
      exact .kept ⟨hsame.sends, hsame.messagesSent, hsame.lastSent, hsame.writeInterval⟩
    · rw [if_neg (not_not.mpr rfl)] at hrest
      split at hrest
      · -- the time of sending is read back from the pair
        obtain ⟨pair', hpair', hlast⟩ := Option.bind_eq_some_iff.mp hrest
        obtain rfl := Option.some.inj hlast
        have hsent : pair'.sent = t := by
          rw [hrecord] at hpair'
          change (s.pairs.set s.messagesSent _)[s.messagesSent + 1 - 1]? = some pair' at hpair'
          rw [Nat.add_sub_cancel, List.getElem?_set_self hlt', Option.some.injEq] at hpair'
          rw [← hpair']
        refine .of_record hdo hlt ?_ ?_ (fun _ => ?_) ?_
        · rw [hrecord]
        · rw [hrecord]
        · rw [hsent]
        · rw [hrecord]
      · rename_i hinterval
        obtain rfl := Option.some.inj hrest
        have hzero : ¬0 < s.writeInterval := by
          rw [hrecord] at hinterval
          exact hinterval
        refine .of_record hdo hlt ?_ ?_ (fun hpos => absurd hpos hzero) ?_
        · rw [hrecord]
        · rw [hrecord]
        · rw [hrecord]

/-- A turn of `recv_answer` changes nothing about the pace. -/
theorem recvAnswer_turn_pace {s s' : Mig} {r : Reception} {done : Mig → Mig}
    (hdone : ∀ t, s.SamePace t → s.SamePace (done t))
    (h : (do
      let (s, turn) ← recvAnswer s r
      match turn with
      | .again => return s
      | .done => return done s
      | .failed => return s.fail) = some s') : s.SamePace s' := by
  obtain ⟨⟨s₁, turn⟩, hrecv, h⟩ := Option.bind_eq_some_iff.mp h
  have hsame := recvAnswer_samePace hrecv
  cases turn with
  | again =>
    obtain rfl := Option.some.inj h
    exact hsame
  | done =>
    obtain rfl := Option.some.inj h
    exact hdone _ hsame
  | failed =>
    obtain rfl := Option.some.inj h
    exact ⟨hsame.sends, hsame.messagesSent, hsame.lastSent, hsame.writeInterval⟩

/-- **What a step does to the pace.** -/
theorem migStep_pace {s s' : Mig} {i : MigInput} (h : migStep s i = some s') :
    PaceOutcome s i s' := by
  unfold migStep at h
  split at h
  · obtain rfl := Option.some.inj h
    exact .kept Mig.samePace_with
  · obtain rfl := Option.some.inj h
    exact .kept Mig.samePace_with.continueSending
  · obtain rfl := Option.some.inj h
    exact .kept Mig.samePace_with.startReceiving
  · exact .kept (recvAnswer_turn_pace (fun _ hsame => hsame.startSending) h)
  · exact Mig.send_pace h
  · obtain rfl := Option.some.inj h
    exact .kept Mig.samePace_with
  · obtain rfl := Option.some.inj h
    exact .kept Mig.samePace_with.continueWaiting
  · split at h
    · obtain rfl := Option.some.inj h
      exact .kept Mig.samePace_with
    · obtain rfl := Option.some.inj h
      exact .kept Mig.samePace_with.continueWaiting
  · have hdone : ∀ t, s.SamePace t →
        s.SamePace ((fun t : Mig => { t with attempts := recvTimeout }.continueWaiting) t) := by
      intro t hsame
      exact Mig.SamePace.continueWaiting
        ⟨hsame.sends, hsame.messagesSent, hsame.lastSent, hsame.writeInterval⟩
    exact .kept (recvAnswer_turn_pace hdone h)
  · simp at h

/-! ### Whole runs -/

/-- After the readings listed, queries were sent at least an interval apart. -/
structure Mig.Paced (interval : ℕ) (readings : List Timespec) (s : Mig) : Prop where
  /-- The interval does not change. -/
  writeInterval : s.writeInterval = interval
  /-- The times of sending have been read from the clock. -/
  read : ∀ t ∈ s.sends.take s.messagesSent, t ∈ readings
  /-- The last of them is remembered. -/
  lastSent : 0 < interval → ∀ t ∈ (s.sends.take s.messagesSent).getLast?, s.lastSent = t.nsec
  /-- Consecutive queries are apart. -/
  apart : (s.sends.take s.messagesSent).IsChain fun t t' => t.time + interval ≤ t'.time

section Paced

variable {interval : ℕ} {readings : List Timespec} {s s' : Mig}

theorem Mig.Paced.of_samePace (h : s.Paced interval readings) (hsame : s.SamePace s')
    {readings' : List Timespec} (hle : readings ⊆ readings') : s'.Paced interval readings' := by
  obtain ⟨hinterval, hread, hlast, hapart⟩ := h
  rw [← hsame.sends, ← hsame.messagesSent] at hread hlast hapart
  rw [← hsame.lastSent] at hlast
  exact ⟨hsame.writeInterval.trans hinterval, fun t ht => hle (hread t ht), hlast, hapart⟩

theorem Mig.paced_initial (queries : Block) (count queryLimit : ℕ)
    (sends receives : List Timespec) (pairs : List PairTimespec) :
    (Mig.initial queries count queryLimit sends receives pairs).Paced
      (DnsTools.writeInterval queryLimit) [] := by
  have hallocated : (Mig.allocated queries count queryLimit sends receives pairs).Paced
      (DnsTools.writeInterval queryLimit) [] := by
    constructor <;> simp [Mig.allocated]
  have hsame : Mig.SamePace (Mig.allocated queries count queryLimit sends receives pairs)
      (Mig.initial queries count queryLimit sends receives pairs) :=
    Mig.SamePace.continueSending ⟨rfl, rfl, rfl, rfl⟩
  exact hallocated.of_samePace hsame (List.Subset.refl _)

/-- When the loop sends a query, the interval has passed since the last one. -/
theorem Mig.Paced.elapsed (h : s.Paced interval readings) {now : Option Timespec} {t : Timespec}
    (hclock : (readings ++ (now.toList ++ [t])).Pairwise fun t t' => t.time ≤ t'.time)
    (hdo : s.doSendQuery now = some true) {last : Timespec}
    (hlast : last ∈ (s.sends.take s.messagesSent).getLast?) : last.time + interval ≤ t.time := by
  obtain ⟨-, hnew, hacross⟩ := List.pairwise_append.mp hclock
  have hmem : last ∈ readings := h.read last (List.mem_of_getLast? hlast)
  have hlastTime : last.time ≤ t.time := hacross last hmem t (by simp)
  rw [Mig.doSendQuery] at hdo
  split at hdo
  · rename_i hfree
    rcases hfree with hzero | hfirst
    · have hinterval : interval = 0 := h.writeInterval.symm.trans hzero
      omega
    · -- there is no query before the first one
      simp [hfirst] at hlast
  · rename_i hfree
    obtain ⟨now', rfl, hpassed⟩ := Option.map_eq_some_iff.mp hdo
    have hpos : 0 < interval := by
      rw [← h.writeInterval]
      omega
    have hbefore : last.time ≤ now'.time := hacross last hmem now' (by simp)
    have hafter : now'.time ≤ t.time := by
      have hpair := (List.pairwise_append.mp hnew).2.2
      exact hpair now' (by simp) t (by simp)
    rw [decide_eq_true_iff, h.writeInterval, h.lastSent hpos last hlast] at hpassed
    have hle := passed_le hbefore
    omega

/-- **What a step keeps.** -/
theorem Mig.Paced.next (h : s.Paced interval readings) {i : MigInput}
    (hclock : (readings ++ i.readings).Pairwise fun t t' => t.time ≤ t'.time)
    (hstep : migStep s i = some s') : s'.Paced interval (readings ++ i.readings) := by
  cases migStep_pace hstep with
  | kept hsame => exact h.of_samePace hsame (List.subset_append_left _ _)
  | @sent now n t _ hdo hlt hsends hsent hlast hinterval =>
    have htake : s'.sends.take s'.messagesSent = s.sends.take s.messagesSent ++ [t] := by
      rw [hsends, hsent, Table.take_succ_set hlt]
    constructor
    · exact hinterval.trans h.writeInterval
    · intro t' ht'
      rw [htake, List.mem_append, List.mem_singleton] at ht'
      rcases ht' with ht' | rfl
      · exact List.mem_append_left _ (h.read t' ht')
      · exact List.mem_append_right _ (by simp [MigInput.readings])
    · intro hpos t' ht'
      rw [htake, List.getLast?_concat, Option.mem_some_iff] at ht'
      rw [← ht']
      exact hlast (h.writeInterval ▸ hpos)
    · rw [htake]
      refine h.apart.append (List.isChain_singleton t) fun last hmem t' ht' => ?_
      rw [List.head?_cons, Option.mem_some_iff] at ht'
      exact ht' ▸ h.elapsed hclock hdo hmem

end Paced

variable {queries : Block} {count queryLimit : ℕ} {sends receives : List Timespec}
  {pairs : List PairTimespec}

/-- **The loop keeps to its interval.** If the clock does not go back, queries are sent at least
`write_interval` nanoseconds apart, whatever the system calls answer. -/
theorem mig_paced {env : Mig → MigInput → Prop} {is : List MigInput} {s : Mig}
    (hrun : Run migStep env (Mig.initial queries count queryLimit sends receives pairs) is s)
    (hclock : (is.flatMap MigInput.readings).Pairwise fun t t' => t.time ≤ t'.time) :
    s.Paced (writeInterval queryLimit) (is.flatMap MigInput.readings) := by
  refine hrun.invariant_history (P := fun is s =>
    (is.flatMap MigInput.readings).Pairwise (fun t t' => t.time ≤ t'.time) →
      s.Paced (writeInterval queryLimit) (is.flatMap MigInput.readings))
    (fun _ => Mig.paced_initial ..) ?_ hclock
  intro is s i s' _ h _ hstep hclock
  rw [List.flatMap_append, List.flatMap_singleton] at hclock ⊢
  exact (h (List.pairwise_append.mp hclock).1).next hclock hstep

/-! ### The limit -/

/-- The queries sent keep to the limit of `L` queries in a second, up to the rounding of the
interval to a nanosecond. -/
structure Mig.Limited (L : ℕ) (s : Mig) : Prop where
  /-- Consecutive queries are apart by the interval, rounded to the nearest integer. -/
  apart : (s.sends.take s.messagesSent).IsChain fun t t' =>
    (t.time : ℤ) + round ((nanoseconds : ℚ) / L) ≤ t'.time
  /-- So `n` more queries take at least `n` times as long. -/
  rate : ∀ {i n : ℕ} {t t' : Timespec}, (s.sends.take s.messagesSent)[i]? = some t →
    (s.sends.take s.messagesSent)[i + n]? = some t' →
    (t.time : ℤ) + n * round ((nanoseconds : ℚ) / L) ≤ t'.time

/-- Entries of a chain with steps of at least `g` are apart by a multiple of it. -/
theorem time_add_mul_le {g : ℤ} {ts : List Timespec}
    (h : ts.IsChain fun t t' => (t.time : ℤ) + g ≤ t'.time) {i n : ℕ} {t t' : Timespec}
    (ht : ts[i]? = some t) (ht' : ts[i + n]? = some t') : (t.time : ℤ) + n * g ≤ t'.time := by
  induction n generalizing t' with
  | zero =>
    obtain rfl := Option.some.inj (ht.symm.trans ht')
    simp
  | succ n ih =>
    obtain ⟨hlt, hlast⟩ := List.getElem?_eq_some_iff.mp ht'
    have hprev := ih (List.getElem?_eq_getElem (show i + n < ts.length by omega))
    have hstep : (ts[i + n].time : ℤ) + g ≤ ts[i + (n + 1)].time := h.getElem (i + n) hlt
    have hmul : ((n + 1 : ℕ) : ℤ) * g = n * g + g := by
      push_cast
      ring
    rw [← hlast, hmul]
    omega

/-- Every run keeps to the limit if the clock does not go back. -/
def RateLimited (L : ℕ) : Prop :=
  ∀ {malloc : Malloc} {names queries : Block} {count : ℕ} {client : Option ClientId}
    {sends receives : List Timespec} {pairs : List PairTimespec} {is : List MigInput} {s : Mig},
    makeQueries malloc names count client = some (some queries) →
    sends.length = count → receives.length = count → pairs.length = count →
    Run migStep (fun _ _ => True) (Mig.initial queries count L sends receives pairs) is s →
    (is.flatMap MigInput.readings).Pairwise (fun t t' => t.time ≤ t'.time) →
    s.Limited L

theorem rateLimited_of_le {L : ℕ} (hL : 0 < L) (h : nearestInterval L ≤ writeInterval L) :
    RateLimited L := by
  intro malloc names queries count client sends receives pairs is s _ _ _ _ hrun hclock
  have hapart : (s.sends.take s.messagesSent).IsChain fun t t' =>
      (t.time : ℤ) + round ((nanoseconds : ℚ) / L) ≤ t'.time := by
    refine (mig_paced hrun hclock).apart.imp fun t t' hle => ?_
    rw [round_interval hL]
    omega
  exact ⟨hapart, time_add_mul_le hapart⟩

/-! ### Two queries in a hurry -/

/-- Two queries for the name `a`, as they lie in the buffer. -/
def twoQueries : Block :=
  ⟨frame (queryMessage none 0 [1, 97, 0]) ++ frame (queryMessage none 1 [1, 97, 0]),
    [(52, 2), (50, 2), (47, 3), (45, 2), (43, 2), (41, 2), (39, 2), (37, 2), (35, 2), (27, 8),
      (25, 2), (23, 2), (20, 3), (18, 2), (16, 2), (14, 2), (12, 2), (10, 2), (8, 2), (0, 8)]⟩

theorem makeQueries_twoQueries :
    makeQueries .zeroed singleName 2 none = some (some twoQueries) := by
  decide

/-- A run of two queries, with the limit `L`. -/
def hurriedMig (L : ℕ) : Mig :=
  .initial twoQueries 2 L (List.replicate 2 ⟨0, 0⟩) (List.replicate 2 ⟨0, 0⟩)
    (List.replicate 2 ⟨⟨0, 0⟩, 0, ⟨0, 0⟩⟩)

/-- The second query is sent as soon as the interval has passed. -/
def hurriedInputs (L : ℕ) : List MigInput :=
  [.select (.ready false true), .send none (some 19) (some ⟨1, 0⟩), .select (.ready false true),
    .send (some ⟨1, writeInterval L⟩) (some 19) (some ⟨1, writeInterval L⟩)]

/-- A query is sent whole, and its time is remembered. -/
theorem Mig.send_whole {s : Mig} {now : Option Timespec} {next : NextQuery} {query : List UInt8}
    {t : Timespec} {pair : PairTimespec} (hdo : s.doSendQuery now = some true)
    (hpos : 0 < s.writeInterval) (hnext : getNextQuery s.queries s.offset = some next)
    (hload : s.queries.load next.query next.size = some query)
    (hsends : s.messagesSent < s.sends.length) (hpair : s.pairs[s.messagesSent]? = some pair) :
    s.send now (some query.length) (some t)
      = some { s with
          sends := s.sends.set s.messagesSent t
          pairs := s.pairs.set s.messagesSent { pair with sent := t }
          messagesSent := s.messagesSent + 1
          offset := next.offset
          wire := s.wire ++ [query]
          lastSent := t.nsec }.continueSending := by
  obtain ⟨hlt, -⟩ := List.getElem?_eq_some_iff.mp hpair
  simp [Mig.send, hdo, hnext, hload, sentQuery, Table.write_of_lt hsends, Table.write_of_lt hlt,
    hpair, hpos, List.getElem?_set_self hlt]

/-- The state between the two queries, where the socket can be written. -/
def betweenMig (L : ℕ) : Mig :=
  { hurriedMig L with
    sends := [⟨1, 0⟩, ⟨0, 0⟩], pairs := [⟨⟨1, 0⟩, 0, ⟨0, 0⟩⟩, ⟨⟨0, 0⟩, 0, ⟨0, 0⟩⟩]
    offset := 27, messagesSent := 1, lastSent := (⟨1, 0⟩ : Timespec).nsec, point := .sending
    wire := [queryMessage none 0 [1, 97, 0]] }

/-- The second query is sent. -/
theorem doSendQuery_betweenMig {L : ℕ} (hL : writeInterval L < nanoseconds) :
    (betweenMig L).doSendQuery (some ⟨1, writeInterval L⟩) = some true := by
  rw [Mig.doSendQuery]
  split
  · rfl
  · rw [Option.map_some, Option.some.injEq, decide_eq_true_iff]
    show writeInterval L ≤ ((⟨1, writeInterval L⟩ : Timespec).nsec
      + (sizeModulus - (⟨1, 0⟩ : Timespec).nsec)) % sizeModulus
    simp only [Timespec.nsec, nanoseconds, sizeModulus] at *
    omega

theorem run_hurriedMig {L : ℕ} (hpos : 0 < writeInterval L) (hL : writeInterval L < nanoseconds) :
    ∃ s, Run migStep (fun _ _ => True) (hurriedMig L) (hurriedInputs L) s ∧
      s.sends.take s.messagesSent = [⟨1, 0⟩, ⟨1, writeInterval L⟩] := by
  have hready : migStep (hurriedMig L) (.select (.ready false true))
      = some { hurriedMig L with point := .sending } := rfl
  have hfirst := Mig.send_whole (s := { hurriedMig L with point := .sending }) (t := ⟨1, 0⟩)
    (show Mig.doSendQuery _ none = some true from if_pos (Or.inr rfl)) hpos
    (show getNextQuery _ _ = some ⟨8, 19, 27⟩ from rfl) rfl (show 0 < 2 by decide) rfl
  have hready' : migStep { betweenMig L with point := .selecting } (.select (.ready false true))
      = some (betweenMig L) := rfl
  have hsecond := Mig.send_whole (s := betweenMig L) (t := ⟨1, writeInterval L⟩)
    (doSendQuery_betweenMig hL) hpos (show getNextQuery _ _ = some ⟨35, 19, 54⟩ from rfl) rfl
    (show 1 < 2 by decide) rfl
  exact ⟨_, .cons trivial hready (.cons trivial hfirst (.cons trivial hready'
    (.single trivial hsecond))), rfl⟩

/-- If the interval is too short, it shows. -/
theorem exists_hurried {L : ℕ} (hL : 0 < L) (h : writeInterval L < nearestInterval L) :
    ∃ s, Run migStep (fun _ _ => True) (hurriedMig L) (hurriedInputs L) s ∧
      ((hurriedInputs L).flatMap MigInput.readings).Pairwise (fun t t' => t.time ≤ t'.time) ∧
      ¬s.Limited L := by
  have hshort : ¬(nanoseconds < L ∨ 2 * (nanoseconds % L) < L) := by
    rw [← nearestInterval_le_iff hL]
    exact Nat.not_le.mpr h
  have hmod := Nat.mod_lt nanoseconds hL
  have hquot : 0 < nanoseconds / L := Nat.div_pos (by omega) hL
  have hhalf : nanoseconds / L ≤ nanoseconds / 2 := Nat.div_le_div_left (by omega) Nat.two_pos
  have hpos : 0 < writeInterval L := by
    rw [writeInterval, if_neg (show ¬L = 0 by omega)]
    split <;> omega
  have hlt : writeInterval L < nanoseconds := by
    rw [nearestInterval_eq hL, if_pos (by omega)] at h
    have hsecond : nanoseconds / 2 < nanoseconds := by decide
    omega
  obtain ⟨s, hrun, hsends⟩ := run_hurriedMig hpos hlt
  refine ⟨s, hrun, ?_, fun hlimited => ?_⟩
  · show [⟨1, 0⟩, ⟨1, writeInterval L⟩, ⟨1, writeInterval L⟩].Pairwise
      fun t t' : Timespec => t.time ≤ t'.time
    simp [Timespec.time]
  · have hapart := hlimited.apart
    rw [hsends, List.isChain_cons_cons, round_interval hL] at hapart
    simp only [Timespec.time] at hapart
    omega

/-- **The limits that are kept.** Every run keeps to the limit exactly if the limit exceeds
`NANOSECONDS`, or the remainder of the division is less than half of it. -/
theorem rateLimited_iff {L : ℕ} (hL : 0 < L) :
    RateLimited L ↔ nanoseconds < L ∨ 2 * (nanoseconds % L) < L := by
  rw [← nearestInterval_le_iff hL]
  constructor
  · intro hlimited
    by_contra hle
    obtain ⟨s, hrun, hclock, hnot⟩ := exists_hurried hL (Nat.not_le.mp hle)
    exact hnot (hlimited makeQueries_twoQueries rfl rfl rfl hrun hclock)
  · exact rateLimited_of_le hL

/-- A limit that divides `NANOSECONDS`. -/
theorem rateLimited_iff_one : RateLimited 1 ↔ nanoseconds < 1 ∨ 2 * (nanoseconds % 1) < 1 :=
  rateLimited_iff Nat.one_pos

/-- With a limit of 7, the second query may be sent a nanosecond too early. -/
theorem seven_not_limited : ¬RateLimited 7 := by
  intro hlimited
  obtain ⟨s, hrun, hclock, hnot⟩ := exists_hurried (show 0 < 7 by decide) (by decide)
  exact hnot (hlimited makeQueries_twoQueries rfl rfl rfl hrun hclock)

end DnsTools
