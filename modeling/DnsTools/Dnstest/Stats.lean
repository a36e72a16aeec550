import DnsTools.Dnstest.Data
import DnsTools.Lib.Truncation
import Mathlib.Algebra.BigOperators.Group.List.Basic

/-!
# What `stats` reports

`totalCount` counts the requests that were issued and `totalRTT` sums up the round trips of the
exchanges that succeeded. `stats` divides one by the other, after it has read them one after the
other while the workers go on. So its report is about two different sets of exchanges, and it is
true exactly if the two divisions round the difference away.

The counters are what they should be, modulo `2^64` (`Dnstest.Counted`). What `stats` reports is
therefore a function of what there was to see for it (`Sight.report`), and the rest is arithmetic.

## What there was to see

A `Sight` has the number of requests at the moment at which `stats` reads `totalCount`, the round
trips that are in `totalRTT` at the moment at which it reads that, and the time that has passed.
Nothing of it is computed by `stats`. The report is true of a sight if it says how many exchanges
there were each second and what their mean was; where there were none it is to say zero. `stats`
divides integers, so the question is not whether its quotients are exact, but whether they are the
right ones, rounded down.

## The condition

Let the number of requests exceed that of the exchanges by `d`. Dividing by a number that is larger
by `d` gives the same quotient exactly if what is left of the dividend, less `d` times the quotient,
is still what a division leaves (`tdiv_eq_iff` of `Truncation`). The same is true of the requests by
the seconds, and of a sum that has overflowed. `RoundedAway` puts the two together. It is met where
all requests have been answered (`roundedAway_of_completed`), and else only by chance.

## What is assumed

That a round trip is not negative, and neither is the time that has passed. The division by zero in
the first second is a state of its own.

## Main results

* `Sight.truthful_report_iff` — the arithmetic of `stats`
* `stats_truthful_iff` — exactly when the report of a run is true
-/

namespace DnsTools

open Truncation

/-! ### The report -/

/-- The sum of round-trip times. -/
def sumRTT (rtts : List Int64) : ℤ := (rtts.map Int64.toInt).sum

namespace Sight

variable (seen : Sight)

/-- `totalCount`. -/
def count : Int64 := Int64.ofNat seen.requested

/-- `totalRTT`. -/
def rttNs : Int64 := Int64.ofInt (sumRTT seen.rtts)

/-- The whole seconds since the start. -/
def seconds : ℤ := (seen.elapsed / nsInSec).toInt

/-- The outcome of `stats`. -/
def report : MainPoint :=
  if seen.count = 0 then .returned 0 0
  else if seen.elapsed / nsInSec = 0 then .divideByZero
  else .returned (seen.count / (seen.elapsed / nsInSec)) (seen.rttNs / seen.count)

/-- The report is about the exchanges that were completed: so many each second, and the mean of
their round trips. -/
def Truthful : MainPoint → Prop
  | .returned qps rtt =>
    if seen.rtts = [] then qps.toInt = 0 ∧ rtt.toInt = 0
    else 0 < seen.seconds ∧ qps.toInt = seen.rtts.length / seen.seconds ∧
      rtt.toInt = sumRTT seen.rtts / seen.rtts.length
  | _ => False

/-- How many more requests `totalCount` counts than exchanges were completed. -/
def drift : ℤ := seen.count.toInt - seen.rtts.length

/-- How far `totalRTT` is from the sum that it is modulo `2 ^ 64`. -/
def wrap : ℤ := seen.rttNs.toInt - sumRTT seen.rtts

/-- Nothing was requested or completed, or a second has passed and the two divisions round away
that they count more requests than exchanges. -/
def RoundedAway : Prop :=
  seen.count = 0 ∧ seen.rtts = [] ∨
    seen.count ≠ 0 ∧ 0 < seen.seconds ∧
      IsRemainder seen.count.toInt seen.seconds (seen.rtts.length % seen.seconds + seen.drift) ∧
      IsRemainder seen.rttNs.toInt seen.count.toInt
        (sumRTT seen.rtts % seen.rtts.length + seen.wrap -
          sumRTT seen.rtts / seen.rtts.length * seen.drift)

instance : Decidable seen.RoundedAway := inferInstanceAs (Decidable (_ ∨ _))

variable {seen}

theorem sumRTT_bounds {rtts : List Int64} (h : ∀ rtt ∈ rtts, 0 ≤ rtt.toInt) :
    0 ≤ sumRTT rtts ∧ sumRTT rtts ≤ rtts.length * (2 ^ 63 - 1) := by
  induction rtts with
  | nil => exact ⟨le_refl 0, by simp [sumRTT]⟩
  | cons rtt rtts ih =>
    have hrtt := h rtt List.mem_cons_self
    have hlt := rtt.toInt_lt
    obtain ⟨hlow, hhigh⟩ := ih fun r hr => h r (List.mem_cons_of_mem _ hr)
    rw [sumRTT, List.map_cons, List.sum_cons, List.length_cons]
    push_cast
    rw [sumRTT] at hlow hhigh
    constructor
    · omega
    · linarith

/-- A mean is one of the values a round trip may have. -/
theorem mean_bounds {rtts : List Int64} (h : ∀ rtt ∈ rtts, 0 ≤ rtt.toInt) :
    0 ≤ sumRTT rtts / rtts.length ∧ sumRTT rtts / rtts.length < 2 ^ 63 := by
  obtain ⟨hlow, hhigh⟩ := sumRTT_bounds h
  refine ⟨Int.ediv_nonneg hlow (by omega), ?_⟩
  rcases rtts.length.eq_zero_or_pos with hzero | hpos
  · rw [hzero, Int.natCast_zero, Int.ediv_zero]
    decide
  · refine Int.ediv_lt_of_lt_mul (by omega) ?_
    omega

/-- When seconds have passed it makes no difference whether any exchange was completed. -/
theorem truthful_returned_iff {qps rtt : Int64} (hseconds : 0 < seen.seconds) :
    seen.Truthful (.returned qps rtt) ↔
      qps.toInt = seen.rtts.length / seen.seconds ∧
        rtt.toInt = sumRTT seen.rtts / seen.rtts.length := by
  rw [Truthful]
  split_ifs with hnil
  · rw [hnil]
    simp [sumRTT]
  · rw [and_iff_right hseconds]

theorem seconds_nonneg (helapsed : 0 ≤ seen.elapsed) : 0 ≤ seen.seconds := by
  rw [seconds, Int64.toInt_div_of_ne_right _ _ (by decide)]
  exact Int.tdiv_nonneg (Int64.le_iff_toInt_le.mp helapsed) (by decide)

/-- **The arithmetic of `stats`.** The report is true exactly if what the divisions leave, with the
difference added to it, is still what a division leaves. -/
theorem truthful_report_iff (hnonneg : ∀ rtt ∈ seen.rtts, 0 ≤ rtt.toInt)
    (helapsed : 0 ≤ seen.elapsed) (hunread : seen.count = 0 → seen.elapsed = 0) :
    seen.Truthful seen.report ↔ seen.RoundedAway := by
  rw [report, RoundedAway]
  split_ifs with hcount hsecs
  case pos =>
    have hseconds : seen.seconds = 0 := by
      rw [seconds, hunread hcount]
      decide
    simp [Truthful, hcount, hseconds]
  case pos =>
    have hseconds : seen.seconds = 0 := by
      rw [seconds, hsecs]
      decide
    simp [Truthful, hcount, hseconds]
  case neg =>
    have hne : seen.seconds ≠ 0 := fun h => hsecs (Int64.toInt_inj.mp h)
    have hseconds : 0 < seen.seconds := lt_of_le_of_ne (seconds_nonneg helapsed) hne.symm
    have hone : seen.elapsed / nsInSec ≠ -1 := by
      intro h
      rw [seconds, h] at hseconds
      revert hseconds
      decide
    obtain ⟨hmean, hmean'⟩ := mean_bounds hnonneg
    rw [truthful_returned_iff hseconds, toInt_div_eq_iff_of_ne hsecs (.inr hone),
      toInt_div_eq_iff hcount hmean hmean']
    -- Both remainders, written with the number and the sum of the exchanges.
    have hqps : seen.count.toInt - seen.rtts.length / seen.seconds * seen.seconds =
        seen.rtts.length % seen.seconds + seen.drift := by
      have := Int.emod_add_ediv_mul seen.rtts.length seen.seconds
      rw [drift]
      omega
    have hrtt : seen.rttNs.toInt - sumRTT seen.rtts / seen.rtts.length * seen.count.toInt =
        sumRTT seen.rtts % seen.rtts.length + seen.wrap -
          sumRTT seen.rtts / seen.rtts.length * seen.drift := by
      have := Int.emod_add_ediv_mul (sumRTT seen.rtts) seen.rtts.length
      rw [drift, wrap, mul_sub]
      omega
    rw [← hqps, ← hrtt, ← seconds]
    simp [hcount, hseconds]

/-- Where every request counted was completed by an exchange, all that can be wrong is an overflow
of a counter. -/
theorem roundedAway_of_completed (hlength : seen.rtts.length = seen.requested)
    (hcount : seen.requested < 2 ^ 63) (hsum : 0 ≤ sumRTT seen.rtts)
    (hsum' : sumRTT seen.rtts < 2 ^ 63) (hseconds : 0 < seen.seconds) : seen.RoundedAway := by
  have hc : seen.count.toInt = seen.requested := Int64.toInt_ofNat_of_lt hcount
  have hr : seen.rttNs.toInt = sumRTT seen.rtts := Int64.toInt_ofInt_of_le (by omega) hsum'
  rw [RoundedAway]
  by_cases hzero : seen.count = 0
  · left
    refine ⟨hzero, List.length_eq_zero_iff.mp ?_⟩
    rw [hzero, Int64.toInt_zero] at hc
    omega
  · right
    have hpos : 0 < seen.requested := by
      have : seen.count.toInt ≠ 0 := fun h => hzero (Int64.toInt_inj.mp h)
      omega
    refine ⟨hzero, hseconds, ?_, ?_⟩
    · rw [drift, hc, hlength, sub_self, add_zero, ← Int.tmod_eq_emod_of_nonneg (by omega)]
      exact isRemainder_tmod hseconds.ne'
    · rw [wrap, drift, hc, hr, hlength, sub_self, sub_self, mul_zero, add_zero, sub_zero,
        ← Int.tmod_eq_emod_of_nonneg hsum]
      exact isRemainder_tmod (by omega)

end Sight

/-! ### The counters over a run -/

/-- What the main goroutine holds, it has seen. -/
def Sight.At (seen : Sight) : MainPoint → Prop
  | .waiting => seen.elapsed = 0
  | .counted count => count = seen.count ∧ count ≠ 0 ∧ seen.elapsed = 0
  | .summed count rttNs => count = seen.count ∧ count ≠ 0 ∧ rttNs = seen.rttNs
  | p => p = seen.report ∧ 0 ≤ seen.elapsed ∧ (seen.count = 0 → seen.elapsed = 0)

/-- The invariant of the counters. -/
structure Dnstest.Counted (dt : Dnstest) : Prop where
  /-- `totalCount` counts the requests. -/
  count : dt.totalCount = Int64.ofNat dt.requested
  /-- `totalRTT` sums up the round trips. -/
  rtt : dt.totalRTT = Int64.ofInt (sumRTT dt.completed)
  /-- Round trips are not negative. -/
  completed : ∀ rtt ∈ dt.completed, 0 ≤ rtt.toInt
  /-- Nor is one that is about to be added. -/
  adding : ∀ conn rtt, WorkerPoint.adding conn rtt ∈ dt.workers → 0 ≤ rtt.toInt
  /-- Nor are those that `stats` has seen. -/
  seen : ∀ rtt ∈ dt.seen.rtts, 0 ≤ rtt.toInt
  /-- What `stats` has seen. -/
  main : dt.seen.At dt.main

theorem sumRTT_append (rtts : List Int64) (rtt : Int64) :
    sumRTT (rtts ++ [rtt]) = sumRTT rtts + rtt.toInt := by
  simp [sumRTT]

namespace Dnstest.Counted

variable {setQuestion : SetQuestion} {dt dt₁ dt' : Dnstest} {p p' : WorkerPoint} {e : WorkerEvent}
  {w : ℕ}

theorem initial (cfg : Config) (domains : List (List Char)) : (newTest cfg domains).Counted := by
  constructor
  case count => rfl
  case rtt => rfl
  case completed => exact List.forall_mem_nil _
  case adding =>
    intro conn rtt hmem
    cases List.eq_of_mem_replicate hmem
  case seen => exact List.forall_mem_nil _
  case main => rfl

theorem worker (h : dt.Counted) (hworld : World dt (.worker w e)) (hw : dt.workers[w]? = some p)
    (hstep : WorkerStep setQuestion dt p e p' dt₁) :
    { dt₁ with workers := dt.workers.set w p' }.Counted := by
  -- The workers afterwards are those before and one that has gone on.
  have hadding : (∀ conn rtt, p' = .adding conn rtt → 0 ≤ rtt.toInt) →
      ∀ conn rtt, WorkerPoint.adding conn rtt ∈ dt.workers.set w p' → 0 ≤ rtt.toInt := by
    intro hp' conn rtt hmem
    rcases List.mem_or_eq_of_mem_set hmem with hmem | heq
    · exact h.adding conn rtt hmem
    · exact hp' conn rtt heq.symm
  have hmain := h.main
  cases hstep with
  | count conn =>
    refine ⟨?_, h.rtt, h.completed, hadding (by rintro _ _ ⟨⟩), h.seen, hmain⟩
    show dt.totalCount + 1 = Int64.ofNat (dt.requested + 1)
    rw [h.count, Int64.ofNat_add]
    rfl
  | read conn req resp rtt haccepts =>
    refine ⟨h.count, h.rtt, h.completed, hadding ?_, h.seen, hmain⟩
    rintro _ _ ⟨⟩
    exact Int64.le_iff_toInt_le.mp hworld
  | add conn rtt =>
    refine ⟨h.count, ?_, ?_, hadding (by rintro _ _ ⟨⟩), h.seen, hmain⟩
    · show dt.totalRTT + rtt = Int64.ofInt (sumRTT (dt.completed ++ [rtt]))
      rw [sumRTT_append, Int64.ofInt_add, h.rtt, Int64.ofInt_toInt]
    · intro rtt' hmem
      rcases List.mem_append.mp hmem with hmem | hmem
      · exact h.completed rtt' hmem
      · rw [List.mem_singleton.mp hmem]
        exact h.adding conn rtt (List.mem_of_getElem? hw)
  | _ => exact ⟨h.count, h.rtt, h.completed, hadding (by rintro _ _ ⟨⟩), h.seen, hmain⟩

theorem stats (h : dt.Counted) {e : MainEvent} (hworld : World dt (.main e))
    (hstep : statsStep dt dt.main e = some dt') : dt'.Counted := by
  obtain ⟨hcount, hrtt, hcompleted, hadding, hseen, hat⟩ := h
  generalize hp : dt.main = p at hstep hat
  revert hstep hat
  fun_cases statsStep dt p e <;> intro hstep hat
  case case1 count seen hzero =>
    cases hstep
    have hread : dt.seen.elapsed = 0 := hat
    refine ⟨hcount, hrtt, hcompleted, hadding, hcompleted, ?_, ?_, fun _ => hread⟩
    · exact (if_pos (hcount ▸ hzero : Int64.ofNat dt.requested = 0)).symm
    · show 0 ≤ dt.seen.elapsed
      rw [hread]
      exact Int64.le_refl _
  case case2 count seen hzero =>
    cases hstep
    exact ⟨hcount, hrtt, hcompleted, hadding, hseen, hcount, hzero, hat⟩
  case case3 count =>
    cases hstep
    obtain ⟨hread, hzero, -⟩ := hat
    exact ⟨hcount, hrtt, hcompleted, hadding, hcompleted, hread, hzero, hrtt⟩
  case case4 count rttNs elapsed seen hsecs =>
    cases hstep
    obtain ⟨rfl, hzero, rfl⟩ := hat
    refine ⟨hcount, hrtt, hcompleted, hadding, hseen, ?_, hworld.1, fun h => absurd h hzero⟩
    exact ((if_neg hzero).trans (if_pos hsecs)).symm
  case case5 count rttNs elapsed seen hsecs qps =>
    cases hstep
    obtain ⟨rfl, hzero, rfl⟩ := hat
    refine ⟨hcount, hrtt, hcompleted, hadding, hseen, ?_, hworld.1, fun h => absurd h hzero⟩
    exact ((if_neg hzero).trans (if_neg hsecs)).symm
  case case6 => cases hstep

/-- The invariant survives every step. -/
theorem step (h : dt.Counted) {i : Event} (hworld : World dt i)
    (hstep : dnstestStep setQuestion dt i = some dt') : dt'.Counted := by
  rcases dnstestStep_cases hstep with ⟨w, e, p, p', dt₁, rfl, -, hw, hop, rfl⟩ | ⟨e, rfl, hop⟩
  · exact h.worker hworld hw hop
  · exact h.stats hworld hop

theorem run {cfg : Config} {domains : List (List Char)} {events : List Event}
    (hrun : Run (dnstestStep setQuestion) World (newTest cfg domains) events dt) : dt.Counted :=
  hrun.invariant (fun _ _ _ h hworld hstep => h.step hworld hstep) (initial cfg domains)

/-- Once `stats` has ended, its report is that of what it has seen. -/
theorem main_eq_report (h : dt.Counted) (hended : dt.main.ended = true) :
    dt.main = dt.seen.report ∧ 0 ≤ dt.seen.elapsed ∧ (dt.seen.count = 0 → dt.seen.elapsed = 0) := by
  have hat := h.main
  cases hp : dt.main with
  | returned qps rtt => rwa [hp] at hat
  | divideByZero => rwa [hp] at hat
  | _ => rw [hp] at hended; cases hended

end Dnstest.Counted

/-! ### The report of a run -/

/-- **When the report of `stats` is true.** In every run, whatever the workers have done before and
while `stats` read the counters: it returns, and reports the rate and the mean round trip of the
exchanges completed, exactly if nothing was requested, or a whole second has passed and the two
divisions round away what the counters differ by. -/
theorem stats_truthful_iff {setQuestion : SetQuestion} {cfg : Config} {domains : List (List Char)}
    {events : List Event} {dt : Dnstest}
    (hrun : Run (dnstestStep setQuestion) World (newTest cfg domains) events dt)
    (hended : dt.main.ended = true) : dt.seen.Truthful dt.main ↔ dt.seen.RoundedAway := by
  have hcounted := Dnstest.Counted.run hrun
  obtain ⟨hmain, helapsed, hunread⟩ := hcounted.main_eq_report hended
  rw [hmain]
  exact Sight.truthful_report_iff hcounted.seen helapsed hunread

/-- Where the limit lasts a second `stats` does not divide by zero. -/
theorem returned_of_second {setQuestion : SetQuestion} {cfg : Config} {domains : List (List Char)}
    {events : List Event} {dt : Dnstest}
    (hrun : Run (dnstestStep setQuestion) World (newTest cfg domains) events dt)
    (hlimit : nsInSec ≤ limitDuration cfg.limit) : dt.main ≠ .divideByZero := by
  refine hrun.invariant_history (P := fun _ dt => dt.main ≠ .divideByZero) (by rintro ⟨⟩) ?_
  intro is s i s' hbefore hmain hworld hstep
  rcases dnstestStep_cases hstep with ⟨w, e, p, p', dt₁, -, -, -, hop, rfl⟩ | ⟨e, rfl, hop⟩
  · have : dt₁.main = s.main := by cases hop <;> rfl
    rwa [this]
  · revert hop
    generalize s.main = p
    fun_cases statsStep s p e <;> intro hop
    case case4 count rttNs elapsed seen hsecs =>
      -- The clock is not read before the limit is over.
      have hle := Int64.le_iff_toInt_le.mp hworld.2
      have hsecond := Int64.le_iff_toInt_le.mp hlimit
      rw [(setBy_of_run hbefore).limit] at hle
      rw [show nsInSec.toInt = 1000000000 from rfl] at hsecond
      have hzero := congrArg Int64.toInt hsecs
      rw [Int64.toInt_div_of_ne_right _ _ (by decide), show nsInSec.toInt = 1000000000 from rfl,
        Int64.toInt_zero, Int.tdiv_eq_ediv_of_nonneg (by omega)] at hzero
      omega
    case case6 => cases hop
    all_goals
      cases hop
      rintro ⟨⟩

/-- What `-l` has to be for `stats` not to divide by zero: at least a second, and no more seconds
than a `time.Duration` holds. -/
theorem returned_of_limit {setQuestion : SetQuestion} {cfg : Config} {domains : List (List Char)}
    {events : List Event} {dt : Dnstest}
    (hrun : Run (dnstestStep setQuestion) World (newTest cfg domains) events dt)
    (hlow : 1 ≤ cfg.limit.toInt) (hhigh : cfg.limit.toInt ≤ 9223372036) :
    dt.main ≠ .divideByZero := by
  refine returned_of_second hrun ?_
  have hduration : (limitDuration cfg.limit).toInt = cfg.limit.toInt * 1000000000 := by
    rw [limitDuration, Int64.toInt_mul, show nsInSec.toInt = 1000000000 from rfl]
    exact Int.bmod_eq_of_le (by omega) (by omega)
  rw [Int64.le_iff_toInt_le, hduration, show nsInSec.toInt = 1000000000 from rfl]
  omega

/-- One client and one worker. -/
def singleConfig (limit : Int64) : Config :=
  { clients := 1, workers := 1, limit, uncached := false, ecs := false }

/-- One request, answered after two seconds. -/
def answeredEvents : List Event :=
  [.worker 0 .receive, .worker 0 (.connect (some 0)), .worker 0 .count,
    .worker 0 (.getMsg 7 (0, 0, 0)), .worker 0 (.writeMsg true),
    .worker 0 (.readMsg (some ⟨7, 3⟩) 2000000000), .worker 0 .addRTT, .main .loadCount,
    .main .loadRTT, .main (.since 10000000000)]

theorem stats_truthful_iff_answered :
    ∃ dt, Run (dnstestStep plainQuestion) World (newTest (singleConfig 10) [['a', '.']])
        answeredEvents dt ∧ dt.main = .returned 0 2000000000 ∧ dt.seen.Truthful dt.main := by
  have hrun : Run (dnstestStep plainQuestion) World (newTest (singleConfig 10) [['a', '.']])
      answeredEvents _ := .of_foldlM_guarded rfl
  exact ⟨_, hrun, by decide, (stats_truthful_iff hrun rfl).mpr (by decide)⟩

/-- Two requests, of which the first has lost its reply and the second is answered after two
seconds. Then the ten seconds are over. -/
def lostReplyEvents : List Event :=
  [.worker 0 .receive, .worker 0 (.connect (some 0)), .worker 0 .count,
    .worker 0 (.getMsg 7 (0, 0, 0)), .worker 0 (.writeMsg true),
    .worker 0 (.readMsg none 5000000000), .worker 0 .close, .worker 0 .send, .worker 0 .receive,
    .worker 0 (.connect (some 1)), .worker 0 .count, .worker 0 (.getMsg 8 (0, 0, 0)),
    .worker 0 (.writeMsg true), .worker 0 (.readMsg (some ⟨8, 0⟩) 2000000000), .worker 0 .addRTT,
    .main .loadCount, .main .loadRTT, .main (.since 10000000000)]

/-- A request is under way when the limit is over, which is at once. -/
def noLimitEvents : List Event :=
  [.worker 0 .receive, .worker 0 (.connect (some 0)), .worker 0 .count, .main .loadCount,
    .main .loadRTT, .main (.since 50000)]

/-- The mean of one round trip of two seconds is reported as one second. And with no limit `stats`
divides by zero. -/
theorem stats_not_truthful :
    (∃ dt, Run (dnstestStep plainQuestion) World (newTest (singleConfig 10) [['a', '.']])
        lostReplyEvents dt ∧ dt.completed = [2000000000] ∧ dt.main = .returned 0 1000000000 ∧
        ¬ dt.seen.Truthful dt.main) ∧
      ∃ dt, Run (dnstestStep plainQuestion) World (newTest (singleConfig 0) [['a', '.']])
        noLimitEvents dt ∧ dt.main = .divideByZero ∧ ¬ dt.seen.Truthful dt.main := by
  have hlost : Run (dnstestStep plainQuestion) World (newTest (singleConfig 10) [['a', '.']])
      lostReplyEvents _ := .of_foldlM_guarded rfl
  have hnone : Run (dnstestStep plainQuestion) World (newTest (singleConfig 0) [['a', '.']])
      noLimitEvents _ := .of_foldlM_guarded rfl
  refine ⟨⟨_, hlost, rfl, by decide, ?_⟩, ⟨_, hnone, rfl, id⟩⟩
  rintro ⟨-, -, hrtt⟩
  revert hrtt
  decide

end DnsTools
