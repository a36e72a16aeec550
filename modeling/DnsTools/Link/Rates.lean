import DnsTools.Analyser.Rates
import DnsTools.Link.Accepted
import DnsTools.Mig.Pacing

/-!
# The rates of a run

`fit.py`, `preview.py` and grinder compute the rates of a report, each with a `calculate_fit` of its
own. The three functions are the same, so the tools agree about every file without fits.

For the report of a run of mig, `fit.py` prints the slopes of the best lines through the times of
sending and of the answers, also where grinder fails because no answer was received. After a single
answer it prints nothing: it does not ask for `--rates` as grinder does, and `leastsq` of scipy does
not fit a line to one point. The rate of sending that it prints keeps to the limit of mig: no best
line through times that are apart by the interval is steeper than one query for each interval.

Of `leastsq`, which is not in the repository, it is assumed that it takes the parameters that its
documentation says, and that what it returns is exact.

## Main results

* `rates_of_run` — what `fit.py` prints for a run
* `Fit.tools_agree` — the three tools about a file
-/

namespace DnsTools

/-- `preview.py` and `fit.py` read what grinder does, but for the fits. -/
theorem Fit.load_of_jload {text : List Char} {data : Analyser.Data} {fits : Analyser.Fits}
    (h : Grinder.jload text = some (data, fits)) : Preview.load text = .ok data := by
  obtain ⟨json, hjson, h⟩ := Option.bind_eq_some_iff.mp h
  obtain ⟨members, hmembers, h⟩ := Option.bind_eq_some_iff.mp h
  obtain ⟨fits', -, h⟩ := Option.bind_eq_some_iff.mp h
  obtain ⟨sends, -, h⟩ := Option.bind_eq_some_iff.mp h
  obtain ⟨receives, -, h⟩ := Option.bind_eq_some_iff.mp h
  obtain ⟨data', hdata, h⟩ := Option.bind_eq_some_iff.mp h
  obtain ⟨rfl, -⟩ := Prod.mk.inj (Option.some.inj h)
  have hload : Analyser.jload text = some data' := by
    simp only [Analyser.jload, hjson, hmembers, Option.bind_eq_bind, Option.bind_some, hdata]
  rw [Preview.load, hload]

/-! ### The report of a run -/

open Memory LeastSquares

/-- The times of a run as points, in seconds from the first query, with the numbers of the
messages. -/
def Mig.dataPoints (s : Mig) (timestamps : List ℤ) : List (ℚ × ℚ) :=
  Grinder.asData (s.data.sends.head?.getD 0) (Grinder.numbered timestamps)

/-- What `fit.py` prints tells the rates of a run. -/
structure Mig.Rated (interval : ℕ) (s : Mig) (output : Fit.Output) : Prop where
  /-- The rate of sending is the slope of the best line through the times of sending. -/
  send : ∃ line, IsBest line (s.dataPoints s.data.sends) ∧ line.2 = output.send
  /-- That of receiving is zero without answers. -/
  recv_none : s.messagesReceived = 0 → output.recv = 0
  /-- With two answers or more, it is the slope of the best line through their times. -/
  recv : 2 ≤ s.messagesReceived →
    ∃ line, IsBest line (s.dataPoints s.data.receives) ∧ line.2 = output.recv
  /-- As many messages are lost as mig prints. -/
  lost : output.lost = s.lost
  /-- The rate of sending keeps to the interval. -/
  limit : 0 < interval → output.send ≤ (nanoseconds : ℚ) / interval

variable {s : Mig} {malloc : Malloc} {names queries : Block} {count queryLimit : ℕ}
  {client : Option ClientId} {sends receives : List Timespec} {pairs : List PairTimespec}
  {is : List MigInput} {leastsq : Grinder.Leastsq}

theorem nsec_eq_time {t : Timespec} (h : t.time < 2 ^ 63) : t.nsec = t.time := by
  rw [Timespec.nsec_eq, Nat.mod_eq_of_lt]
  rw [sizeModulus]
  omega

/-- Where all queries have been sent, the times in the report are apart by the interval. -/
theorem sends_apart (hrun : Run migStep (fun _ _ => True)
      (Mig.initial queries count queryLimit sends receives pairs) is s)
    (hclock : (is.flatMap MigInput.readings).Pairwise fun t t' => t.time ≤ t'.time)
    (htimes : ∀ t ∈ is.flatMap MigInput.readings, t.time < 2 ^ 63)
    (hall : s.sends.length ≤ s.messagesSent) :
    s.data.sends.IsChain fun t t' : ℤ => t + writeInterval queryLimit ≤ t' := by
  have hpaced := mig_paced hrun hclock
  have hread := hpaced.read
  have hapart := hpaced.apart
  rw [List.take_of_length_le hall] at hread hapart
  rw [Mig.data, List.isChain_map]
  refine hapart.imp_of_mem_imp fun t t' ht ht' hle => ?_
  rw [nsec_eq_time (htimes t (hread t ht)), nsec_eq_time (htimes t' (hread t' ht'))]
  exact_mod_cast hle

/-- **The rates of a run.** For the report of a finished run with two queries or more, with a clock
that does not go back, `fit.py` prints the slopes of the best lines and the number of lost messages,
and with a limit the rate of sending is at most one query for each interval; unless there is exactly
one answer, when `leastsq` raises a `TypeError`. -/
theorem rates_of_run (hdocumented : leastsq.Documented) (hexact : leastsq.Exact)
    (hqueries : makeQueries malloc names count client = some (some queries))
    (hsends : sends.length = count) (hreceives : receives.length = count)
    (hpairs : pairs.length = count) (hcount : 2 ≤ count)
    (hrun : Run migStep (fun _ _ => True)
      (Mig.initial queries count queryLimit sends receives pairs) is s)
    (hclock : (is.flatMap MigInput.readings).Pairwise fun t t' => t.time ≤ t'.time)
    (htimes : ∀ t ∈ is.flatMap MigInput.readings, t.time < 2 ^ 63)
    (hfinished : s.point = .finished) :
    ∃ text, s.report = some text ∧
      (s.messagesReceived = 1 → Fit.main leastsq text = .error .typeError) ∧
      (s.messagesReceived ≠ 1 → ∃ output, Fit.main leastsq text = .ok output ∧
        s.Rated (writeInterval queryLimit) output) := by
  have hnsec : (is.flatMap MigInput.readings).Pairwise fun t t' => t.nsec ≤ t'.nsec := by
    refine hclock.imp_of_mem fun {t t'} ht ht' hle => ?_
    rwa [nsec_eq_time (htimes t ht), nsec_eq_time (htimes t' ht')]
  obtain ⟨hspans, hspans'⟩ := spans_of_clock hqueries hsends hreceives hpairs (by omega) hrun hnsec
    hfinished
  obtain ⟨messages, h, -, hcount'⟩ := mig_run hqueries hsends hreceives hpairs hrun
  have hall : s.messagesSent = s.count := h.fits.secondLoop (by rw [hfinished]; rfl)
  obtain ⟨text, hreport, hjload⟩ := h.jload
  have hlength : s.data.sends.length = count := h.length_sends.trans hcount'
  -- The rate of sending.
  have htakes : leastsq.takes 2 s.data.sends.length = true :=
    (hdocumented ..).trans (decide_eq_true (by omega))
  obtain ⟨send, hsend⟩ := Fit.exists_rateOf hspans htakes (s.data.sends.head?.getD 0)
  have hmain : Fit.main leastsq text =
      (Fit.recvRate leastsq s.data.receives (s.data.sends.head?.getD 0)).bind fun recv =>
        .ok { send, recv, lost := s.data.sends.length - s.data.receives.length } := by
    rw [Fit.main, Fit.load_of_jload hjload, Python.ok_bind, Python.index_zero hspans.1,
      Python.ok_bind]
    rw [List.head?_eq_some_head hspans.1, Option.getD_some] at hsend ⊢
    rw [hsend, Python.ok_bind]
    rfl
  refine ⟨text, hreport, fun hone => ?_, fun hone => ?_⟩
  · -- A line is not fitted to a single answer.
    have hreceived : 0 < s.messagesReceived := by omega
    have hne : s.data.receives ≠ [] := h.receives_ne_nil.mpr hreceived
    have hfalse : leastsq.takes 2 s.data.receives.length = false := by
      rw [hdocumented, h.length_data, hone]
      rfl
    rw [hmain, Fit.recvRate, List.isEmpty_eq_false_iff.mpr hne, if_neg Bool.false_ne_true,
      Fit.rateOf_eq_error (hspans' hreceived) hfalse]
    rfl
  -- The rate of receiving.
  obtain ⟨recv, hrecv⟩ :
      ∃ recv, Fit.recvRate leastsq s.data.receives (s.data.sends.head?.getD 0) = .ok recv := by
    rw [Fit.recvRate]
    by_cases hnone : s.data.receives = []
    · exact ⟨0, by rw [hnone]; rfl⟩
    · have hreceived := h.receives_ne_nil.mp hnone
      have htwo : leastsq.takes 2 s.data.receives.length = true := by
        rw [hdocumented, h.length_data, decide_eq_true_iff]
        omega
      rw [List.isEmpty_eq_false_iff.mpr hnone]
      exact Fit.exists_rateOf (hspans' hreceived) htwo _
  rw [hrecv] at hmain
  refine ⟨_, hmain, ?_⟩
  constructor
  case send =>
    exact ⟨_, Fit.isBest_lineOf hexact (by omega) _, (Fit.rateOf_eq_ok.mp hsend).2⟩
  case recv_none =>
    intro hzero
    have hnone : s.data.receives = [] :=
      not_not.mp fun hne => (h.receives_ne_nil.mp hne).ne' hzero
    rw [hnone] at hrecv
    exact (Except.ok.inj hrecv).symm
  case recv =>
    intro htwo
    have hne : s.data.receives ≠ [] := h.receives_ne_nil.mpr (by omega)
    rw [Fit.recvRate, List.isEmpty_eq_false_iff.mpr hne] at hrecv
    refine ⟨_, Fit.isBest_lineOf hexact ?_ _, (Fit.rateOf_eq_ok.mp hrecv).2⟩
    rwa [h.length_data]
  case lost =>
    have hle := h.received_le
    show (s.data.sends.length : ℤ) - s.data.receives.length = s.lost
    rw [h.length_data, hlength, Mig.lost]
    omega
  case limit =>
    intro hgap
    have hapart := sends_apart hrun hclock htimes (by rw [hall, h.sends_length])
    exact Fit.rateOf_le hexact (by omega) hgap hapart hsend

/-- Two queries with a limit of one, sent after one second and after two, with replies after three
and four. -/
def steadyInputs : List MigInput :=
  [.select (.ready false true), .send none (some 19) (some ⟨1, 0⟩), .select (.ready false true),
    .send (some ⟨2, 0⟩) (some 19) (some ⟨2, 0⟩), .select (.ready true false),
    .recv (.datagram ⟨List.replicate 12 0, 0, some ⟨3, 0⟩⟩),
    .recv (.datagram ⟨0 :: 1 :: List.replicate 10 0, 1, some ⟨4, 0⟩⟩), .recv .again]

/-- Where they lead to. -/
def steadyMig : Mig :=
  { hurriedMig 1 with
    sends := [⟨1, 0⟩, ⟨2, 0⟩], receives := [⟨3, 0⟩, ⟨4, 0⟩]
    pairs := [⟨⟨1, 0⟩, 1, ⟨3, 0⟩⟩, ⟨⟨2, 0⟩, 1, ⟨4, 0⟩⟩], readSocket := true, offset := 54
    messagesSent := 2, messagesReceived := 2, lastSent := 2000000000, point := .finished
    wire := [queryMessage none 0 [1, 97, 0], queryMessage none 1 [1, 97, 0]] }

theorem run_steadyMig :
    Run migStep (fun _ _ => True) (hurriedMig 1) steadyInputs steadyMig :=
  .of_foldlM (by decide)

theorem rates_of_run_steadyMig :
    ∃ text output, steadyMig.report = some text ∧
      Fit.main Grinder.lineSolver text = .ok output ∧ steadyMig.Rated 1000000000 output := by
  obtain ⟨text, hreport, -, hrated⟩ := rates_of_run Grinder.lineSolver_documented
    Grinder.lineSolver_exact makeQueries_twoQueries rfl rfl rfl (le_refl 2) run_steadyMig
    (by decide) (by decide) rfl
  obtain ⟨output, houtput⟩ := hrated (by decide)
  exact ⟨text, output, hreport, houtput⟩

/-! ### The three tools -/

namespace Fit

open Python

variable {floats : Grinder.Floats} {args : Grinder.Arguments} {charts charts' : Grinder.Charts}
  {input : Grinder.Input} {data : Analyser.Data} {fits : Analyser.Fits}

/-- Without fits grinder takes the slope of the line through all messages. -/
theorem fitRates_nil {timestamps : List ℤ} {start : ℤ}
    {s : Grinder.FitLoop} (hrates : args.buildRates = true)
    (h : Grinder.fitRates leastsq args timestamps start [] = .ok s) :
    ∃ rate, rateOf leastsq timestamps start = .ok rate ∧ s.rate = some rate := by
  obtain ⟨s₀, hs₀, h⟩ := exists_of_bind_eq_ok h
  obtain rfl := Except.ok.inj hs₀
  rw [if_pos ⟨rfl, hrates⟩] at h
  obtain ⟨x, hx, h⟩ := exists_of_bind_eq_ok h
  obtain ⟨rate, hrate, h⟩ := exists_of_bind_eq_ok h
  obtain rfl := Except.ok.inj h
  refine ⟨rate, ?_, rfl⟩
  rw [rateOf, hx, ok_bind, hrate]

/-- **The three tools agree.** About a file without fits that grinder accepts with `--rates`: the
points that it makes are those of the rates that `fit.py` prints, and `preview.py` prints the rate
of sending, rounded, and the same number of lost messages. -/
theorem tools_agree (hload : Grinder.jload input.text = some (data, fits))
    (hfits : args.noFit = true ∨ fits = ⟨[], []⟩) (hfrom : args.fromPoint = none)
    (hto : args.toPoint = none) (hrates : args.buildRates = true)
    (hprocess : Grinder.process leastsq floats args charts input = .ok charts') :
    ∃ output, main leastsq input.text = .ok output ∧
      charts'.reference = charts.reference ++ [⟨output.send, output.send⟩] ∧
      charts'.receiving = charts.receiving ++ [⟨output.send, output.recv⟩] ∧
      ∀ low high test, Preview.main leastsq input.text low high test = .ok
        { rate := Preview.rateRound output.send
          lost := output.lost
          next := Preview.rateRound
            (Preview.nextRate output.send output.lost low high test) } := by
  have hnone : (if args.noFit then ⟨[], []⟩ else fits) = (⟨[], []⟩ : Analyser.Fits) := by
    rcases hfits with hno | rfl
    · rw [if_pos hno]
    · exact ite_self _
  rw [Grinder.process, hload, hfrom, hto] at hprocess
  simp only [ok_bind, slice_none, hnone] at hprocess
  obtain ⟨sending, hsending, h⟩ := exists_of_bind_eq_ok hprocess
  obtain ⟨receiving, hreceiving, h⟩ := exists_of_bind_eq_ok h
  obtain ⟨sent, -, h⟩ := exists_of_bind_eq_ok h
  obtain ⟨sendingRate, -, h⟩ := exists_of_bind_eq_ok h
  obtain ⟨received, -, h⟩ := exists_of_bind_eq_ok h
  obtain ⟨receivingRate, -, h⟩ := exists_of_bind_eq_ok h
  obtain ⟨series, -, h⟩ := exists_of_bind_eq_ok h
  obtain ⟨queue, -, h⟩ := exists_of_bind_eq_ok h
  obtain rfl := Except.ok.inj h
  obtain ⟨send, hsend, hsendRate⟩ := fitRates_nil hrates hsending
  obtain ⟨recv, hrecv, hrecvRate⟩ := fitRates_nil hrates hreceiving
  have hsends := (rateOf_eq_ok.mp hsend).1.1.1
  have hreceives := (rateOf_eq_ok.mp hrecv).1.1.1
  have hstart : data.sends.head?.getD 0 = data.sends.head hsends := by
    rw [List.head?_eq_some_head hsends, Option.getD_some]
  rw [hstart] at hsend hrecv
  have hmain : main leastsq input.text =
      .ok { send, recv, lost := data.sends.length - data.receives.length } := by
    rw [main, load_of_jload hload, ok_bind, index_zero hsends, ok_bind, hsend, ok_bind, recvRate,
      List.isEmpty_eq_false_iff.mpr hreceives, if_neg Bool.false_ne_true, hrecv]
    rfl
  refine ⟨_, hmain, ?_, ?_, preview_of_fit hmain⟩
  all_goals simp only [hsendRate, hrecvRate, Grinder.Charts.addRates, hrates]

/-- About the report of `steadyMig`. -/
theorem tools_agree_steadyMig :
    ∃ text output charts, steadyMig.report = some text ∧
      Grinder.process Grinder.lineSolver wholePowers (plainArguments true) noCharts
        { i := 0, text, label := none, speed := none } = .ok charts ∧
      main Grinder.lineSolver text = .ok output ∧
      charts.receiving = [⟨output.send, output.recv⟩] := by
  obtain ⟨messages, h, -⟩ := mig_run makeQueries_twoQueries rfl rfl rfl run_steadyMig
  obtain ⟨text, hreport, hiff⟩ := h.completes_process (by decide) Grinder.lineSolver wholePowers
    (show (plainArguments true).fromPoint = none from rfl) rfl noCharts 0 none none
  obtain ⟨text', hreport', hjload⟩ := h.jload
  obtain rfl := Option.some.inj (hreport.symm.trans hreport')
  obtain ⟨charts, hcharts, -⟩ := hiff.mpr ⟨by decide, fun _ => by decide⟩
  obtain ⟨output, hmain, -, hreceiving, -⟩ :=
    tools_agree hjload (.inr rfl) rfl rfl rfl hcharts
  exact ⟨text, output, charts, hreport, hcharts, hmain, hreceiving⟩

end Fit

end DnsTools
