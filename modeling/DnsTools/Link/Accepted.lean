import DnsTools.Analyser.Completes
import DnsTools.Analyser.Fit
import DnsTools.Link.Report

/-!
# The reports that grinder accepts

Grinder reads every report of mig, but it completes its charts only if an answer was received. To
build rates it also fits a line to the times of sending and to those of the answers, and for this it
needs `leastsq` to take two parameters for as many times.

What is not in the repository is the function `leastsq`. That of scipy does not take more parameters
than there are times (`Leastsq.Documented`). Where the question is what grinder itself does with the
lists of a report, an idealised `leastsq` is assumed, which returns for any data but none
(`Leastsq.TakesAny`).

## Main results

* `Mig.Tables.completes_process` — the condition for any `leastsq`
* `grinder_completes_iff` — the condition for an idealised one
* `spans_of_clock` — the times of a whole run are in order
-/

namespace DnsTools

open Python Memory

variable {s : Mig} {messages : List (List UInt8)}

theorem printedInts_ne_nil (pair : PairTimespec) : printedInts pair ≠ [] := by
  rw [printedInts]
  split_ifs
  · exact List.cons_ne_nil _ _
  · exact List.cons_ne_nil _ _

theorem Mig.Tables.receives_ne_nil (h : s.Tables messages) :
    s.data.receives ≠ [] ↔ 0 < s.messagesReceived := by
  rw [← h.length_data]
  exact List.length_pos_iff.symm

theorem Mig.Tables.length_sends (h : s.Tables messages) : s.data.sends.length = s.count := by
  rw [Mig.data, List.length_map, h.sends_length]

theorem Mig.Tables.sends_ne_nil (h : s.Tables messages) (hcount : 0 < s.count) :
    s.data.sends ≠ [] :=
  List.ne_nil_of_length_pos (h.length_sends.symm ▸ hcount)

/-- Grinder completes its work on the report of a run with queries if and only if there is an answer
and, to build rates, a line can be fitted to the times of sending and to those of the answers. -/
theorem Mig.Tables.completes_process (h : s.Tables messages) (hcount : 0 < s.count)
    (leastsq : Grinder.Leastsq) (floats : Grinder.Floats) {args : Grinder.Arguments}
    (hfrom : args.fromPoint = none) (hto : args.toPoint = none) (charts : Grinder.Charts)
    (i : ℕ) (label : Option String) (speed : Option ℤ) :
    ∃ text, s.report = some text ∧
      (Completes (Grinder.process leastsq floats args charts { i, text, label, speed }) ↔
        0 < s.messagesReceived ∧ (args.buildRates = true →
          (Grinder.Spans s.data.sends ∧ leastsq.takes 2 s.count = true) ∧
            (Grinder.Spans s.data.receives ∧ leastsq.takes 2 s.messagesReceived = true))) := by
  obtain ⟨text, hreport, hload⟩ := h.jload
  refine ⟨text, hreport, ?_⟩
  rw [← h.receives_ne_nil, ← h.length_sends, ← h.length_data]
  have hprinted : ∀ pair ∈ s.pairs.map printedInts, pair ≠ [] := by
    simp only [List.forall_mem_map]
    exact fun pair _ => printedInts_ne_nil pair
  have hiff := Grinder.completes_process leastsq floats args charts { i, text, label, speed } hload
    hfrom hto (h.sends_ne_nil hcount) hprinted
  exact hiff

section Runs

variable {malloc : Malloc} {names queries : Block} {count queryLimit : ℕ}
  {client : Option ClientId} {sends receives : List Timespec} {pairs : List PairTimespec}
  {is : List MigInput}

/-- **The reports that grinder accepts.** Without a fits section and without limits for the data,
grinder completes its work on the report of a run with queries if and only if the run has received
an answer and, to build rates, no first time lies behind a last one; here `leastsq` returns for any
data but none. -/
theorem grinder_completes_iff
    (hqueries : makeQueries malloc names count client = some (some queries))
    (hsends : sends.length = count) (hreceives : receives.length = count)
    (hpairs : pairs.length = count) (hcount : 0 < count)
    (hrun : Run migStep (fun _ _ => True)
      (Mig.initial queries count queryLimit sends receives pairs) is s)
    {leastsq : Grinder.Leastsq} (htakes : leastsq.TakesAny) (floats : Grinder.Floats)
    {args : Grinder.Arguments} (hfrom : args.fromPoint = none) (hto : args.toPoint = none)
    (charts : Grinder.Charts) (i : ℕ) (label : Option String) (speed : Option ℤ) :
    ∃ text, s.report = some text ∧
      (Completes (Grinder.process leastsq floats args charts { i, text, label, speed }) ↔
        0 < s.messagesReceived ∧ (args.buildRates = true →
          Grinder.Spans s.data.sends ∧ Grinder.Spans s.data.receives)) := by
  obtain ⟨messages, h, -, hcount'⟩ := mig_run hqueries hsends hreceives hpairs hrun
  obtain ⟨text, hreport, hiff⟩ :=
    h.completes_process (by omega) leastsq floats hfrom hto charts i label speed
  refine ⟨text, hreport, hiff.trans (and_congr_right fun hreceived => ?_)⟩
  have hsent : leastsq.takes 2 s.count = true := htakes _ _ (by omega)
  have hanswered : leastsq.takes 2 s.messagesReceived = true := htakes _ _ hreceived
  rw [hsent, hanswered, and_iff_left rfl, and_iff_left rfl]

/-- With a clock that does not go back, the times of a whole run are in order. -/
theorem spans_of_clock
    (hqueries : makeQueries malloc names count client = some (some queries))
    (hsends : sends.length = count) (hreceives : receives.length = count)
    (hpairs : pairs.length = count) (hcount : 0 < count)
    (hrun : Run migStep (fun _ _ => True)
      (Mig.initial queries count queryLimit sends receives pairs) is s)
    (hclock : (is.flatMap MigInput.readings).Pairwise fun t t' => t.nsec ≤ t'.nsec)
    (hfinished : s.point = .finished) :
    Grinder.Spans s.data.sends ∧ (0 < s.messagesReceived → Grinder.Spans s.data.receives) := by
  obtain ⟨messages, h, hc, hcount'⟩ := mig_run hqueries hsends hreceives hpairs hrun
  have hall : s.messagesSent = s.count := h.fits.secondLoop (by rw [hfinished]; rfl)
  have hsorted {stamps : List Timespec} (hsub : stamps.Sublist (is.flatMap MigInput.readings)) :
      (stamps.map fun t => (t.nsec : ℤ)).Pairwise (· ≤ ·) :=
    List.pairwise_map.mpr ((hclock.sublist hsub).imp Int.ofNat_le.mpr)
  constructor
  · refine Grinder.spans_of_sorted (h.sends_ne_nil (by omega)) ?_
    have hsends := hc.sends
    rw [List.take_of_length_le (by rw [hall, h.sends_length])] at hsends
    exact hsorted hsends
  · intro hreceived
    exact Grinder.spans_of_sorted (h.receives_ne_nil.mpr hreceived) (hsorted hc.receives)

end Runs

/-- Whole powers of ten, which are enough for a delay of one second. -/
def wholePowers : Grinder.Floats where
  floorLog10 delay := (Nat.toDigits 10 delay.toNat).length - 1
  ceilLog10 delay := (Nat.toDigits 10 (delay.toNat - 1)).length
  pow10 x := 10 ^ x.floor

/-- The exact solver, made to return for any data but none. -/
def anySolver : Grinder.Leastsq :=
  { Grinder.lineSolver with takes := fun _ entries => decide (0 < entries) }

theorem anySolver_takesAny : anySolver.TakesAny := fun _ _ h => decide_eq_true h

/-- Arguments without limits. -/
def plainArguments (buildRates : Bool) : Grinder.Arguments :=
  { details := [], fromPoint := none, toPoint := none, noFit := false, buildRates }

/-- The charts before the first input. -/
def noCharts : Grinder.Charts := ⟨[], [], [], [], [], [], [], []⟩

theorem grinder_completes_finalMig :
    ∃ text, finalMig.report = some text ∧
      Completes (Grinder.process anySolver wholePowers (plainArguments true) noCharts
        { i := 0, text, label := none, speed := none }) := by
  obtain ⟨text, hreport, hiff⟩ := grinder_completes_iff makeQueries_threeQueries rfl rfl rfl
    (by decide) run_finalMig anySolver_takesAny wholePowers
    (show (plainArguments true).fromPoint = none from rfl) rfl noCharts 0 none none
  exact ⟨text, hreport, hiff.mpr ⟨by decide, fun _ => by decide⟩⟩

/-- The queries are sent, and no reply comes. -/
def lostInputs : List MigInput :=
  [.select (.ready false true), .send none (some 19) (some ⟨1, 0⟩), .select (.ready false true),
    .send none (some 21) (some ⟨2, 0⟩), .select (.ready false true),
    .send none (some 19) (some ⟨4, 0⟩)] ++ List.replicate recvTimeout (.select .timeout)

/-- Where they lead to. -/
def lostMig : Mig :=
  { threeMig with
    sends := [⟨1, 0⟩, ⟨2, 0⟩, ⟨4, 0⟩], offset := 83, messagesSent := 3, attempts := 0
    pairs := [⟨⟨1, 0⟩, 0, ⟨0, 0⟩⟩, ⟨⟨2, 0⟩, 0, ⟨0, 0⟩⟩, ⟨⟨4, 0⟩, 0, ⟨0, 0⟩⟩], point := .finished
    wire := askedMessages }

theorem run_lostMig : Run migStep (fun _ _ => True) threeMig lostInputs lostMig :=
  .of_foldlM (by decide +kernel)

/-- The report of a run whose messages are all lost breaks grinder, with and without rates. -/
theorem grinder_rejects_lostMig :
    Run migStep (fun _ _ => True) threeMig lostInputs lostMig ∧ lostMig.point = .finished ∧
      ∃ text, lostMig.report = some text ∧ ∀ buildRates, ¬ Completes (Grinder.process anySolver
        wholePowers (plainArguments buildRates) noCharts
          { i := 0, text, label := none, speed := none }) := by
  obtain ⟨messages, h, -⟩ := mig_run makeQueries_threeQueries rfl rfl rfl run_lostMig
  refine ⟨run_lostMig, rfl, ?_⟩
  obtain ⟨text, hreport, hload⟩ := h.jload
  refine ⟨text, hreport, fun buildRates hcompletes => ?_⟩
  have hiff := Grinder.completes_process anySolver wholePowers (plainArguments buildRates)
    noCharts { i := 0, text, label := none, speed := none } hload rfl rfl
    (h.sends_ne_nil (by decide)) (by decide)
  exact (hiff.mp hcompletes).1 rfl

end DnsTools
