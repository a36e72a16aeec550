import DnsTools.Analyser.Grinder

/-!
# The loop over the inputs of grinder

What `main` of `grinder.py` does with one input, before it writes the charts. The rates that it
prints on the way are those of the charts.
-/

namespace DnsTools

namespace Grinder

open Python

/-- The arguments that the loop looks at. -/
structure Arguments where
  /-- `details`. -/
  details : List String
  /-- `from_point`. -/
  fromPoint : Option ℤ
  /-- `to_point`. -/
  toPoint : Option ℤ
  /-- `no_fit`. -/
  noFit : Bool
  /-- `build_rates`. -/
  buildRates : Bool
deriving DecidableEq, Repr

/-- An input. -/
structure Input where
  /-- `i`. -/
  i : ℕ
  /-- What the file `name` contains. -/
  text : List Char
  /-- `label`. -/
  label : Option String
  /-- `speed`. -/
  speed : Option ℤ
deriving DecidableEq, Repr

/-- What the loop collects. -/
structure Charts where
  /-- `counts`. -/
  counts : List Series
  /-- `rates`. -/
  rates : List Series
  /-- `processing`. -/
  processing : List Series
  /-- `queue`. -/
  queue : List Series
  /-- The points of `reference_series`. -/
  reference : List Point
  /-- The points of `receiving_series`. -/
  receiving : List Point
  /-- The points of `sending_labels_series`. -/
  sendingLabels : List Point
  /-- The points of `receiving_labels_series`. -/
  receivingLabels : List Point
deriving DecidableEq, Repr

/-- `__COLORS`. -/
def colors : List String :=
  ["#7cb5ec", "#434348", "#90ed7d", "#f7a35c", "#8085e9", "#f15c80", "#e4d354", "#8085e8",
    "#8d4653", "#91e8e1"]

/-- `__COLORS[i % len(__COLORS)]`. -/
def color (i : ℕ) : String := colors.get ⟨i % colors.length, Nat.mod_lt i (by decide)⟩

/-- `(details[i] if i < len(details) else "") or label`. -/
def Input.caption (input : Input) (args : Arguments) : Option String :=
  let detail := args.details.getD input.i ""
  if detail = "" then input.label else some detail

/-- `additional`, as it is printed behind the name of a line. -/
def Input.additional (input : Input) (args : Arguments) : String :=
  match input.caption args with
  | none => "None"
  | some "" => ""
  | some caption => " (" ++ caption ++ ")"

/-- The parameters of a fit. -/
def asParams (fit : Json) : Py (List (List ℚ)) :=
  match Analyser.asList fit with
  | some vs =>
    match vs.mapM fun v => (Analyser.asList v).bind (·.mapM Json.numberValue) with
    | some params => .ok params
    | none => .error .typeError
  | none => .error .typeError

/-- What the loops over the fits collect. -/
structure FitLoop where
  /-- `fits_sent_count`, or `fits_received_count`. -/
  counts : List Series
  /-- `fits_sending_rate`, or `fits_receiving_rate`. -/
  rates : List Series
  /-- `sending_rate`, or `receiving_rate`. -/
  rate : Option ℚ

/-- A round of the loops over the fits. -/
def fitRound (leastsq : Leastsq) (args : Arguments) (timestamps : List ℤ) (start : ℤ)
    (s : FitLoop) (fit : Json) : Py FitLoop := do
  let params ← asParams fit
  let (count, rate) ← makeFit leastsq timestamps start params
  let found := params.isEmpty ∧ s.rate.isNone ∧ args.buildRates ∧ ¬ rate.values.isEmpty
  return { counts := s.counts ++ [count]
           rates := s.rates ++ [rate]
           rate := if found then (rate.values.head?).map (·.y) else s.rate }

/-- The loops over the fits, and the rate of a straight line if they find none. -/
def fitRates (leastsq : Leastsq) (args : Arguments) (timestamps : List ℤ) (start : ℤ)
    (fits : List Json) : Py FitLoop := do
  let s ← fits.foldlM (fitRound leastsq args timestamps start)
    { counts := [], rates := [], rate := none }
  if s.rate.isNone ∧ args.buildRates then
    let x ← calculateFit leastsq timestamps start []
    return { s with rate := some (← index x 1) }
  else return s

/-- The labels of a rate. -/
def Input.labels (input : Input) (rate : ℚ) : List Point :=
  (input.speed.map fun speed => Point.mk speed rate).toList

/-- The charts of the rates, with `--rates`. -/
def Charts.addRates (charts : Charts) (args : Arguments) (input : Input)
    (sending receiving : Option ℚ) : Charts :=
  match args.buildRates, sending, receiving with
  | true, some sending, some receiving =>
    { charts with
      reference := charts.reference ++ [Point.mk sending sending]
      receiving := charts.receiving ++ [Point.mk sending receiving]
      sendingLabels := charts.sendingLabels ++ input.labels sending
      receivingLabels := charts.receivingLabels ++ input.labels receiving }
  | true, some sending, none =>
    { charts with
      reference := charts.reference ++ [Point.mk sending sending]
      sendingLabels := charts.sendingLabels ++ input.labels sending }
  | _, _, _ => charts

/-- The body of the loop. Without messages sent there is no `start`, but then no function looks at
it before one of them fails. -/
def process (leastsq : Leastsq) (floats : Floats) (args : Arguments) (charts : Charts)
    (input : Input) : Py Charts := do
  let (data, fits) ← match jload input.text with
    | some loaded => .ok loaded
    | none => .error .valueError
  let fits := if args.noFit then { sends := [], receives := [] } else fits
  let sends := slice args.fromPoint args.toPoint data.sends
  let receives := slice args.fromPoint args.toPoint data.receives
  let pairs := slice args.fromPoint args.toPoint data.pairs
  let start := sends.head?.getD 0
  let sendColor := color (2 * input.i)
  let receiveColor := color (2 * input.i + 1)
  let additional := input.additional args
  let sending ← fitRates leastsq args sends start fits.sends
  let receiving ← fitRates leastsq args receives start fits.receives
  let charts := charts.addRates args input sending.rate receiving.rate
  let sent ← makeCount sends ("Sent" ++ additional) start (!sending.counts.isEmpty) sendColor
  let sendingRate ←
    makeRate sends ("Sending" ++ additional) start (!sending.rates.isEmpty) sendColor
  let received ←
    makeCount receives ("Received" ++ additional) start (!receiving.counts.isEmpty) receiveColor
  let receivingRate ←
    makeRate receives ("Receiving" ++ additional) start (!receiving.rates.isEmpty) receiveColor
  let (series, _) ← makeProcessing floats pairs ("Delay" ++ additional) (color input.i)
  let queue ← makeQueue pairs ("Queue" ++ additional) start (color input.i)
  return { charts with
    counts := charts.counts ++ sent :: sending.counts ++ received :: receiving.counts
    rates := charts.rates ++ sendingRate :: sending.rates ++ receivingRate :: receiving.rates
    processing := charts.processing ++ [series]
    queue := charts.queue ++ [queue] }

end Grinder

end DnsTools
