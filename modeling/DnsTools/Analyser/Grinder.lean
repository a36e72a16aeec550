import DnsTools.Analyser.Load
import DnsTools.Lib.Python
import DnsTools.Platform
import Mathlib.Data.List.DropRight

/-!
# The charts of grinder

The functions of `grinder.py` that turn a report into charts. `grinder.py` is a program for Python
2, in which `/` divides two integers as integers and `filter` and `map` return lists. A `float` is a
rational number here; `math.log10`, `math.pow` and `leastsq` are parameters.

## `leastsq`

The function is a parameter in two parts: what it returns, and for how many parameters and entries
of data it does so. The one of scipy raises a `TypeError` for more parameters than entries
(`Leastsq.Documented`), so a line cannot be fitted to a single message.
-/

namespace DnsTools

namespace Grinder

open Python

/-! ### Charts -/

/-- A point of a chart. -/
structure Point where
  /-- `x`. -/
  x : ℚ
  /-- `y`. -/
  y : ℚ
deriving DecidableEq, Repr

/-- A line of a chart. -/
structure Series where
  /-- `values`. -/
  values : List Point
  /-- `key`. -/
  key : String
  /-- `color`. -/
  color : String
deriving DecidableEq, Repr

/-- `__POINTS`. -/
def points : ℕ := 25

/-- `__FITPOINTS`. -/
def fitPoints : ℕ := 500

/-- `__MICROSECOND`. -/
def microsecond : ℚ := 1000

/-- `__MILLISECOND`. -/
def millisecond : ℚ := 1000000

/-- The number of messages from one point to the next. A chart with a fit has fewer points. -/
def chartStep (length : ℕ) (fit : Bool) : ℕ := length / if fit then points else fitPoints

/-- `make_count`. -/
def makeCount (timestamps : List ℤ) (name : String) (start : ℤ) (fit : Bool) (color : String) :
    Py Series := do
  let step := chartStep timestamps.length fit
  let x (timestamp : ℤ) : ℚ := (timestamp - start : ℤ) / millisecond
  if step ≤ 1 then
    let data := timestamps.zipIdx.map fun (timestamp, i) => ⟨x timestamp, (i + 1 : ℕ)⟩
    return { values := data, key := name, color }
  else
    let first ← index timestamps 0
    let sampled := stride step (step - 1) timestamps
    let data := sampled.zipIdx.map fun (timestamp, i) => ⟨x timestamp, ((i + 1) * step : ℕ)⟩
    let data := ⟨x first, 1⟩ :: data
    let i ← loopIndex sampled
    if (i + 1) * step < timestamps.length then
      let final ← last timestamps
      return { values := data ++ [⟨x final, timestamps.length⟩], key := name, color }
    else return { values := data, key := name, color }

/-- The variables of the loops of `make_rate`. -/
structure RateLoop where
  /-- `data`. -/
  data : List Point
  /-- `previous`. -/
  previous : ℤ
  /-- `count`, or `steps`. -/
  steps : ℕ

/-- The point for `messages` messages between `previous` and `timestamp`. -/
def ratePoint (start previous timestamp : ℤ) (messages : ℕ) : Py Point := do
  let y ← div (nanoseconds * messages) ((timestamp - previous : ℤ) : ℚ)
  return ⟨(timestamp + previous - 2 * start : ℤ) / millisecond / 2, y⟩

/-- A round of the loops of `make_rate`. In the one without samples a step is one message. -/
def rateRound (start : ℤ) (step : ℕ) (s : RateLoop) (timestamp : ℤ) : Py RateLoop :=
  if timestamp ≤ s.previous then return { s with steps := s.steps + 1 }
  else do
    let point ← ratePoint start s.previous timestamp (step * s.steps)
    return { data := s.data ++ [point], previous := timestamp, steps := 1 }

/-- `make_rate`. -/
def makeRate (timestamps : List ℤ) (name : String) (start : ℤ) (fit : Bool) (color : String) :
    Py Series := do
  let step := chartStep timestamps.length fit
  let first ← index timestamps 0
  let s : RateLoop := { data := [], previous := first, steps := 1 }
  if step ≤ 1 then
    let s ← timestamps.tail.foldlM (rateRound start 1) s
    return { values := s.data, key := name, color }
  else
    let sampled := stride step (step - 1) timestamps
    let s ← sampled.foldlM (rateRound start step) s
    let i ← loopIndex sampled
    let final ← last timestamps
    if (i + 1) * step < timestamps.length ∧ s.previous < final then
      let point ← ratePoint start s.previous final (timestamps.length - (i + 1) * step)
      return { values := s.data ++ [point], key := name, color }
    else return { values := s.data, key := name, color }

/-! ### Delays -/

/-- A bucket of the histogram of delays. -/
structure Bucket where
  /-- The longest delay for it. -/
  bound : ℚ
  /-- The delays in it. -/
  delays : List ℤ
deriving DecidableEq, Repr

/-- The buckets while they are filled. `bucket` is the one that `index` stands for. -/
structure Filling where
  /-- The buckets before it. -/
  before : List Bucket
  /-- `bucket`. -/
  bucket : Bucket
  /-- The buckets behind it. -/
  behind : List Bucket

/-- The loop that looks for the bucket of a delay. -/
def seek (delay : ℤ) (before : List Bucket) (bucket : Bucket) : List Bucket → Filling
  | [] => ⟨before, bucket, []⟩
  | next :: behind =>
    if bucket.bound < delay then seek delay (before ++ [bucket]) next behind
    else ⟨before, bucket, next :: behind⟩

/-- Put a delay into its bucket. -/
def Filling.put (f : Filling) (delay : ℤ) : Filling :=
  let f := seek delay f.before f.bucket f.behind
  { f with bucket := { f.bucket with delays := f.bucket.delays ++ [delay] } }

/-- Put the delays into the buckets. -/
def fill (buckets : List Bucket) (delays : List ℤ) : Py (List Bucket) :=
  match buckets with
  | [] => .error .indexError
  | bucket :: behind =>
    let f := delays.foldl Filling.put ⟨[], bucket, behind⟩
    .ok (f.before ++ f.bucket :: f.behind)

/-- Drop the empty buckets at both ends. -/
def trim (buckets : List Bucket) : List Bucket :=
  (buckets.dropWhile (·.delays.isEmpty)).rdropWhile (·.delays.isEmpty)

/-- The points of a bucket in the two charts; there may be none in the second. -/
def bucketPoints (bucket : Bucket) : Py (Point × List Point) := do
  let count := bucket.delays.length
  if 1 < count then
    let x := (← div bucket.delays.sum count) / millisecond
    let width := (← max bucket.delays) - (← min bucket.delays)
    return (⟨x, count⟩, [⟨x, width / microsecond⟩])
  else return (⟨bucket.bound / millisecond, 0⟩, [])

/-- Scale the values so that the greatest one is 100. -/
def scale (data : List Point) : Py (List Point) :=
  let maxDelay := data.foldl (fun m point => if m < point.y then point.y else m) 0
  if 0 < maxDelay then
    data.mapM fun point => do return { point with y := ← div (100 * point.y) maxDelay }
  else return data

/-- The functions of `math`. -/
structure Floats where
  /-- `floor(log10(delay))`, of a delay that is greater than zero. -/
  floorLog10 : ℤ → ℤ
  /-- `ceil(log10(delay))`. -/
  ceilLog10 : ℤ → ℤ
  /-- `pow(10, x)`. -/
  pow10 : ℚ → ℚ

/-- The bounds of the buckets. -/
def bucketBounds (floats : Floats) (delays : List ℤ) : Py (List ℚ) := do
  let first ← index delays 0
  let final ← last delays
  let left := floats.floorLog10 first
  let right := floats.ceilLog10 final
  let step : ℚ := (right - left : ℤ) / fitPoints
  return (List.range fitPoints).map fun i => floats.pow10 (left + (i + 1 : ℕ) * step)

/-- The delays of the pairs that are answered, in order, those before zero left out. -/
def sortedDelays (pairs : List (List ℤ)) : List ℤ :=
  let delays := pairs.filterMap fun pair => match pair with
    | _ :: _ :: delay :: _ => some delay
    | _ => none
  (delays.mergeSort (· ≤ ·)).dropWhile (· ≤ 0)

/-- The points of the two charts, with the buckets of the given bounds. -/
def bucketCharts (bounds : List ℚ) (delays : List ℤ) : Py (List Point × List Point) := do
  let buckets ← fill (bounds.map fun bound => ⟨bound, []⟩) delays
  let data ← (trim buckets).mapM bucketPoints
  return (data.map (·.1), data.flatMap (·.2))

/-- The points of the two charts, before they are scaled. -/
def delayCharts (floats : Floats) (delays : List ℤ) : Py (List Point × List Point) :=
  if delays.isEmpty then .ok ([], [])
  else do
    let bounds ← bucketBounds floats delays
    bucketCharts bounds delays

/-- `make_processing`. -/
def makeProcessing (floats : Floats) (pairs : List (List ℤ)) (name color : String) :
    Py (Series × Series) := do
  let (data, dataSteps) ← delayCharts floats (sortedDelays pairs)
  let data ← scale data
  return ({ values := data, key := name, color }, { values := dataSteps, key := name, color })

/-! ### The queue -/

/-- The messages that a pair puts into the queue and takes out of it. -/
def queueEvents (pair : List ℤ) : List (ℤ × ℤ) :=
  match pair with
  | [] => []
  | [sent] => [(sent, 1)]
  | sent :: received :: _ => [(sent, 1), (received, -1)]

/-- `counter`: the events in the order of time. -/
def queueCounter (pairs : List (List ℤ)) : List (ℤ × ℤ) :=
  (pairs.flatMap queueEvents).mergeSort fun e e' => e.1 ≤ e'.1

/-- The variables of the loops of `make_queue`. -/
structure QueueLoop where
  /-- `data`. -/
  data : List Point
  /-- `queue`. -/
  queue : ℤ
  /-- `timestamps`. -/
  timestamps : ℤ
  /-- `queues`. -/
  queues : ℤ

/-- The mean of some events. -/
def meanPoint (start timestamps queues : ℤ) (events : ℕ) : Py Point := do
  let x := ((← div timestamps events) - start) / millisecond
  return ⟨x, ← div queues events⟩

/-- A round of the loop over all events. -/
def queueRound (start : ℤ) (s : QueueLoop) (item : ℤ × ℤ) : QueueLoop :=
  let queue := s.queue + item.2
  { s with data := s.data ++ [⟨(item.1 - start : ℤ) / millisecond, queue⟩], queue }

/-- A round of the loop that makes one point of `step` events. -/
def meanRound (start : ℤ) (step : ℕ) (s : QueueLoop) (item : (ℤ × ℤ) × ℕ) : Py QueueLoop := do
  let ((timestamp, increment), i) := item
  let queue := s.queue + increment
  let timestamps := s.timestamps + timestamp
  let queues := s.queues + queue
  if (← mod (i + 1) step) = 0 then
    let point ← meanPoint start timestamps queues step
    return { data := s.data ++ [point], queue, timestamps := 0, queues := 0 }
  else return { data := s.data, queue, timestamps, queues }

/-- `make_queue`. -/
def makeQueue (pairs : List (List ℤ)) (name : String) (start : ℤ) (color : String) :
    Py Series := do
  let step := pairs.length / fitPoints
  let counter := queueCounter pairs
  let s : QueueLoop := { data := [], queue := 0, timestamps := 0, queues := 0 }
  if step ≤ 1 then
    let s := counter.foldl (queueRound start) s
    return { values := s.data, key := name, color }
  else
    let s ← counter.zipIdx.foldlM (meanRound start step) s
    let i ← loopIndex counter
    let remainder ← mod (i + 1) step
    if remainder ≠ 0 then
      let point ← meanPoint start s.timestamps s.queues remainder
      return { values := s.data ++ [point], key := name, color }
    else return { values := s.data, key := name, color }

/-! ### Fits -/

/-- `leastsq`: the function whose squares it sums has parameters, and is applied to each entry of
the data. Where it takes so many parameters for so many entries, it returns as many parameters as it
starts from. -/
structure Leastsq where
  /-- Whether it takes so many parameters for so many entries of the data. -/
  takes (parameters entries : ℕ) : Bool
  /-- What it then returns, from the first values of the parameters and the data. -/
  run (residual : List ℚ → ℤ → ℕ → ℚ) (x₀ : List ℚ) (timestamps : List ℤ) (counts : List ℕ) :
    List ℚ
  /-- The number of parameters. -/
  length_run : ∀ residual x₀ timestamps counts,
    (run residual x₀ timestamps counts).length = x₀.length

/-- The call, which raises a `TypeError` where `leastsq` does not take the parameters. -/
def Leastsq.call (leastsq : Leastsq) (residual : List ℚ → ℤ → ℕ → ℚ) (x₀ : List ℚ)
    (timestamps : List ℤ) (counts : List ℕ) : Py (List ℚ) :=
  if leastsq.takes x₀.length timestamps.length then .ok (leastsq.run residual x₀ timestamps counts)
  else .error .typeError

/-- `leastsq` of scipy takes no more parameters than there are entries of the data. -/
def Leastsq.Documented (leastsq : Leastsq) : Prop :=
  ∀ parameters entries, leastsq.takes parameters entries = decide (parameters ≤ entries)

/-- An idealised `leastsq`, which returns for any data but none. -/
def Leastsq.TakesAny (leastsq : Leastsq) : Prop :=
  ∀ parameters entries, 0 < entries → leastsq.takes parameters entries = true

/-- `linear_count`. -/
def linearCount (start : ℤ) (x : List ℚ) (timestamp : ℤ) : ℚ :=
  x.getD 0 0 + x.getD 1 0 * (timestamp - start : ℤ) / nanoseconds

/-- `linear_count_residuals`. -/
def linearCountResiduals (start : ℤ) (x : List ℚ) (timestamp : ℤ) (count : ℕ) : ℚ :=
  linearCount start x timestamp - count

/-- The window of a fit: that of the parameters, or all times. -/
def fitWindow (timestamps : List ℤ) (start : ℤ) (params : List (List ℚ)) : Py (ℚ × ℚ) :=
  match params with
  | window :: _ => unpack window
  | [] => do
    let first ← index timestamps 0
    let final ← last timestamps
    return ((first - start : ℤ), (final - start : ℤ))

/-- The messages in a window, each with its number. -/
def fitPointsIn (timestamps : List ℤ) (start : ℤ) (window : ℚ × ℚ) : List (ℤ × ℕ) :=
  (timestamps.zipIdx.map fun (timestamp, i) => (timestamp, i + 1)).filter fun point =>
    window.1 ≤ (point.1 - start : ℤ) ∧ ((point.1 - start : ℤ) : ℚ) ≤ window.2

/-- `calculate_fit`. The messages that it selects are not those that it passes to `leastsq`. -/
def calculateFit (leastsq : Leastsq) (timestamps : List ℤ) (start : ℤ) (params : List (List ℚ)) :
    Py (List ℚ) := do
  let window ← fitWindow timestamps start params
  let _ ← unzip (fitPointsIn timestamps start window)
  let timestampTrain := timestamps
  let countTrain := (List.range timestamps.length).map (· + 1)
  let x₀ := params.getD 1 [0, 1]
  leastsq.call (linearCountResiduals start) x₀ timestampTrain countTrain

/-- `make_fit`. It never returns: `left` and `right` are not among its variables. -/
def makeFit (leastsq : Leastsq) (timestamps : List ℤ) (start : ℤ) (params : List (List ℚ)) :
    Py (Series × Series) := do
  let _ ← calculateFit leastsq timestamps start params
  throw .nameError

end Grinder

end DnsTools
