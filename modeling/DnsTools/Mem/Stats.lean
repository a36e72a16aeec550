import DnsTools.Lib.Run
import Mathlib.Data.UInt

/-!
# The memory log

`stats.go` of the package `mem`: a logger samples the memory statistics and keeps the points with
the least and the greatest `Alloc`, with `math.MaxUint64` for none, until it writes them to its
log. `StatsLogger.run` is a machine whose inputs are what the `select` of its loop gives and the
sample that is taken then.

Of `runtime.MemStats` the two fields that decide what is done are given names. The log is the list
of the points written; a point that cannot be written ends the program.
-/

namespace DnsTools

/-- `math.MaxUint64`. -/
def maxUint64 : UInt64 := 18446744073709551615

/-- `10*time.Second`. -/
def tenSeconds : Int64 := 10000000000

/-- `runtime.MemStats`. -/
structure MemStats where
  /-- `Alloc`. -/
  alloc : UInt64
  /-- `NumGC`. -/
  numGC : UInt32
deriving DecidableEq, Repr

/-- `point`. -/
structure Point where
  /-- `T`. -/
  t : Int64
  /-- `M`. -/
  m : MemStats
deriving DecidableEq, Repr

/-- `points`. -/
structure Points where
  /-- `min`. -/
  min : Point
  /-- `max`. -/
  max : Point
deriving DecidableEq, Repr

/-- `newPoints`. -/
def newPoints : Points :=
  { min := ⟨0, ⟨maxUint64, 0⟩⟩, max := ⟨0, ⟨maxUint64, 0⟩⟩ }

/-- `points.set`. -/
def Points.set (pts : Points) (t : Int64) (p : MemStats) : Points :=
  let min :=
    if pts.min.m.alloc = maxUint64 || pts.min.m.alloc > p.alloc then ⟨t, p⟩ else pts.min
  let max :=
    if pts.max.m.alloc = maxUint64 || pts.max.m.alloc < p.alloc then ⟨t, p⟩ else pts.max
  { min, max }

/-- The points that `points.write` writes. -/
def Points.written (pts : Points) : List Point :=
  if pts.min.t < pts.max.t then [pts.min, pts.max]
  else if pts.min.t > pts.max.t then [pts.max, pts.min]
  else [pts.min]

/-- The points as `points.write` leaves them: everything but `Alloc` stays. -/
def Points.reset (pts : Points) : Points :=
  { min := { pts.min with m := { pts.min.m with alloc := maxUint64 } }
    max := { pts.max with m := { pts.max.m with alloc := maxUint64 } } }

/-- The variables of `StatsLogger.run`, and the log. -/
structure StatsLogger where
  /-- `pts`. -/
  pts : Points
  /-- `prev`. -/
  prev : Int64
  /-- `ngc`. -/
  ngc : UInt32
  /-- `sl.l`. -/
  log : List Point
  /-- `run` has returned. -/
  returned : Bool
deriving DecidableEq, Repr

/-- `points.write`. -/
def StatsLogger.write (sl : StatsLogger) : StatsLogger :=
  { sl with log := sl.log ++ sl.pts.written, pts := sl.pts.reset }

/-- `StatsLogger.run` up to its loop, with an empty log. -/
def StatsLogger.start (first : Point) : StatsLogger :=
  StatsLogger.write { pts := newPoints.set first.t first.m, prev := first.t, ngc := first.m.numGC
                      log := [], returned := false }

/-- What the `select` gives. -/
inductive LoggerEvent
  /-- A tick, or a value of `sl.c`. The sample is taken next. -/
  | sample (p : Point)
  /-- `sl.c` is closed. -/
  | stop
deriving DecidableEq, Repr

/-- One turn of the loop of `StatsLogger.run`. -/
def loggerStep (sl : StatsLogger) : LoggerEvent → Option StatsLogger
  | .stop => if sl.returned then none else some { sl with returned := true }
  | .sample curr =>
    if sl.returned then none
    else
      let sl := { sl with pts := sl.pts.set curr.t curr.m }
      if sl.ngc ≠ curr.m.numGC || curr.t - sl.prev > tenSeconds then
        some { sl.write with ngc := curr.m.numGC, prev := curr.t }
      else some sl

/-- The samples taken, with the one before the loop. -/
def samplesOf (first : Point) (events : List LoggerEvent) : List Point :=
  first :: events.filterMap fun
    | .sample p => some p
    | .stop => none

end DnsTools
