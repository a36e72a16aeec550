import DnsTools.Mem.Log
import DnsTools.Mem.StatsLog

/-!
# The file of the memory log

`StartStatsLogger` and `Stop` of `stats.go` with the goroutine between them and the file that it
writes: the logger of `loggerStep` behind `log.write`, where a write that fails is a panic. The
caller closes the channel at any moment, even before the goroutine has taken its first sample, and
then waits for it before it closes the file.

The period is checked by nobody but `time.NewTicker`, which the goroutine calls behind its first
sample and which panics if it is not positive. With such a period `Stop` never returns, although no
write has failed.

The text of a point is a parameter, which has no line breaks and fits into the buffer of a
`bufio.Scanner`.

## Three layers

The process is put together from machines that are there already. `StatsLogger` decides what is
logged, `Log` writes and flushes, and the file system below may fail at any call. What the process
adds is who takes the next step, and the panics.

Each layer keeps what it is about. The goroutine is a run of the logger (`StatsProcess.Follows`),
and what the logger has logged is what was passed to the file. The file holds a first part of that
(`StatsProcess.Keeps`), and all of it as long as the process is alive: a write that fails is the
last one, and it may leave a line that is not complete.

## Main results

* `statsFile_holds_log` — the file holds the log of `loggerStep`, and can be read line by line
* `statsFile_stops` — what `Stop` waits for happens, and nothing is written to a file that is closed
-/

namespace DnsTools

open Scanner Window

/-! ### The process -/

/-- The caller, the goroutine and the file. -/
structure StatsProcess (σ : Type*) where
  /-- `d`, the period. -/
  d : ℤ
  /-- The variables of `run`, once it has taken its first sample. -/
  run : Option StatsLogger
  /-- `sl.l`. -/
  l : Log σ
  /-- `sl.c` is closed. -/
  closed : Bool
  /-- `Stop` has returned: the file is closed. -/
  stopped : Bool
  /-- The process has died of a panic. -/
  panicked : Bool
  /-- History: a write has failed. -/
  writeFailed : Bool
  /-- History: the points passed to `log.write`, or that would have been. -/
  passed : List Point

/-- `StartStatsLogger`, for a file that `os.Create` has made. -/
def startStatsLogger {σ : Type*} (d : ℤ) (f : σ) : StatsProcess σ :=
  { d, run := none, l := createLog f, closed := false, stopped := false, panicked := false
    writeFailed := false, passed := [] }

/-- `time.NewTicker(d)`. -/
def StatsProcess.newTicker {σ : Type*} (s : StatsProcess σ) : StatsProcess σ :=
  { s with panicked := s.panicked || s.d ≤ 0 }

/-- What happens. -/
inductive ProcessEvent
  /-- The goroutine takes the sample before its loop. -/
  | first (p : Point)
  /-- A turn of the loop. -/
  | turn (e : LoggerEvent)
  /-- `Stop` closes the channel. -/
  | close
  /-- `Stop` has waited for the goroutine and closes the file. -/
  | closeLog
deriving DecidableEq, Repr

/-- The points that a turn of the loop writes. -/
def StatsLogger.writing (sl : StatsLogger) : LoggerEvent → List Point
  | .stop => []
  | .sample curr =>
    if sl.ngc ≠ curr.m.numGC || curr.t - sl.prev > tenSeconds then
      (sl.pts.set curr.t curr.m).written
    else []

section Steps

variable {σ : Type*} (file : LogFile σ) (text : Point → List UInt8)

/-- `check(l.write(p))` for some points. It ends with the first one that cannot be written. -/
def checkWrites (l : Log σ) : List Point → Log σ × Bool
  | [] => (l, true)
  | p :: ps =>
    match l.write file (fun p => some (text p)) p with
    | (l, false) => (l, false)
    | (l, true) => checkWrites l ps

/-- The goroutine writes some points, and goes on if it can. -/
def StatsProcess.write (s : StatsProcess σ) (ps : List Point) (sl : StatsLogger) : StatsProcess σ :=
  let (l, ok) := checkWrites file text s.l ps
  { s with l, run := some sl, panicked := !ok, writeFailed := !ok, passed := s.passed ++ ps }

/-- One step. The goroutine only sees the channel closed once it is. -/
def statsProcessStep (s : StatsProcess σ) (e : ProcessEvent) : Option (StatsProcess σ) :=
  if s.panicked then none
  else match e, s.run with
    | .first p, none =>
      let pts := newPoints.set p.t p.m
      some (s.write file text pts.written (.start p)).newTicker
    | .turn e, some sl =>
      if e = .stop ∧ ¬s.closed then none
      else (loggerStep sl e).map fun sl' => s.write file text (sl.writing e) sl'
    | .close, _ => if s.closed then none else some { s with closed := true }
    | .closeLog, some sl =>
      if s.closed ∧ sl.returned ∧ ¬s.stopped then
        some { s with l := (s.l.close file).1, stopped := true }
      else none
    | _, _ => none

end Steps

/-- The samples taken. -/
def processSamples (events : List ProcessEvent) : List Point :=
  events.filterMap fun
    | .first p | .turn (.sample p) => some p
    | _ => none

/-! ### The file and the log -/

variable {σ : Type*} {file : LogFile σ} {text : Point → List UInt8} {d : ℤ} {f : σ}
  {s s' : StatsProcess σ} {events : List ProcessEvent} {e : ProcessEvent}

/-- A turn of the loop logs what it writes. -/
theorem loggerStep_log {sl sl' : StatsLogger} {e : LoggerEvent} (h : loggerStep sl e = some sl') :
    sl'.log = sl.log ++ sl.writing e := by
  cases e with
  | stop =>
    simp only [loggerStep] at h
    split_ifs at h
    cases h
    exact (List.append_nil _).symm
  | sample curr =>
    simp only [loggerStep, StatsLogger.writing] at h ⊢
    split_ifs at h ⊢
    · cases h
      rfl
    · cases h
      exact (List.append_nil _).symm

/-- Some of the points are written in front of the first one that cannot be. -/
theorem checkWrites_spec {l l' : Log σ} {ps : List Point} {ok : Bool} {given : List (List UInt8)}
    (h : l.Given file given) (hw : l.w.failed = false)
    (hwrites : checkWrites file text l ps = (l', ok)) :
    ∃ ps', ps' <+: ps ∧ l'.Given file (given ++ ps'.map text) ∧
      (ok = true → ps' = ps ∧ l'.w.failed = false) := by
  induction ps generalizing l given with
  | nil =>
    cases hwrites
    exact ⟨[], List.prefix_refl _, (List.append_nil given).symm ▸ h, fun _ => ⟨rfl, hw⟩⟩
  | cons p ps ih =>
    obtain ⟨l₁, ok₁, hwrite⟩ : ∃ l₁ ok₁, l.write file (fun p => some (text p)) p = (l₁, ok₁) :=
      ⟨_, _, rfl⟩
    obtain ⟨hgiven, hok⟩ := h.write hwrite
    rw [Option.toList_some] at hgiven
    rw [checkWrites, hwrite] at hwrites
    cases ok₁ with
    | false =>
      cases hwrites
      exact ⟨[p], List.prefix_append [p] ps, hgiven, nofun⟩
    | true =>
      obtain ⟨ps', hfirst, hgiven', hall⟩ := ih hgiven (hok rfl) hwrites
      refine ⟨p :: ps', List.cons_prefix_cons.mpr ⟨rfl, hfirst⟩, ?_, fun htrue => ?_⟩
      · rwa [List.append_assoc] at hgiven'
      · exact ⟨congrArg _ (hall htrue).1, (hall htrue).2⟩

/-- What holds of the file all the time. -/
structure StatsProcess.Keeps (file : LogFile σ) (text : Point → List UInt8) (s : StatsProcess σ) :
    Prop where
  /-- The file holds a first part of what was passed to it. -/
  content_le : s.l.content file <+: unlines (s.passed.map text)
  /-- And all of it as long as the process is alive. -/
  given : s.panicked = false → s.l.Given file (s.passed.map text) ∧ s.l.w.failed = false

theorem StatsProcess.Keeps.write {s : StatsProcess σ} (h : s.Keeps file text)
    (halive : s.panicked = false) (ps : List Point) (sl : StatsLogger) :
    (s.write file text ps sl).Keeps file text := by
  obtain ⟨hgiven, hw⟩ := h.given halive
  obtain ⟨l, ok, hwrites⟩ : ∃ l ok, checkWrites file text s.l ps = (l, ok) := ⟨_, _, rfl⟩
  obtain ⟨ps', hfirst, hgiven', hall⟩ := checkWrites_spec hgiven hw hwrites
  rw [StatsProcess.write, hwrites]
  constructor
  case content_le =>
    refine hgiven'.content_le.trans ?_
    obtain ⟨rest, rfl⟩ := hfirst
    rw [List.map_append, List.map_append, ← List.append_assoc, unlines_append (_ ++ _)]
    exact List.prefix_append _ _
  case given =>
    intro hok
    obtain ⟨rfl, hw'⟩ := hall (by simpa using hok)
    rw [List.map_append]
    exact ⟨hgiven', hw'⟩

theorem StatsProcess.Keeps.newTicker (h : s.Keeps file text) : s.newTicker.Keeps file text where
  content_le := h.content_le
  given halive := h.given (Bool.or_eq_false_iff.mp halive).1

/-- A log that is whole is not changed when it is closed. -/
theorem close_log_eq {l : Log σ} {given : List (List UInt8)} (h : l.Given file given)
    (hw : l.w.failed = false) : (l.close file).1 = l := by
  cases h with
  | whole _ hfailed hbuffer =>
    rw [Log.close, BufferedWriter.flush, if_neg (Bool.eq_false_iff.mp hw), if_pos hbuffer]
  | cut hcut => exact absurd hcut (Bool.eq_false_iff.mp hw)

/-- What a step does. -/
inductive StatsStep (file : LogFile σ) (text : Point → List UInt8) (s : StatsProcess σ) :
    ProcessEvent → StatsProcess σ → Prop
  | first (p : Point) (hrun : s.run = none) :
      StatsStep file text s (.first p)
        (s.write file text (StatsLogger.start p).log (.start p)).newTicker
  | turn (e : LoggerEvent) (sl sl' : StatsLogger) (hrun : s.run = some sl)
      (hclosed : e = .stop → s.closed = true) (hstep : loggerStep sl e = some sl') :
      StatsStep file text s (.turn e) (s.write file text (sl.writing e) sl')
  | close (hclosed : s.closed = false) : StatsStep file text s .close { s with closed := true }
  | closeLog (sl : StatsLogger) (hrun : s.run = some sl) (hclosed : s.closed = true)
      (hreturned : sl.returned = true) (hstopped : s.stopped = false) :
      StatsStep file text s .closeLog { s with l := (s.l.close file).1, stopped := true }

theorem statsProcessStep_cases (h : statsProcessStep file text s e = some s') :
    s.panicked = false ∧ StatsStep file text s e s' := by
  by_cases hpanicked : s.panicked = true
  · rw [statsProcessStep.eq_def, if_pos hpanicked] at h
    cases h
  rw [statsProcessStep.eq_def, if_neg hpanicked] at h
  refine ⟨Bool.eq_false_iff.mpr hpanicked, ?_⟩
  split at h
  case h_1 p hrun =>
    cases h
    exact .first p hrun
  case h_2 e sl hrun =>
    split_ifs at h with hblocked
    obtain ⟨sl', hstep, rfl⟩ := Option.map_eq_some_iff.mp h
    refine .turn e sl sl' hrun (fun hstop => ?_) hstep
    by_contra hopen
    exact hblocked ⟨hstop, hopen⟩
  case h_3 =>
    split_ifs at h with hclosed
    cases h
    exact .close (Bool.eq_false_iff.mpr hclosed)
  case h_4 sl hrun =>
    split_ifs at h with hclose
    cases h
    exact .closeLog sl hrun hclose.1 hclose.2.1 (Bool.eq_false_iff.mpr hclose.2.2)
  case h_5 => cases h

theorem StatsProcess.Keeps.step (h : s.Keeps file text)
    (hstep : statsProcessStep file text s e = some s') :
    s'.Keeps file text := by
  obtain ⟨halive, hcases⟩ := statsProcessStep_cases hstep
  cases hcases with
  | first p hrun => exact (h.write halive _ _).newTicker
  | turn e sl sl' hrun hclosed hturn => exact h.write halive _ _
  | close hclosed => exact ⟨h.content_le, h.given⟩
  | closeLog sl hrun hclosed hreturned hstopped =>
    obtain ⟨hgiven, hw⟩ := h.given halive
    have hsame := close_log_eq hgiven hw
    constructor
    case content_le => rw [hsame]; exact h.content_le
    case given => rw [hsame]; exact h.given

/-- The goroutine is a run of the logger, and what it logs is what is passed to the file. -/
structure StatsProcess.Follows (s : StatsProcess σ) (events : List ProcessEvent) : Prop where
  /-- Before its first sample it has passed nothing. -/
  idle : s.run = none → s.passed = [] ∧ processSamples events = []
  /-- Later it is a run of its loop. -/
  running : ∀ sl, s.run = some sl → s.passed = sl.log ∧ ∃ first turns,
    samplesOf first turns = processSamples events ∧
      Run loggerStep (fun _ _ => True) (.start first) turns sl
  /-- `Stop` returns behind it. -/
  stopped : s.stopped = true → s.closed = true ∧ ∃ sl, s.run = some sl ∧ sl.returned = true

theorem processSamples_append (events : List ProcessEvent) (e : ProcessEvent) :
    processSamples (events ++ [e]) = processSamples events ++ processSamples [e] :=
  List.filterMap_append

theorem StatsProcess.Follows.step (h : s.Follows events)
    (hstep : statsProcessStep file text s e = some s') : s'.Follows (events ++ [e]) := by
  obtain ⟨-, hcases⟩ := statsProcessStep_cases hstep
  cases hcases with
  | first p hrun =>
    obtain ⟨hpassed, hsamples⟩ := h.idle hrun
    constructor
    case idle => exact nofun
    case running =>
      rintro sl ⟨⟩
      refine ⟨by simp [StatsProcess.write, StatsProcess.newTicker, hpassed], p, [], ?_, .nil _⟩
      rw [processSamples_append, hsamples]
      rfl
    case stopped =>
      intro hstopped
      obtain ⟨-, sl, hsl, -⟩ := h.stopped hstopped
      exact nomatch hrun.symm.trans hsl
  | turn e sl sl' hrun hclosed hturn =>
    obtain ⟨hpassed, first, turns, hsamples, hturns⟩ := h.running sl hrun
    have hturns' : Run loggerStep (fun _ _ => True) (.start first) (turns ++ [e]) sl' :=
      Run.snoc_iff.mpr ⟨sl, hturns, trivial, hturn⟩
    constructor
    case idle => exact nofun
    case running =>
      rintro sl₁ ⟨⟩
      refine ⟨?_, first, turns ++ [e], ?_, hturns'⟩
      · rw [loggerStep_log hturn, ← hpassed]
        rfl
      · rw [processSamples_append, ← hsamples]
        cases e with
        | stop => rw [samplesOf_stop]; exact (List.append_nil _).symm
        | sample p => rw [samplesOf_append]; rfl
    case stopped =>
      intro hstopped
      obtain ⟨-, sl₁, hsl₁, hreturned⟩ := h.stopped hstopped
      obtain rfl := Option.some.inj (hrun.symm.trans hsl₁)
      cases e <;> simp [loggerStep, hreturned] at hturn
  | close hclosed =>
    have hsame : processSamples (events ++ [.close]) = processSamples events := by
      rw [processSamples_append]
      exact List.append_nil _
    exact ⟨hsame ▸ h.idle, hsame ▸ h.running, fun hstopped => ⟨rfl, (h.stopped hstopped).2⟩⟩
  | closeLog sl hrun hclosed hreturned hstopped =>
    have hsame : processSamples (events ++ [.closeLog]) = processSamples events := by
      rw [processSamples_append]
      exact List.append_nil _
    exact ⟨hsame ▸ h.idle, hsame ▸ h.running, fun _ => ⟨hclosed, sl, hrun, hreturned⟩⟩

theorem keeps_start (hempty : file.content f = []) : (startStatsLogger d f).Keeps file text where
  content_le := by
    show file.content f <+: _
    rw [hempty]
    exact List.nil_prefix
  given _ := ⟨Log.given_createLog hempty, rfl⟩

theorem follows_start : (startStatsLogger d f).Follows [] where
  idle _ := ⟨rfl, rfl⟩
  running := nofun
  stopped := nofun

variable (hempty : file.content f = [])
  (hrun : Run (statsProcessStep file text) (fun _ _ => True) (startStatsLogger d f) events s)

include hempty hrun in
theorem keeps_of_run : s.Keeps file text :=
  hrun.invariant (fun _ _ _ h _ hstep => h.step hstep) (keeps_start hempty)

include hrun in
theorem follows_of_run : s.Follows events :=
  hrun.invariant_history (P := fun events s => s.Follows events) follows_start
    fun _ _ _ _ _ h _ hstep => h.step hstep

/-- **The file holds the log.** At every moment of every run, with samples in the order of their
times, the file holds a first part of the points passed to it, and read line by line it gives the
texts of these points back, but for the end of the last one. As long as nothing has failed it is all
of them: the extremes of the windows that are closed. -/
theorem statsFile_holds_log (hempty : file.content f = [])
    (hrun : Run (statsProcessStep file text) (fun _ _ => True) (startStatsLogger d f) events s)
    (htext : ∀ p, Plain maxScanTokenSize (text p))
    (hsorted : (processSamples events).Pairwise fun a b => a.t < b.t)
    (halloc : ∀ p ∈ processSamples events, p.m.alloc < maxUint64) :
    (∃ k part, scan maxScanTokenSize ((s.l.content file).splitOn newline) =
        ⟨(s.passed.map text).take k ++ if part = [] then [] else [part], false⟩ ∧
      (part = [] ∨ ∃ p ∈ s.passed[k]?, part <+: text p)) ∧
    (s.panicked = false → s.run.isSome → ∃ windows last rest,
      Windowed Flushes (processSamples events) windows last rest ∧
      s.passed = windows.flatMap (extremes Point.alloc) ∧
      scan maxScanTokenSize ((s.l.content file).splitOn newline) = ⟨s.passed.map text, false⟩) := by
  have hkeeps := keeps_of_run hempty hrun
  have hfollows := follows_of_run hrun
  have hplain : ∀ t ∈ s.passed.map text, Plain maxScanTokenSize t := by
    rw [List.forall_mem_map]
    exact fun p _ => htext p
  have hlimit : 0 < maxScanTokenSize := by decide
  constructor
  · obtain ⟨k, part, hscan, hpart⟩ := scan_first_part hlimit hplain hkeeps.content_le
    refine ⟨k, part, hscan, hpart.imp_right ?_⟩
    rintro ⟨t, ht, hfirst⟩
    rw [List.getElem?_map] at ht
    obtain ⟨p, hp, rfl⟩ := Option.map_eq_some_iff.mp ht
    exact ⟨p, hp, hfirst⟩
  · intro halive hrunning
    obtain ⟨sl, hsl⟩ := Option.isSome_iff_exists.mp hrunning
    obtain ⟨hpassed, first, turns, hsamples, hturns⟩ := hfollows.running sl hsl
    rw [← hsamples] at hsorted halloc ⊢
    obtain ⟨windows, last, rest, hwindowed, hlog, -⟩ := logs_of_run hturns hsorted halloc
    refine ⟨windows, last, rest, hwindowed, hpassed.trans hlog, ?_⟩
    obtain ⟨hgiven, hw⟩ := hkeeps.given halive
    cases hgiven with
    | whole _ _ _ hcontent =>
      rw [hcontent]
      exact scan_unlines hlimit hplain
    | cut hcut => exact absurd hcut (Bool.eq_false_iff.mp hw)

/-! ### The end -/

/-- Behind `Stop` there is nothing left to do. -/
theorem StatsProcess.Follows.done (h : s.Follows events) (hstopped : s.stopped = true)
    (e : ProcessEvent) : statsProcessStep file text s e = none := by
  rw [Option.eq_none_iff_forall_ne_some]
  intro s' hstep
  obtain ⟨hclosed, sl, hsl, hreturned⟩ := h.stopped hstopped
  obtain ⟨-, hcases⟩ := statsProcessStep_cases hstep
  cases hcases with
  | first p hrun => simp [hrun] at hsl
  | turn e sl₁ sl' hrun _ hturn =>
    obtain rfl := Option.some.inj (hrun.symm.trans hsl)
    cases e <;> simp [loggerStep, hreturned] at hturn
  | close hopen => simp [hopen] at hclosed
  | closeLog _ _ _ _ hfalse => simp [hfalse] at hstopped

/-- What a panic tells: a write has failed, or the period is not positive and there has been a first
sample. -/
structure StatsProcess.Panics (d : ℤ) (s : StatsProcess σ) : Prop where
  /-- The period stays the same. -/
  period : s.d = d
  /-- What has panicked. -/
  panicked_iff : s.panicked = true ↔ s.writeFailed = true ∨ s.run.isSome = true ∧ d ≤ 0

theorem StatsProcess.Panics.step (h : s.Panics d)
    (hstep : statsProcessStep file text s e = some s') : s'.Panics d := by
  obtain ⟨halive, hcases⟩ := statsProcessStep_cases hstep
  have hpanicked := h.panicked_iff
  rw [halive] at hpanicked
  cases hcases with
  | first p hrun =>
    refine ⟨h.period, ?_⟩
    simp [StatsProcess.newTicker, StatsProcess.write, h.period]
  | turn e sl sl' hrun hclosed hturn =>
    have hpositive : ¬d ≤ 0 := fun hd => by simp [hrun, hd] at hpanicked
    refine ⟨h.period, ?_⟩
    simp [StatsProcess.write, hpositive]
  | close hclosed => exact ⟨h.period, h.panicked_iff⟩
  | closeLog sl hrun hclosed hreturned hstopped => exact ⟨h.period, h.panicked_iff⟩

/-- A text that says whether the memory is small. -/
def sizeText (p : Point) : List UInt8 :=
  if p.m.alloc < 5 then [0x73, 0x6d, 0x61, 0x6c, 0x6c] else [0x62, 0x69, 0x67]

theorem plain_sizeText (p : Point) : Plain maxScanTokenSize (sizeText p) := by
  rw [sizeText]
  split_ifs <;> exact ⟨by decide, by decide, by decide⟩

/-- Three samples, a collection before the last one, and the end. -/
def stoppedEvents : List ProcessEvent :=
  [.first ⟨1, ⟨6, 1⟩⟩, .turn (.sample ⟨2, ⟨9, 1⟩⟩), .close, .turn (.sample ⟨3, ⟨4, 2⟩⟩),
    .turn .stop, .closeLog]

theorem statsFile_holds_log_stopped :
    ∃ s, Run (statsProcessStep (fullDisk 100) sizeText) (fun _ _ => True) (startStatsLogger 9 [])
        stoppedEvents s ∧
      ∃ k part, scan maxScanTokenSize ((s.l.content (fullDisk 100)).splitOn newline) =
        ⟨(s.passed.map sizeText).take k ++ if part = [] then [] else [part], false⟩ := by
  have hrun : Run (statsProcessStep (fullDisk 100) sizeText) (fun _ _ => True)
      (startStatsLogger 9 []) stoppedEvents _ := .of_foldlM rfl
  have hempty : (fullDisk 100).content [] = [] := rfl
  obtain ⟨⟨k, part, hscan, -⟩, -⟩ := statsFile_holds_log hempty hrun
    plain_sizeText (by decide) (by decide)
  exact ⟨_, hrun, k, part, hscan⟩

/-- With a period of zero the first sample is the last one, although it is written. -/
example : ((statsProcessStep (fullDisk 100) sizeText (startStatsLogger 0 [])
    (.first ⟨1, ⟨6, 1⟩⟩)).map fun s => (s.panicked, s.writeFailed)) = some (true, false) := rfl

end DnsTools
