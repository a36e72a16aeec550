import DnsTools.Lib.Channel
import DnsTools.Lib.Potential

/-!
# Memory profiles on a signal

`signal.go` of the package `mem`, with `ProfToFile` of `prof.go`: a goroutine that makes a profile
when a signal arrives, until its channel is closed. The signals come through a channel with room for
one, and the package `signal` drops those that find it full.

The machine is the process: the caller of `StartProfOnSignal` and `StopProfOnSignal`, the goroutine,
and the signals that arrive. A step is one operation that the others can see, so the runs are the
interleavings. A step is `none` where the operation blocks or panics, and where the event is not of
the operation that comes next.

## Why a dropped signal does no harm

A signal is dropped only if another one waits in the channel, and for that one a profile has yet to
be begun. So after each signal that is relayed a profile is begun, or one is due (`Answers`), though
several signals may share it. The other direction is a matter of counting: `account` is the number
of profiles begun and of signals that wait, and only a signal that is relayed adds to it.

Behind `signal.Stop` nothing is relayed, so the account stays what it is, and there is at most one
signal left in the channel. This is also why the channel can be closed without a panic: nobody sends
to it any more.

## Main results

* `profiles_follow_signals` — no signal is forgotten, and no profile is made without one
* `handler_returns` — once the channel is closed the goroutine comes to its end
-/

namespace DnsTools

/-- `os.Signal`. -/
abbrev Signal := ℕ

/-- An error of the system. -/
abbrev SystemError := ℕ

/-! ### The state -/

/-- Where the caller stands. -/
inductive CallerPoint
  /-- `StartProfOnSignal` has returned. -/
  | started
  /-- In `StopProfOnSignal`, behind `signal.Stop`. -/
  | stopping
  /-- `StopProfOnSignal` has returned. -/
  | stopped
deriving DecidableEq, Repr

/-- The operation of `handler` that comes next. -/
inductive HandlerPoint
  /-- The receive. -/
  | receiving
  /-- `ProfToFile`. -/
  | profiling
  /-- `onProf`. -/
  | reporting (err : Option SystemError)
  /-- None: `handler` has returned. -/
  | returned
deriving DecidableEq, Repr

/-- What the system makes of the calls in `ProfToFile`. -/
inductive ProfResult
  /-- `os.Create` fails. -/
  | notCreated (err : SystemError)
  /-- `Prof` writes to the file, and may fail. -/
  | written (profile : List UInt8) (err : Option SystemError)
deriving DecidableEq, Repr

/-- `ProfToFile`: the error, and the file as it leaves it. -/
def profToFile (file : Option (List UInt8)) : ProfResult → Option SystemError × Option (List UInt8)
  | .notCreated err => (some err, file)
  | .written profile err => (err, some profile)

/-- The goroutines and what they share. -/
structure ProfOnSignal where
  /-- `sig`. -/
  sig : List Signal
  /-- `onProf` is not `nil`. -/
  onProf : Bool
  /-- `c`. -/
  c : Channel Signal
  /-- The caller. -/
  caller : CallerPoint
  /-- `handler`. -/
  handler : HandlerPoint
  /-- The file `path`, if there is one. -/
  file : Option (List UInt8)
  /-- History: the number of calls of `ProfToFile` begun. -/
  begun : ℕ
  /-- History: what the calls that have returned have returned. -/
  results : List (Option SystemError)
  /-- History: the arguments of `onProf`. -/
  reported : List (Option SystemError)
deriving DecidableEq, Repr

/-- `StartProfOnSignal`. -/
def startProfOnSignal (file : Option (List UInt8)) (onProf : Bool) (sig : List Signal) :
    ProfOnSignal :=
  { sig, onProf, c := .make 1, caller := .started, handler := .receiving, file, begun := 0
    results := [], reported := [] }

/-! ### The steps -/

/-- What happens. -/
inductive SignalEvent
  /-- A signal arrives. -/
  | signal (s : Signal)
  /-- `signal.Stop`. -/
  | stop
  /-- `close`. -/
  | close
  /-- The receive of `handler`. -/
  | receive
  /-- `ProfToFile`. -/
  | profToFile (r : ProfResult)
  /-- `onProf`. -/
  | onProf
deriving DecidableEq, Repr

/-- The package `signal` relays a signal to the channel. With no signals given, `signal.Notify` asks
for all of them. -/
def ProfOnSignal.Relays (p : ProfOnSignal) (s : Signal) : Prop :=
  p.caller = .started ∧ (p.sig = [] ∨ s ∈ p.sig)

instance (p : ProfOnSignal) (s : Signal) : Decidable (p.Relays s) :=
  inferInstanceAs (Decidable (_ ∧ _))

/-- One operation. -/
def signalStep (p : ProfOnSignal) : SignalEvent → Option ProfOnSignal
  | .signal s => if p.Relays s then (p.c.trySend s).map fun c => { p with c } else some p
  | .stop => if p.caller = .started then some { p with caller := .stopping } else none
  | .close =>
    if p.caller = .stopping then p.c.close.map fun c => { p with c, caller := .stopped } else none
  | .receive =>
    if p.handler = .receiving then
      match p.c.receive with
      | none => none
      | some (none, c) => some { p with c, handler := .returned }
      | some (some _, c) => some { p with c, handler := .profiling, begun := p.begun + 1 }
    else none
  | .profToFile r =>
    if p.handler = .profiling then
      let (err, file) := profToFile p.file r
      some { p with file, results := p.results ++ [err]
                    handler := if p.onProf then .reporting err else .receiving }
    else none
  | .onProf =>
    match p.handler with
    | .reporting err => some { p with reported := p.reported ++ [err], handler := .receiving }
    | _ => none

/-! ### What a step does -/

/-- What an operation changes. -/
inductive SignalStep (p : ProfOnSignal) : SignalEvent → ProfOnSignal → Prop
  | ignored (s : Signal) (h : ¬p.Relays s) : SignalStep p (.signal s) p
  | relayed (s : Signal) (c : Channel Signal) (h : p.Relays s) (hopen : p.c.closed = false)
      (hclosed : c.closed = false) (hcapacity : c.capacity = p.c.capacity)
      (hbuffer : c.buffer =
        if p.c.buffer.length < p.c.capacity then p.c.buffer ++ [s] else p.c.buffer) :
      SignalStep p (.signal s) { p with c }
  | stop (h : p.caller = .started) : SignalStep p .stop { p with caller := .stopping }
  | close (c : Channel Signal) (h : p.caller = .stopping) (hclosed : c.closed = true)
      (hbuffer : c.buffer = p.c.buffer) (hcapacity : c.capacity = p.c.capacity) :
      SignalStep p .close { p with c, caller := .stopped }
  | receive (s : Signal) (c : Channel Signal) (h : p.handler = .receiving)
      (hbuffer : p.c.buffer = s :: c.buffer) (hclosed : c.closed = p.c.closed)
      (hcapacity : c.capacity = p.c.capacity) :
      SignalStep p .receive { p with c, handler := .profiling, begun := p.begun + 1 }
  | finish (h : p.handler = .receiving) (hbuffer : p.c.buffer = []) (hclosed : p.c.closed = true) :
      SignalStep p .receive { p with handler := .returned }
  | profToFile (r : ProfResult) (h : p.handler = .profiling) :
      SignalStep p (.profToFile r)
        { p with file := (DnsTools.profToFile p.file r).2
                 results := p.results ++ [(DnsTools.profToFile p.file r).1]
                 handler := if p.onProf then .reporting (DnsTools.profToFile p.file r).1
                   else .receiving }
  | onProf (err : Option SystemError) (h : p.handler = .reporting err) :
      SignalStep p .onProf { p with reported := p.reported ++ [err], handler := .receiving }

variable {file : Option (List UInt8)} {onProf : Bool} {sig : List Signal} {p p' : ProfOnSignal}
  {e : SignalEvent} {events : List SignalEvent}

theorem signalStep_cases (h : signalStep p e = some p') : SignalStep p e p' := by
  cases e with
  | signal s =>
    simp only [signalStep] at h
    split_ifs at h with hrelays
    · obtain ⟨c, hc, rfl⟩ := Option.map_eq_some_iff.mp h
      obtain ⟨hopen, hclosed, hcapacity, hbuffer⟩ := Channel.trySend_spec hc
      exact .relayed s c hrelays hopen hclosed hcapacity hbuffer
    · cases h
      exact .ignored s hrelays
  | stop =>
    simp only [signalStep] at h
    split_ifs at h with hcaller
    cases h
    exact .stop hcaller
  | close =>
    simp only [signalStep] at h
    split_ifs at h with hcaller
    obtain ⟨c, hc, rfl⟩ := Option.map_eq_some_iff.mp h
    obtain ⟨hclosed, hbuffer, hcapacity⟩ := Channel.close_spec hc
    exact .close c hcaller hclosed hbuffer hcapacity
  | receive =>
    simp only [signalStep] at h
    split_ifs at h with hhandler
    cases hreceive : p.c.receive with
    | none => simp [hreceive] at h
    | some received =>
      obtain ⟨s, c⟩ := received
      cases s with
      | none =>
        simp only [hreceive, Option.some.injEq] at h
        obtain ⟨hbuffer, hclosed, rfl⟩ := Channel.receive_none hreceive
        exact h ▸ .finish hhandler hbuffer hclosed
      | some s =>
        simp only [hreceive, Option.some.injEq] at h
        obtain ⟨hbuffer, hclosed, hcapacity⟩ := Channel.receive_some hreceive
        exact h ▸ .receive s c hhandler hbuffer hclosed hcapacity
  | profToFile r =>
    simp only [signalStep] at h
    split_ifs at h with hhandler
    · cases h
      have := SignalStep.profToFile r hhandler
      simpa [*] using this
    · cases h
      have := SignalStep.profToFile r hhandler
      simpa [*] using this
  | onProf =>
    simp only [signalStep] at h
    split at h
    case h_1 err hhandler =>
      cases h
      exact .onProf err hhandler
    case h_2 => cases h

/-! ### The invariant -/

/-- The result that is about to be reported. -/
def HandlerPoint.pending : HandlerPoint → List (Option SystemError)
  | .reporting err => [err]
  | _ => []

/-- The profiles that are being made. -/
def HandlerPoint.unfinished : HandlerPoint → ℕ
  | .profiling => 1
  | _ => 0

/-- What holds all the time. -/
structure ProfOnSignal.Sound (p : ProfOnSignal) : Prop where
  /-- There is room for one signal. -/
  capacity : p.c.capacity = 1
  /-- Only the caller closes the channel. -/
  closed_iff : p.c.closed = true ↔ p.caller = .stopped
  /-- `handler` returns when there is nothing left to do. -/
  returned : p.handler = .returned → p.c.buffer = [] ∧ p.caller = .stopped
  /-- Every call of `ProfToFile` returns something. -/
  begun : p.begun = p.results.length + p.handler.unfinished
  /-- Every result is reported. -/
  reported : p.reported ++ p.handler.pending = if p.onProf then p.results else []

namespace ProfOnSignal.Sound

theorem start : (startProfOnSignal file onProf sig).Sound where
  capacity := rfl
  closed_iff := iff_of_false Bool.false_ne_true nofun
  returned := nofun
  begun := rfl
  reported := (ite_self []).symm

/-- The channel is open until the caller closes it. -/
theorem open_of_ne (h : p.Sound) (hcaller : p.caller ≠ .stopped) : p.c.closed = false :=
  Bool.eq_false_iff.mpr fun hclosed => hcaller (h.closed_iff.mp hclosed)

theorem step (h : p.Sound) (hstep : signalStep p e = some p') : p'.Sound := by
  cases signalStep_cases hstep with
  | ignored s hrelays => exact h
  | relayed s c hrelays hopen hclosed hcapacity hbuffer =>
    constructor
    case capacity => exact hcapacity.trans h.capacity
    case closed_iff => simp [hclosed, hrelays.1]
    case returned =>
      intro hreturned
      exact nomatch hrelays.1.symm.trans (h.returned hreturned).2
    case begun => exact h.begun
    case reported => exact h.reported
  | stop hcaller =>
    have hopen := h.open_of_ne (hcaller ▸ nofun)
    constructor
    case capacity => exact h.capacity
    case closed_iff => exact iff_of_false (Bool.eq_false_iff.mp hopen) nofun
    case returned =>
      intro hreturned
      exact nomatch hcaller.symm.trans (h.returned hreturned).2
    case begun => exact h.begun
    case reported => exact h.reported
  | close c hcaller hclosed hbuffer hcapacity =>
    constructor
    case capacity => exact hcapacity.trans h.capacity
    case closed_iff => exact iff_of_true hclosed rfl
    case returned => exact fun hreturned => ⟨hbuffer.trans (h.returned hreturned).1, rfl⟩
    case begun => exact h.begun
    case reported => exact h.reported
  | receive s c hhandler hbuffer hclosed hcapacity =>
    have hbegun := h.begun
    have hreported := h.reported
    rw [hhandler] at hbegun hreported
    constructor
    case capacity => exact hcapacity.trans h.capacity
    case closed_iff => exact hclosed ▸ h.closed_iff
    case returned => exact nofun
    case begun => exact congrArg (· + 1) hbegun
    case reported => exact hreported
  | finish hhandler hbuffer hclosed =>
    have hbegun := h.begun
    have hreported := h.reported
    rw [hhandler] at hbegun hreported
    exact ⟨h.capacity, h.closed_iff, fun _ => ⟨hbuffer, h.closed_iff.mp hclosed⟩, hbegun, hreported⟩
  | profToFile r hhandler =>
    have hbegun := h.begun
    have hreported := h.reported
    rw [hhandler] at hbegun hreported
    have hdone : p.reported = if p.onProf then p.results else [] := by
      rw [← hreported]
      exact (List.append_nil _).symm
    constructor
    case capacity => exact h.capacity
    case closed_iff => exact h.closed_iff
    case returned => cases hon : p.onProf <;> simp
    case begun => cases hon : p.onProf <;> simp [hbegun, HandlerPoint.unfinished]
    case reported => cases hon : p.onProf <;> simp [hdone, hon, HandlerPoint.pending]
  | onProf err hhandler =>
    have hbegun := h.begun
    have hreported := h.reported
    rw [hhandler] at hbegun hreported
    constructor
    case capacity => exact h.capacity
    case closed_iff => exact h.closed_iff
    case returned => exact nofun
    case begun => exact hbegun
    case reported => exact (List.append_nil _).trans hreported

theorem of_run (hrun : Run signalStep (fun _ _ => True) p events p') (h : p.Sound) : p'.Sound :=
  hrun.invariant (fun _ _ _ h _ hstep => h.step hstep) h

/-- There is at most one signal in the channel. -/
theorem length_le (h : p.Sound) : p.c.buffer.length ≤ 1 := h.capacity ▸ p.c.length_le

/-- No signal is sent to a channel that is closed. -/
theorem signal_isSome (h : p.Sound) (s : Signal) : (signalStep p (.signal s)).isSome := by
  simp only [signalStep]
  split_ifs with hrelays
  · rw [Option.isSome_map, Channel.trySend_isSome_iff]
    exact h.open_of_ne (hrelays.1 ▸ nofun)
  · rfl

/-- Nor is it closed twice. -/
theorem close_isSome (h : p.Sound) (hcaller : p.caller = .stopping) :
    (signalStep p .close).isSome := by
  simp only [signalStep]
  rw [if_pos hcaller, Option.isSome_map, Channel.close_isSome_iff]
  exact h.open_of_ne (hcaller ▸ nofun)

end ProfOnSignal.Sound

/-! ### Signals and profiles -/

/-- The profiles begun and the signals that wait for one. -/
def ProfOnSignal.account (p : ProfOnSignal) : ℕ := p.begun + p.c.buffer.length

/-- How many signals arrive that are asked for, up to `signal.Stop`. -/
def relayedSignals (sig : List Signal) : List SignalEvent → ℕ
  | [] => 0
  | .stop :: _ => 0
  | .signal s :: events => (if sig = [] ∨ s ∈ sig then 1 else 0) + relayedSignals sig events
  | .close :: events | .receive :: events | .profToFile _ :: events | .onProf :: events =>
    relayedSignals sig events

/-- Behind `signal.Stop` a profile is only begun for a signal that waits already. -/
theorem SignalStep.account_eq (h : SignalStep p e p') (hcaller : p.caller ≠ .started) :
    p'.caller ≠ .started ∧ p'.account = p.account := by
  cases h with
  | relayed s c hrelays => exact absurd hrelays.1 hcaller
  | stop h => exact absurd h hcaller
  | close c h hclosed hbuffer => exact ⟨nofun, by simp only [ProfOnSignal.account, hbuffer]⟩
  | receive s c h hbuffer =>
    refine ⟨hcaller, ?_⟩
    simp only [ProfOnSignal.account, hbuffer, List.length_cons]
    omega
  | _ => exact ⟨hcaller, rfl⟩

theorem account_eq_of_stopped (hrun : Run signalStep (fun _ _ => True) p events p')
    (hcaller : p.caller ≠ .started) : p'.account = p.account := by
  have h : p'.account + (events.map fun _ => 0).sum = p.account + (events.map fun _ => 0).sum :=
    hrun.balance (P := fun p => p.caller ≠ .started) ProfOnSignal.account (fun _ => 0) (fun _ => 0)
    (fun s i s' hs _ hstep => ((signalStep_cases hstep).account_eq hs).1)
    (fun s i s' hs _ hstep => congrArg (· + 0) ((signalStep_cases hstep).account_eq hs).2) hcaller
  rwa [List.map_const', List.sum_replicate, nsmul_zero] at h

/-- The account grows with the signals that are relayed. -/
theorem account_le (hrun : Run signalStep (fun _ _ => True) p events p')
    (hcaller : p.caller = .started) :
    p'.account ≤ p.account + relayedSignals p.sig events := by
  induction hrun with
  | nil => exact Nat.le_add_right _ _
  | @cons p p₁ p' e events _ hstep hrun ih =>
    cases signalStep_cases hstep with
    | ignored s hrelays =>
      have hrest := ih hcaller
      rw [relayedSignals]
      omega
    | relayed s c hrelays hopen hclosed hcapacity hbuffer =>
      have hrest := ih hcaller
      have hlength : c.buffer.length ≤ p.c.buffer.length + 1 := by
        rw [hbuffer]
        split_ifs <;> simp
      rw [relayedSignals, if_pos hrelays.2]
      simp only [ProfOnSignal.account] at hrest ⊢
      omega
    | stop h => exact (account_eq_of_stopped hrun nofun).le
    | close c h => exact nomatch hcaller.symm.trans h
    | receive s c h hbuffer =>
      have hrest := ih hcaller
      simp only [ProfOnSignal.account, hbuffer, List.length_cons, relayedSignals] at hrest ⊢
      omega
    | finish => exact ih hcaller
    | profToFile => exact ih hcaller
    | onProf => exact ih hcaller

/-- A profile is begun that was not counted, or a signal waits for one. -/
def ProfOnSignal.Answers (p : ProfOnSignal) (begun : ℕ) : Prop :=
  begun < p.begun ∨ begun ≤ p.begun ∧ p.c.buffer ≠ []

theorem SignalStep.answers (h : SignalStep p e p') {begun : ℕ} (hanswers : p.Answers begun) :
    p'.Answers begun := by
  cases h with
  | relayed s c hrelays hopen hclosed hcapacity hbuffer =>
    refine hanswers.imp_right fun ⟨hle, hne⟩ => ⟨hle, ?_⟩
    rw [hbuffer]
    split_ifs
    · exact List.append_ne_nil_of_left_ne_nil hne _
    · exact hne
  | close c h hclosed hbuffer => exact hanswers.imp_right fun ⟨hle, hne⟩ => ⟨hle, hbuffer ▸ hne⟩
  | receive s c h hbuffer =>
    refine .inl (Nat.lt_succ_of_le ?_)
    exact hanswers.elim Nat.le_of_lt (·.1)
  | finish h hbuffer => exact .inl (hanswers.resolve_right fun hwaits => hwaits.2 hbuffer)
  | _ => exact hanswers

/-- A signal that is relayed waits in the channel, or another one does. -/
theorem SignalStep.answers_signal {s : Signal} (h : SignalStep p (.signal s) p') (hsound : p.Sound)
    (hrelays : p.Relays s) : p'.Answers p.begun := by
  cases h with
  | ignored _ hignored => exact absurd hrelays hignored
  | relayed _ c _ hopen hclosed hcapacity hbuffer =>
    refine .inr ⟨le_refl _, ?_⟩
    rw [hbuffer]
    split_ifs with hroom
    · exact List.concat_ne_nil _ _
    · rw [hsound.capacity] at hroom
      exact List.ne_nil_of_length_pos (by omega)

/-- **Profiles follow signals.** Whatever signals arrive, however long the profiles take and
whenever the caller stops: a profile is begun after each signal relayed, or is still to be begun
because a signal waits. There are not more of them than such signals, and behind `signal.Stop` only
the signal that waits then is left, for one profile more. No signal is sent to a closed channel, and
every result is reported once, in order. -/
theorem profiles_follow_signals
    (hrun : Run signalStep (fun _ _ => True) (startProfOnSignal file onProf sig) events p) :
    (∀ (before after : List SignalEvent) (s : Signal) (mid : ProfOnSignal),
      events = before ++ .signal s :: after →
      Run signalStep (fun _ _ => True) (startProfOnSignal file onProf sig) before mid →
      mid.Relays s → mid.begun < p.begun ∨ p.c.buffer ≠ [] ∧ p.handler ≠ .returned) ∧
    p.account ≤ relayedSignals sig events ∧
    (∀ (before after : List SignalEvent) (mid : ProfOnSignal), events = before ++ .stop :: after →
      Run signalStep (fun _ _ => True) (startProfOnSignal file onProf sig) before mid →
      p.account = mid.account ∧ p.begun ≤ mid.begun + 1) ∧
    (∀ s, (signalStep p (.signal s)).isSome) ∧
    (p.caller = .stopping → (signalStep p .close).isSome) ∧
    p.reported ++ p.handler.pending = if p.onProf then p.results else [] := by
  have hsound : p.Sound := .of_run hrun .start
  refine ⟨?_, ?_, ?_, hsound.signal_isSome, hsound.close_isSome, hsound.reported⟩
  · rintro before after s mid rfl hbefore hrelays
    obtain ⟨mid', hbefore', hrun⟩ := Run.append_iff.mp hrun
    obtain rfl := hbefore.unique hbefore'
    cases hrun with
    | cons _ hstep hafter =>
      have hfirst := (signalStep_cases hstep).answers_signal (.of_run hbefore .start) hrelays
      have hanswers := hafter.invariant (P := fun p => p.Answers mid.begun)
        (fun _ _ _ h _ hstep => (signalStep_cases hstep).answers h) hfirst
      refine hanswers.imp_right fun hwaits => ⟨hwaits.2, fun hreturned => ?_⟩
      exact hwaits.2 (hsound.returned hreturned).1
  · have hle := account_le hrun rfl
    simpa [ProfOnSignal.account, startProfOnSignal, Channel.make] using hle
  · rintro before after mid rfl hbefore
    obtain ⟨mid', hbefore', hrun⟩ := Run.append_iff.mp hrun
    obtain rfl := hbefore.unique hbefore'
    cases hrun with
    | cons _ hstep hafter =>
      cases signalStep_cases hstep with
      | stop h =>
        have hmid : mid.Sound := .of_run hbefore .start
        have heq := account_eq_of_stopped hafter (fun hcaller => by cases hcaller)
        have hlength := hmid.length_le
        refine ⟨heq, ?_⟩
        simp only [ProfOnSignal.account] at heq
        omega

/-! ### The end of the goroutine -/

/-- An operation of `handler`. -/
def SignalEvent.ofHandler : SignalEvent → Bool
  | .receive | .profToFile _ | .onProf => true
  | _ => false

/-- How many operations `handler` has left at most, once the channel is closed. -/
def ProfOnSignal.left (p : ProfOnSignal) : ℕ :=
  3 * p.c.buffer.length +
    match p.handler with
    | .returned => 0
    | .receiving => 1
    | .reporting _ => 2
    | .profiling => 3

theorem SignalStep.left_le (h : SignalStep p e p') (hcaller : p.caller = .stopped) :
    p'.left + (if e.ofHandler then 1 else 0) ≤ p.left := by
  cases h with
  | ignored s hrelays => exact le_refl _
  | relayed s c hrelays => exact nomatch hcaller.symm.trans hrelays.1
  | stop h => exact nomatch hcaller.symm.trans h
  | close c h => exact nomatch hcaller.symm.trans h
  | receive s c h hbuffer =>
    simp only [ProfOnSignal.left, h, hbuffer, List.length_cons, SignalEvent.ofHandler, if_true]
    omega
  | finish h hbuffer => simp [ProfOnSignal.left, h, SignalEvent.ofHandler]
  | profToFile r h =>
    simp only [ProfOnSignal.left, h, SignalEvent.ofHandler, if_true]
    cases p.onProf <;> simp
  | onProf err h => simp [ProfOnSignal.left, h, SignalEvent.ofHandler]

/-- Behind `StopProfOnSignal` the channel stays closed. -/
theorem SignalStep.stopped (h : SignalStep p e p') (hcaller : p.caller = .stopped) :
    p'.caller = .stopped := by
  cases h with
  | stop h => exact nomatch hcaller.symm.trans h
  | close => rfl
  | _ => exact hcaller

/-- `handler` can go on. -/
theorem ProfOnSignal.Sound.handler_isSome (h : p.Sound) (hcaller : p.caller = .stopped)
    (hhandler : p.handler ≠ .returned) (r : ProfResult) :
    ∃ e : SignalEvent, e.ofHandler ∧ (e = .receive ∨ e = .profToFile r ∨ e = .onProf) ∧
      (signalStep p e).isSome := by
  cases hpoint : p.handler with
  | returned => exact absurd hpoint hhandler
  | receiving =>
    refine ⟨.receive, rfl, .inl rfl, ?_⟩
    have hreceive := Channel.receive_isSome_iff.mpr (.inr (h.closed_iff.mpr hcaller))
    obtain ⟨⟨s, c⟩, hc⟩ := Option.isSome_iff_exists.mp hreceive
    cases s <;> simp [signalStep, hpoint, hc]
  | profiling => exact ⟨.profToFile r, rfl, .inr (.inl rfl), by simp [signalStep, hpoint]⟩
  | reporting err => exact ⟨.onProf, rfl, .inr (.inr rfl), by simp [signalStep, hpoint]⟩

/-- **The goroutine comes to its end.** It does not return before the channel is closed. From then
on it has six operations left at most, and can always go on with the next one until it returns; what
waited in the channel then is gone. -/
theorem handler_returns {events' : List SignalEvent}
    (hrun : Run signalStep (fun _ _ => True) (startProfOnSignal file onProf sig) events p)
    (hafter : Run signalStep (fun _ _ => True) p events' p') :
    (p.caller ≠ .stopped → p.handler ≠ .returned) ∧
    (p.caller = .stopped →
      events'.countP SignalEvent.ofHandler ≤ 6 ∧
      (p'.handler = .returned ∧ p'.begun = p.account ∨
        p'.handler ≠ .returned ∧ ∀ r : ProfResult, ∃ e : SignalEvent, e.ofHandler ∧
          (e = .receive ∨ e = .profToFile r ∨ e = .onProf) ∧ (signalStep p' e).isSome)) := by
  have hsound : p.Sound := .of_run hrun .start
  refine ⟨fun hcaller hreturned => hcaller (hsound.returned hreturned).2, fun hcaller => ?_⟩
  have hsound' : p'.Sound := .of_run hafter hsound
  have hcaller' : p'.caller = .stopped := hafter.invariant (P := fun p => p.caller = .stopped)
    (fun _ _ _ h _ hstep => (signalStep_cases hstep).stopped h) hcaller
  constructor
  · have hcount : p'.left + events'.countP SignalEvent.ofHandler ≤ p.left :=
      hafter.countP_le (P := fun p => p.caller = .stopped)
      (fun _ _ _ h _ hstep => (signalStep_cases hstep).stopped h)
      (fun _ _ _ h _ hstep => (signalStep_cases hstep).left_le h) hcaller
    have hlength := hsound.length_le
    have hleft : p.left ≤ 3 * p.c.buffer.length + 3 := by
      rw [ProfOnSignal.left]
      split <;> omega
    omega
  · by_cases hreturned : p'.handler = .returned
    · refine .inl ⟨hreturned, ?_⟩
      have heq := account_eq_of_stopped hafter (hcaller ▸ nofun)
      rw [← heq, ProfOnSignal.account, (hsound'.returned hreturned).1]
      rfl
    · exact .inr ⟨hreturned, hsound'.handler_isSome hcaller' hreturned⟩

/-- Three signals, the second while a profile is made and the third while the second one waits, and
then the end. -/
def threeSignals : List SignalEvent :=
  [.signal 1, .receive, .signal 1, .signal 1, .stop, .profToFile (.written [7] none), .onProf]

/-- What is left to do behind them. -/
def threeSignalsRest : List SignalEvent :=
  [.receive, .profToFile (.notCreated 2), .onProf, .receive]

theorem profiles_follow_signals_three :
    ∃ p, Run signalStep (fun _ _ => True) (startProfOnSignal none true [1]) threeSignals p ∧
      p.account = 2 ∧ p.account ≤ 3 ∧ p.reported = [none] := by
  have hrun : Run signalStep (fun _ _ => True) (startProfOnSignal none true [1]) threeSignals _ :=
    .of_foldlM rfl
  obtain ⟨-, hle, -⟩ := profiles_follow_signals hrun
  exact ⟨_, hrun, rfl, hle, rfl⟩

/-- The state in which the channel is closed. -/
def stoppedSignals : ProfOnSignal :=
  { startProfOnSignal (some [7]) true [1] with
    c := ⟨1, [1], true, by decide⟩, caller := .stopped, begun := 1, results := [none]
    reported := [none] }

theorem handler_returns_three :
    ∃ p', Run signalStep (fun _ _ => True) stoppedSignals threeSignalsRest p' ∧
      p'.handler = .returned ∧ threeSignalsRest.countP SignalEvent.ofHandler ≤ 6 := by
  have hrun : Run signalStep (fun _ _ => True) (startProfOnSignal none true [1])
      (threeSignals ++ [.close]) stoppedSignals := .of_foldlM rfl
  have hafter : Run signalStep (fun _ _ => True) stoppedSignals threeSignalsRest _ := .of_foldlM rfl
  exact ⟨_, hafter, rfl, ((handler_returns hrun hafter).2 rfl).1⟩

end DnsTools
