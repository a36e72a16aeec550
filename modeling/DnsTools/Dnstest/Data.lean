import DnsTools.Dnstest.Msg
import DnsTools.Lib.Run
import Mathlib.Data.List.Basic

/-!
# The workers of `dnstest`

`data.go` and `main.go` as one machine. The state is that of the whole process: what the goroutines
share, and where each of them stands. A step is one operation that others can see, of one worker or
of the main goroutine: an operation on the channel `dt.conns`, a call of the network or the clock,
or an atomic operation on one of the two counters. So the runs are the interleavings.

A step is `none` where the operation blocks, where the program panics in a worker, where the event
is not of the operation that comes next, and once the process has ended. A division by zero in
`stats` is a state of its own.

Connections are numbered by the dialer. The printed warnings are left out, and a round trip is in
nanoseconds throughout: `stats` only scales its result to seconds to return it as a float.

## History

The fields from `requested` on record what no variable of the program remembers. `seen` is what
there was to see for `stats`: how many requests when it read `totalCount`, which round trips when
it read `totalRTT`, and the time it was told.
-/

namespace DnsTools

/-- A connection. -/
abbrev Conn := ℕ

/-- `dns.RcodeSuccess`. -/
def rcodeSuccess : ℕ := 0

/-- `dns.RcodeNameError`. -/
def rcodeNameError : ℕ := 3

/-- `nsInSec`. -/
def nsInSec : Int64 := 1000000000

/-- A message that `ReadMsg` returns. -/
structure Response where
  /-- `Id`. -/
  id : UInt16
  /-- `Rcode`. -/
  rcode : ℕ
deriving DecidableEq, Repr

/-! ### What happens -/

/-- The operations of a worker, with what they return. -/
inductive WorkerEvent
  /-- The receive of `range dt.conns`. -/
  | receive
  /-- `connect`. -/
  | connect (conn : Option Conn)
  /-- `atomic.AddInt64(&dt.totalCount, 1)`. -/
  | count
  /-- `getMsg`: the id that is drawn, and the octets. -/
  | getMsg (id : UInt16) (ip : Fin 254 × Fin 254 × Fin 254)
  /-- `WriteMsg`, which may fail. -/
  | writeMsg (ok : Bool)
  /-- `ReadMsg`, which may fail, and the time since before `WriteMsg`. -/
  | readMsg (resp : Option Response) (rtt : Int64)
  /-- `atomic.AddInt64(&dt.totalRTT, rtt)`. -/
  | addRTT
  /-- `Close`. -/
  | close
  /-- The send to `dt.conns`. -/
  | send
deriving DecidableEq, Repr

/-- The operations of the main goroutine, with what they return. -/
inductive MainEvent
  /-- The limit is over, and `stats` reads `totalCount`. -/
  | loadCount
  /-- `stats` reads `totalRTT`. -/
  | loadRTT
  /-- `time.Since(dt.start)`. -/
  | since (elapsed : Int64)
deriving DecidableEq, Repr

/-- An operation of one goroutine. -/
inductive Event
  /-- Of a worker. -/
  | worker (w : ℕ) (e : WorkerEvent)
  /-- Of the main goroutine. -/
  | main (e : MainEvent)
deriving DecidableEq, Repr

/-! ### The state -/

/-- The operation of a worker that comes next, with the variables that are live. -/
inductive WorkerPoint
  /-- The receive, at the head of the loop of `worker`. -/
  | receiving
  /-- `connect`. -/
  | connecting
  /-- `req`, at its atomic operation. -/
  | counting (conn : Conn)
  /-- `req`, at `getMsg`. -/
  | asking (conn : Conn) (seed : Int64)
  /-- `exchange`, at `WriteMsg`. -/
  | writing (conn : Conn) (req : Msg)
  /-- `exchange`, at `ReadMsg`. -/
  | reading (conn : Conn) (req : Msg)
  /-- `exchange`, at its atomic operation. -/
  | adding (conn : Conn) (rtt : Int64)
  /-- `Close`, behind a failed `exchange`. -/
  | closing (conn : Conn)
  /-- The send. -/
  | sending (conn : Option Conn)
deriving DecidableEq, Repr

/-- The operation of the main goroutine that comes next. -/
inductive MainPoint
  /-- `stats`, at the read of `totalCount`, once the limit is over. -/
  | waiting
  /-- `stats`, at the read of `totalRTT`. -/
  | counted (count : Int64)
  /-- `stats`, at `time.Since`. -/
  | summed (count rttNs : Int64)
  /-- None: `stats` has returned, and so has `main`. The round-trip time is in nanoseconds. -/
  | returned (qps rtt : Int64)
  /-- None: the process has died of a division by zero. -/
  | divideByZero
deriving DecidableEq, Repr

/-- What there was to see for `stats`. -/
structure Sight where
  /-- The number of requests when it read `totalCount`. -/
  requested : ℕ
  /-- The round trips completed when it read `totalRTT`. -/
  rtts : List Int64
  /-- The time since the start. -/
  elapsed : Int64
deriving DecidableEq, Repr

/-- `dnstest`, the goroutines and the list of domains. -/
structure Dnstest where
  /-- `conns`. -/
  conns : List (Option Conn)
  /-- `cap(conns)`. -/
  clients : ℕ
  /-- `uncached`. -/
  uncached : Bool
  /-- `ecs`. -/
  ecs : Bool
  /-- `totalCount`. -/
  totalCount : Int64
  /-- `totalRTT`. -/
  totalRTT : Int64
  /-- `domains`. -/
  domains : List (List Char)
  /-- `cfg.limit`. -/
  limit : Int64
  /-- The workers. -/
  workers : List WorkerPoint
  /-- The main goroutine. -/
  main : MainPoint
  /-- History: the number of atomic operations on `totalCount`. -/
  requested : ℕ
  /-- History: the calls of `req` that have returned, with their seeds. -/
  asked : List (Int64 × Msg)
  /-- History: the connections dialed. -/
  dialed : List Conn
  /-- History: the connections closed. -/
  closed : List Conn
  /-- History: the connections of the requests written. -/
  written : List Conn
  /-- History: the connections of the requests answered. -/
  answered : List Conn
  /-- History: the round-trip times of the exchanges completed. -/
  completed : List Int64
  /-- History: what there was to see for `stats`. -/
  seen : Sight
deriving DecidableEq, Repr

/-- `config`, with the fields that decide what the goroutines do. -/
structure Config where
  /-- `clients`. -/
  clients : ℕ
  /-- `workers`. -/
  workers : ℕ
  /-- `limit`. -/
  limit : Int64
  /-- `uncached`. -/
  uncached : Bool
  /-- `ecs`. -/
  ecs : Bool
deriving DecidableEq, Repr

/-- `newTest`, and the workers that `main` starts. -/
def newTest (cfg : Config) (domains : List (List Char)) : Dnstest :=
  { conns := List.replicate cfg.clients none, clients := cfg.clients, uncached := cfg.uncached
    ecs := cfg.ecs, totalCount := 0, totalRTT := 0, domains, limit := cfg.limit
    workers := List.replicate cfg.workers .receiving, main := .waiting, requested := 0, asked := []
    dialed := [], closed := [], written := [], answered := [], completed := []
    seen := { requested := 0, rtts := [], elapsed := 0 } }

/-! ### The functions -/

/-- The checks of `exchange` behind `ReadMsg`: whether it goes on. -/
def accepts (req : Msg) : Option Response → Bool
  | none => false
  | some resp =>
    if resp.id ≠ req.id then false
    else if resp.rcode ≠ rcodeSuccess && resp.rcode ≠ rcodeNameError then false
    else true

/-- One operation of `worker`. -/
def workerStep (setQuestion : SetQuestion) (dt : Dnstest) :
    WorkerPoint → WorkerEvent → Option (WorkerPoint × Dnstest)
  | .receiving, .receive =>
    match dt.conns with
    | [] => none
    | none :: conns => some (.connecting, { dt with conns })
    | some conn :: conns => some (.counting conn, { dt with conns })
  | .connecting, .connect none => some (.sending none, dt)
  | .connecting, .connect (some conn) =>
    some (.counting conn, { dt with dialed := dt.dialed ++ [conn] })
  | .counting conn, .count =>
    let seed := dt.totalCount + 1
    some (.asking conn seed, { dt with totalCount := seed, requested := dt.requested + 1 })
  | .asking conn seed, .getMsg id ip => do
    let req ← getMsg setQuestion dt.domains seed dt.uncached dt.ecs id ip
    return (.writing conn req, { dt with asked := dt.asked ++ [(seed, req)] })
  | .writing conn req, .writeMsg ok =>
    some (if ok then .reading conn req else .closing conn,
      { dt with written := dt.written ++ [conn] })
  | .reading conn req, .readMsg resp rtt =>
    if accepts req resp then some (.adding conn rtt, { dt with answered := dt.answered ++ [conn] })
    else some (.closing conn, dt)
  | .adding conn rtt, .addRTT =>
    some (.sending (some conn),
      { dt with totalRTT := dt.totalRTT + rtt, completed := dt.completed ++ [rtt] })
  | .closing conn, .close => some (.sending none, { dt with closed := dt.closed ++ [conn] })
  | .sending conn, .send =>
    if dt.conns.length < dt.clients then
      some (.receiving, { dt with conns := dt.conns ++ [conn] })
    else none
  | _, _ => none

/-- One operation of `stats`. -/
def statsStep (dt : Dnstest) : MainPoint → MainEvent → Option Dnstest
  | .waiting, .loadCount =>
    let count := dt.totalCount
    let seen := { dt.seen with requested := dt.requested }
    if count = 0 then
      some { dt with main := .returned 0 0, seen := { seen with rtts := dt.completed } }
    else some { dt with main := .counted count, seen }
  | .counted count, .loadRTT =>
    some { dt with
      main := .summed count dt.totalRTT
      seen := { dt.seen with rtts := dt.completed } }
  | .summed count rttNs, .since elapsed =>
    let seen := { dt.seen with elapsed }
    if elapsed / nsInSec = 0 then some { dt with main := .divideByZero, seen }
    else
      let qps := count / (elapsed / nsInSec)
      some { dt with main := .returned qps (rttNs / count), seen }
  | _, _ => none

/-- The process has ended. -/
def MainPoint.ended : MainPoint → Bool
  | .returned _ _ | .divideByZero => true
  | _ => false

/-- One operation of one goroutine. -/
def dnstestStep (setQuestion : SetQuestion) (dt : Dnstest) : Event → Option Dnstest
  | .worker w e =>
    if dt.main.ended then none
    else do
      let p ← dt.workers[w]?
      let (p', dt') ← workerStep setQuestion dt p e
      return { dt' with workers := dt.workers.set w p' }
  | .main e => statsStep dt dt.main e

/-- `time.Duration(cfg.limit) * time.Second`. -/
def limitDuration (limit : Int64) : Int64 := limit * nsInSec

/-- What the world may do: a dial makes a new connection, and the clock does not go backwards nor
does the limit end early. -/
def World (dt : Dnstest) : Event → Prop
  | .worker _ (.connect (some conn)) => conn ∉ dt.dialed
  | .worker _ (.readMsg _ rtt) => 0 ≤ rtt
  | .main (.since elapsed) => 0 ≤ elapsed ∧ limitDuration dt.limit ≤ elapsed
  | _ => True

instance (dt : Dnstest) (i : Event) : Decidable (World dt i) := by
  unfold World
  split <;> infer_instance

/-! ### What a step does -/

/-- What an operation of a worker does to the worker and to what is shared. -/
inductive WorkerStep (setQuestion : SetQuestion) (dt : Dnstest) :
    WorkerPoint → WorkerEvent → WorkerPoint → Dnstest → Prop
  | receiveNil (conns : List (Option Conn)) (hconns : dt.conns = none :: conns) :
      WorkerStep setQuestion dt .receiving .receive .connecting { dt with conns }
  | receive (conn : Conn) (conns : List (Option Conn)) (hconns : dt.conns = some conn :: conns) :
      WorkerStep setQuestion dt .receiving .receive (.counting conn) { dt with conns }
  | connectFailed :
      WorkerStep setQuestion dt .connecting (.connect none) (.sending none) dt
  | connect (conn : Conn) :
      WorkerStep setQuestion dt .connecting (.connect (some conn)) (.counting conn)
        { dt with dialed := dt.dialed ++ [conn] }
  | count (conn : Conn) :
      WorkerStep setQuestion dt (.counting conn) .count (.asking conn (dt.totalCount + 1))
        { dt with totalCount := dt.totalCount + 1, requested := dt.requested + 1 }
  | getMsg (conn : Conn) (seed : Int64) (id : UInt16) (ip : Fin 254 × Fin 254 × Fin 254) (req : Msg)
      (hreq : DnsTools.getMsg setQuestion dt.domains seed dt.uncached dt.ecs id ip = some req) :
      WorkerStep setQuestion dt (.asking conn seed) (.getMsg id ip) (.writing conn req)
        { dt with asked := dt.asked ++ [(seed, req)] }
  | write (conn : Conn) (req : Msg) :
      WorkerStep setQuestion dt (.writing conn req) (.writeMsg true) (.reading conn req)
        { dt with written := dt.written ++ [conn] }
  | writeFailed (conn : Conn) (req : Msg) :
      WorkerStep setQuestion dt (.writing conn req) (.writeMsg false) (.closing conn)
        { dt with written := dt.written ++ [conn] }
  | read (conn : Conn) (req : Msg) (resp : Option Response) (rtt : Int64)
      (haccepts : accepts req resp = true) :
      WorkerStep setQuestion dt (.reading conn req) (.readMsg resp rtt) (.adding conn rtt)
        { dt with answered := dt.answered ++ [conn] }
  | readFailed (conn : Conn) (req : Msg) (resp : Option Response) (rtt : Int64)
      (haccepts : accepts req resp = false) :
      WorkerStep setQuestion dt (.reading conn req) (.readMsg resp rtt) (.closing conn) dt
  | add (conn : Conn) (rtt : Int64) :
      WorkerStep setQuestion dt (.adding conn rtt) .addRTT (.sending (some conn))
        { dt with totalRTT := dt.totalRTT + rtt, completed := dt.completed ++ [rtt] }
  | close (conn : Conn) :
      WorkerStep setQuestion dt (.closing conn) .close (.sending none)
        { dt with closed := dt.closed ++ [conn] }
  | send (conn : Option Conn) (hroom : dt.conns.length < dt.clients) :
      WorkerStep setQuestion dt (.sending conn) .send .receiving
        { dt with conns := dt.conns ++ [conn] }

variable {setQuestion : SetQuestion} {dt dt' : Dnstest}

theorem workerStep_cases {p p' : WorkerPoint} {e : WorkerEvent}
    (h : workerStep setQuestion dt p e = some (p', dt')) :
    WorkerStep setQuestion dt p e p' dt' := by
  revert h
  fun_cases workerStep setQuestion dt p e <;> intro h
  case case1 => cases h
  case case2 conns hconns =>
    cases h
    exact .receiveNil conns hconns
  case case3 conn conns hconns =>
    cases h
    exact .receive conn conns hconns
  case case4 =>
    cases h
    exact .connectFailed
  case case5 conn =>
    cases h
    exact .connect conn
  case case6 conn seed =>
    cases h
    exact .count conn
  case case7 conn seed id ip =>
    obtain ⟨req, hreq, h⟩ := Option.bind_eq_some_iff.mp h
    cases h
    exact .getMsg conn seed id ip req hreq
  case case8 conn req ok =>
    cases h
    cases ok with
    | true => exact .write conn req
    | false => exact .writeFailed conn req
  case case9 conn req resp rtt haccepts =>
    cases h
    exact .read conn req resp rtt haccepts
  case case10 conn req resp rtt haccepts =>
    cases h
    exact .readFailed conn req resp rtt (Bool.eq_false_iff.mpr haccepts)
  case case11 conn rtt =>
    cases h
    exact .add conn rtt
  case case12 conn =>
    cases h
    exact .close conn
  case case13 conn hroom =>
    cases h
    exact .send conn hroom
  case case14 => cases h
  case case15 => cases h

/-- What an operation of `stats` does to all but the main goroutine. -/
theorem statsStep_frame {p : MainPoint} {e : MainEvent} (h : statsStep dt p e = some dt') :
    ∃ main seen, dt' = { dt with main, seen } := by
  revert h
  fun_cases statsStep dt p e <;> intro h
  case case6 => cases h
  all_goals
    cases h
    exact ⟨_, _, rfl⟩

/-- A step is one of a worker or one of the main goroutine. -/
theorem dnstestStep_cases {i : Event} (h : dnstestStep setQuestion dt i = some dt') :
    (∃ w e p p' dt₁, i = .worker w e ∧ dt.main.ended = false ∧ dt.workers[w]? = some p ∧
      WorkerStep setQuestion dt p e p' dt₁ ∧ dt' = { dt₁ with workers := dt.workers.set w p' }) ∨
    ∃ e, i = .main e ∧ statsStep dt dt.main e = some dt' := by
  cases i with
  | worker w e =>
    left
    rw [dnstestStep] at h
    split_ifs at h with hended
    obtain ⟨p, hp, h⟩ := Option.bind_eq_some_iff.mp h
    obtain ⟨⟨p', dt₁⟩, hstep, h⟩ := Option.bind_eq_some_iff.mp h
    cases h
    exact ⟨w, e, p, p', dt₁, rfl, Bool.eq_false_iff.mpr hended, hp, workerStep_cases hstep, rfl⟩
  | main e => exact .inr ⟨e, rfl, h⟩

/-! ### What no step changes -/

/-- The settings are those of a configuration and a list of domains. -/
structure Dnstest.SetBy (dt : Dnstest) (cfg : Config) (domains : List (List Char)) : Prop where
  /-- `cap(conns)`. -/
  clients : dt.clients = cfg.clients
  /-- `uncached`. -/
  uncached : dt.uncached = cfg.uncached
  /-- `ecs`. -/
  ecs : dt.ecs = cfg.ecs
  /-- `cfg.limit`. -/
  limit : dt.limit = cfg.limit
  /-- `domains`. -/
  domains : dt.domains = domains

variable {cfg : Config} {domains : List (List Char)}

theorem WorkerStep.setBy {p p' : WorkerPoint} {e : WorkerEvent}
    (h : WorkerStep setQuestion dt p e p' dt') (hset : dt.SetBy cfg domains) :
    dt'.SetBy cfg domains := by
  obtain ⟨hclients, huncached, hecs, hlimit, hdomains⟩ := hset
  cases h <;> exact ⟨hclients, huncached, hecs, hlimit, hdomains⟩

theorem setBy_step {i : Event} (h : dnstestStep setQuestion dt i = some dt')
    (hset : dt.SetBy cfg domains) : dt'.SetBy cfg domains := by
  rcases dnstestStep_cases h with ⟨w, e, p, p', dt₁, -, -, -, hop, rfl⟩ | ⟨e, -, hop⟩
  · obtain ⟨hclients, huncached, hecs, hlimit, hdomains⟩ := hop.setBy hset
    exact ⟨hclients, huncached, hecs, hlimit, hdomains⟩
  · obtain ⟨main, seen, rfl⟩ := statsStep_frame hop
    obtain ⟨hclients, huncached, hecs, hlimit, hdomains⟩ := hset
    exact ⟨hclients, huncached, hecs, hlimit, hdomains⟩

/-- Over a run the settings stay those it was started with. -/
theorem setBy_of_run {events : List Event}
    (hrun : Run (dnstestStep setQuestion) World (newTest cfg domains) events dt) :
    dt.SetBy cfg domains :=
  hrun.invariant (P := fun dt => dt.SetBy cfg domains) (fun _ _ _ h _ hstep => setBy_step hstep h)
    ⟨rfl, rfl, rfl, rfl, rfl⟩

end DnsTools
