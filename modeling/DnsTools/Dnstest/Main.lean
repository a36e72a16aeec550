import DnsTools.Dnstest.Turns

/-!
# The program `dnstest`

`main.go`, `config.go` and `tls.go`: what `main` does before it starts the workers, and the process
from then on. A panic, in `main` or in a worker, ends the process.

The values of the flags are given. What `newTLSClientConfig` returns is used by `connect` alone,
which is left to the world, so only its error is looked at.

## Where it can panic

Before the workers are started `main` panics on purpose, with the error of a part that has failed,
and by accident at an empty line of the file, or at the channel for the clients if their number is
no capacity. Behind that there are two divisions: `getMsg` divides by the number of domains, which
is zero for a file without a line, and `stats` divides by the seconds that have passed, which may be
zero for a limit below a second.

Neither division is reached where there is no client or no worker, since then no request is made and
`stats` returns at once. Otherwise one request is enough for either of them, and `firstRequest` is a
run that comes there. This is why the condition is exact.

The seed of a request is an `Int64` that counts up, and `getMsg` takes it modulo the number of
domains. Behind `2^63` requests it is negative, and so may the index be; the runs considered end
before.

## Main results

* `dnstestMain_eq_ok` — when the workers are started
* `run_of_process` — a run of the process, up to a panic
* `dnstest_survives_iff` — exactly when no run of the program panics
-/

namespace DnsTools

/-- `config` as `flag.Parse` leaves it, without the times that `connect` and `exchange` wait. -/
structure Flags where
  /-- `mode`. -/
  mode : String
  /-- `caPath`. -/
  caPath : String
  /-- `clients`. -/
  clients : Int64
  /-- `workers`. -/
  workers : Int64
  /-- `limit`. -/
  limit : Int64
  /-- `uncached`. -/
  uncached : Bool
  /-- `filepath`. -/
  filepath : List Char
  /-- `ecs`. -/
  ecs : Bool
deriving DecidableEq, Repr

/-- What the process finds around it. -/
structure Surroundings where
  /-- `os.Open`. -/
  osOpen : List Char → Except String DataFile
  /-- `ioutil.ReadFile`. -/
  readFile : String → Except String (List UInt8)
  /-- `AppendCertsFromPEM`, on an empty pool. -/
  appendCertsFromPEM : List UInt8 → Bool
  /-- There is room for a channel with that capacity. -/
  chanFits : ℕ → Bool

/-- A panic: with an error of `fmt.Errorf`, or of the runtime. -/
inductive Panic
  /-- `panic(fmt.Errorf(…))`. -/
  | raised (err : String)
  /-- A runtime error. -/
  | runtime
deriving DecidableEq, Repr

/-- `tls.Config`, with the certificates of `RootCAs`. -/
structure TLSConfig where
  /-- `RootCAs`. -/
  rootCAs : Option (List UInt8)
deriving DecidableEq, Repr

/-! ### The functions -/

/-- The check of `loadConfig`. -/
def loadConfig (cfg : Flags) : Except Panic Flags :=
  if cfg.mode ≠ "udp" && cfg.mode ≠ "tcp" && cfg.mode ≠ "tls" then
    .error (.raised ("Protocol is wrong (" ++ cfg.mode ++ ")!"))
  else .ok cfg

/-- `loadRoots`. The second error is formatted with an `err` that is `nil`. -/
def loadRoots (env : Surroundings) (caPath : String) : Except String (Option (List UInt8)) :=
  if caPath = "" then .ok none
  else match env.readFile caPath with
    | .error err => .error ("error reading " ++ caPath ++ ": " ++ err)
    | .ok pem =>
      if env.appendCertsFromPEM pem then .ok (some pem)
      else .error "could not read root certs: %!s(<nil>)"

/-- `newTLSClientConfig`. -/
def newTLSClientConfig (env : Surroundings) (caPath : String) : Except String TLSConfig := do
  let roots ← loadRoots env caPath
  return { rootCAs := roots }

/-- The counters of the loops are never below zero. -/
def Flags.config (cfg : Flags) : Config :=
  { clients := cfg.clients.toInt.toNat, workers := cfg.workers.toInt.toNat, limit := cfg.limit
    uncached := cfg.uncached, ecs := cfg.ecs }

/-- `newTest`, with its panics, and the workers that `main` starts. -/
def startTest (env : Surroundings) (cfg : Flags) (domains : List (List Char)) :
    Except Panic Dnstest :=
  if cfg.clients < 0 || !env.chanFits cfg.config.clients then .error .runtime
  else if cfg.mode = "tls" then
    match newTLSClientConfig env cfg.caPath with
    | .error err => .error (.raised ("Init TLS config failed: " ++ err))
    | .ok _ => .ok (newTest cfg.config domains)
  else .ok (newTest cfg.config domains)

/-- `main`, up to the wait for the limit. -/
def dnstestMain (env : Surroundings) (flags : Flags) : Except Panic Dnstest := do
  let cfg ← loadConfig flags
  match loadData env.osOpen cfg.filepath predefinedDomains with
  | none => .error .runtime
  | some (some err, _) => .error (.raised ("Load data failed: " ++ err))
  | some (none, domains) => startTest env cfg domains

/-- The process, once the workers are started. -/
inductive Process
  /-- It runs, or `main` has returned. -/
  | running (dt : Dnstest)
  /-- A worker has panicked. -/
  | panicked
deriving DecidableEq, Repr

/-- The operation is a call of `getMsg` that panics. -/
def Dnstest.panicsAt (setQuestion : SetQuestion) (dt : Dnstest) : Event → Bool
  | .worker w (.getMsg id ip) =>
    match dt.workers[w]? with
    | some (.asking _ seed) => (getMsg setQuestion dt.domains seed dt.uncached dt.ecs id ip).isNone
    | _ => false
  | _ => false

/-- One operation of one goroutine. -/
def processStep (setQuestion : SetQuestion) : Process → Event → Option Process
  | .running dt, i =>
    if !dt.main.ended && dt.panicsAt setQuestion i then some .panicked
    else (dnstestStep setQuestion dt i).map .running
  | .panicked, _ => none

/-- What the world may do. -/
def Process.World : Process → Event → Prop
  | .running dt, i => DnsTools.World dt i
  | .panicked, _ => True

/-- The process has died of a panic, in a worker or in `stats`. -/
def Process.Died : Process → Prop
  | .running dt => dt.main = .divideByZero
  | .panicked => True

/-- A request is counted, and its number is the seed. -/
def Event.drawsSeed : Event → Bool
  | .worker _ .count => true
  | _ => false

/-- The workers are started, and no run panics in which the seeds do not overflow. -/
def Survives (setQuestion : SetQuestion) (env : Surroundings) (flags : Flags) : Prop :=
  ∃ dt, dnstestMain env flags = .ok dt ∧ ∀ events process,
    Run (processStep setQuestion) Process.World (.running dt) events process →
      events.countP Event.drawsSeed < 2 ^ 63 → ¬process.Died

/-! ### What `main` needs -/

/-- The list of domains can be loaded. -/
def Flags.Loads (env : Surroundings) (flags : Flags) : Prop :=
  flags.filepath ≠ [] → ∃ file, env.osOpen flags.filepath = .ok file ∧ [] ∉ file.scanned.lines

/-- The root certificates can be loaded. -/
def Flags.Trusts (env : Surroundings) (flags : Flags) : Prop :=
  flags.caPath ≠ "" → ∃ pem, env.readFile flags.caPath = .ok pem ∧ env.appendCertsFromPEM pem

/-- Some request may be made. -/
def Flags.Busy (flags : Flags) : Prop := 0 < flags.clients ∧ 0 < flags.workers

/-- What the program needs so as not to panic. -/
structure Flags.Sound (env : Surroundings) (flags : Flags) : Prop where
  /-- `-p` is one of the protocols. -/
  protocol : flags.mode ∈ ["udp", "tcp", "tls"]
  /-- `-f`. -/
  loads : flags.Loads env
  /-- `-n` is the capacity of a channel. -/
  clients : 0 ≤ flags.clients ∧ env.chanFits flags.config.clients
  /-- `-c`. -/
  trusts : flags.mode = "tls" → flags.Trusts env
  /-- There is a domain to ask for. -/
  asks : flags.Busy → flags.filepath ≠ [] → ∀ file, env.osOpen flags.filepath = .ok file →
    file.scanned.lines ≠ []
  /-- `-l` lasts a second. -/
  lasts : flags.Busy → nsInSec ≤ limitDuration flags.limit

variable {setQuestion : SetQuestion} {env : Surroundings} {flags : Flags} {dt dt₀ : Dnstest}
  {domains : List (List Char)}

theorem loadConfig_eq_ok {cfg : Flags} :
    loadConfig flags = .ok cfg ↔ flags.mode ∈ ["udp", "tcp", "tls"] ∧ flags = cfg := by
  rw [loadConfig]
  split_ifs with hwrong
  · simp at hwrong
    simp [hwrong]
  · have hmem : flags.mode ∈ ["udp", "tcp", "tls"] := by
      by_contra hmem
      simp at hmem
      simp [hmem] at hwrong
    simp [hmem]

theorem newTLSClientConfig_isOk :
    (newTLSClientConfig env flags.caPath).isOk ↔ flags.Trusts env := by
  rw [newTLSClientConfig, loadRoots, Flags.Trusts]
  by_cases hpath : flags.caPath = ""
  · simp [hpath]
    rfl
  · rw [if_neg hpath]
    cases hread : env.readFile flags.caPath with
    | error err => simp [hpath]; rfl
    | ok pem =>
      cases hcerts : env.appendCertsFromPEM pem <;> simp [hpath, hcerts] <;> rfl

theorem startTest_eq_ok :
    startTest env flags domains = .ok dt ↔
      ((0 ≤ flags.clients ∧ env.chanFits flags.config.clients) ∧
        (flags.mode = "tls" → flags.Trusts env)) ∧ dt = newTest flags.config domains := by
  rw [startTest]
  split_ifs with hchan htls
  · have hnot : ¬(0 ≤ flags.clients ∧ env.chanFits flags.config.clients) := by
      rintro ⟨hclients, hfits⟩
      simp [hfits, Int64.not_lt.mpr hclients] at hchan
    simp [hnot]
  all_goals
    have hclients : 0 ≤ flags.clients ∧ env.chanFits flags.config.clients := by
      simpa using hchan
  · rw [← newTLSClientConfig_isOk, and_iff_right hclients]
    cases newTLSClientConfig env flags.caPath with
    | error err => simp [htls, Except.isOk, Except.toBool]
    | ok tlsConfig => simp [Except.isOk, Except.toBool, eq_comm]
  · simp [hclients, htls, eq_comm]

theorem loadData_loaded_iff :
    (∃ domains, loadData env.osOpen flags.filepath predefinedDomains = some (none, domains)) ↔
      flags.Loads env := by
  by_cases hpath : flags.filepath = []
  · rw [loadData, if_pos hpath, Flags.Loads]
    simp [hpath]
  · rw [Flags.Loads, forall_prop_of_true hpath]
    cases hopen : env.osOpen flags.filepath with
    | error err =>
      rw [loadData, if_neg hpath, hopen]
      simp
    | ok file =>
      have houtcome := loadData_outcome predefinedDomains hpath hopen
      generalize loadData env.osOpen flags.filepath predefinedDomains = r at houtcome
      cases houtcome with
      | panics hblank => simp [hblank]
      | loaded hlines => simp [hlines]

/-- There are no domains exactly if a file has no lines. -/
theorem domains_ne_nil_iff
    (hload : loadData env.osOpen flags.filepath predefinedDomains = some (none, domains)) :
    domains ≠ [] ↔ (flags.filepath ≠ [] → ∀ file, env.osOpen flags.filepath = .ok file →
      file.scanned.lines ≠ []) := by
  by_cases hpath : flags.filepath = []
  · rw [loadData, if_pos hpath] at hload
    cases hload
    simp [hpath, predefinedDomains]
  · rw [forall_prop_of_true hpath]
    cases hopen : env.osOpen flags.filepath with
    | error err =>
      rw [loadData, if_neg hpath, hopen] at hload
      cases hload
    | ok file =>
      have houtcome := loadData_outcome predefinedDomains hpath hopen
      rw [hload] at houtcome
      cases houtcome
      simp

theorem dnstestMain_eq_ok :
    dnstestMain env flags = .ok dt ↔ flags.mode ∈ ["udp", "tcp", "tls"] ∧
      (0 ≤ flags.clients ∧ env.chanFits flags.config.clients) ∧
      (flags.mode = "tls" → flags.Trusts env) ∧
      ∃ domains, loadData env.osOpen flags.filepath predefinedDomains = some (none, domains) ∧
        dt = newTest flags.config domains := by
  rw [dnstestMain]
  cases hcfg : loadConfig flags with
  | error err =>
    have hmode : flags.mode ∉ ["udp", "tcp", "tls"] := by
      intro hmem
      rw [loadConfig_eq_ok.mpr ⟨hmem, rfl⟩] at hcfg
      cases hcfg
    simp only [hmode, false_and, iff_false]
    rintro ⟨⟩
  | ok cfg =>
    obtain ⟨hmode, rfl⟩ := loadConfig_eq_ok.mp hcfg
    rw [and_iff_right hmode]
    show (match loadData env.osOpen flags.filepath predefinedDomains with
      | none => Except.error Panic.runtime
      | some (some err, _) => .error (.raised ("Load data failed: " ++ err))
      | some (none, domains) => startTest env flags domains) = .ok dt ↔ _
    rcases loadData env.osOpen flags.filepath predefinedDomains with _ | ⟨_ | err, domains⟩
    · simp
    · simp only [startTest_eq_ok, Option.some.injEq, Prod.mk.injEq, true_and, exists_eq_left',
        and_assoc]
    · simp

/-! ### Runs of the process -/

/-- Until a worker panics the process is the machine of the workers. -/
theorem run_of_process {events : List Event} {process : Process}
    (hrun : Run (processStep setQuestion) Process.World (.running dt₀) events process) :
    (∃ dt, process = .running dt ∧ Run (dnstestStep setQuestion) World dt₀ events dt) ∨
      ∃ before i dt, process = .panicked ∧ events = before ++ [i] ∧
        Run (dnstestStep setQuestion) World dt₀ before dt ∧ dt.panicsAt setQuestion i := by
  refine hrun.invariant_history (P := fun events process =>
    (∃ dt, process = .running dt ∧ Run (dnstestStep setQuestion) World dt₀ events dt) ∨
      ∃ before i dt, process = .panicked ∧ events = before ++ [i] ∧
        Run (dnstestStep setQuestion) World dt₀ before dt ∧ dt.panicsAt setQuestion i) ?_ ?_
  · exact .inl ⟨dt₀, rfl, .nil dt₀⟩
  · rintro events process i process' - (⟨dt, rfl, hrun⟩ | ⟨-, -, -, rfl, -⟩) hworld hstep
    · rw [processStep] at hstep
      split_ifs at hstep with hpanics
      · rw [Bool.and_eq_true] at hpanics
        exact .inr ⟨events, i, dt, (Option.some.inj hstep).symm, rfl, hrun, hpanics.2⟩
      · obtain ⟨dt', hdt', rfl⟩ := Option.map_eq_some_iff.mp hstep
        exact .inl ⟨dt', rfl, Run.snoc_iff.mpr ⟨dt, hrun, hworld, hdt'⟩⟩
    · cases hstep

section Workers

variable {cfg : Config} {events : List Event}

/-- There are as many requests as seeds have been drawn. -/
theorem requested_eq_countP
    (hrun : Run (dnstestStep setQuestion) World (newTest cfg domains) events dt) :
    dt.requested = events.countP Event.drawsSeed := by
  refine hrun.invariant_history
    (P := fun events dt => dt.requested = events.countP Event.drawsSeed) rfl ?_
  intro events dt i dt' _ ih _ hstep
  rw [List.countP_append, List.countP_singleton, ← ih]
  rcases dnstestStep_cases hstep with ⟨w, e, p, p', dt₁, rfl, -, -, hop, rfl⟩ | ⟨e, rfl, hop⟩
  · show dt₁.requested = _
    cases hop <;> rfl
  · obtain ⟨main, seen, rfl⟩ := statsStep_frame hop
    rfl

/-- Where there is a domain no worker panics. -/
theorem not_panicsAt
    (hrun : Run (dnstestStep setQuestion) World (newTest cfg domains) events dt)
    (hdomains : domains ≠ []) (hseeds : events.countP Event.drawsSeed < 2 ^ 63) (i : Event) :
    dt.panicsAt setQuestion i = false := by
  fun_cases Dnstest.panicsAt setQuestion dt i
  case case1 w id ip conn seed hw =>
    have hrequested := (requested_eq_countP hrun).trans_lt hseeds
    have hunhindered := unhindered_of_run hrun hdomains hrequested hw
    rw [← Option.not_isSome, hunhindered id ip]
    rfl
  all_goals rfl

/-- Without clients, or without workers, nothing happens. -/
structure Dnstest.Idle (dt : Dnstest) : Prop where
  /-- Nobody has left the receive. -/
  workers : ∀ (w : ℕ) (p : WorkerPoint), dt.workers[w]? = some p → p = .receiving
  /-- There is nothing to receive. -/
  conns : dt.workers = [] ∨ dt.conns = []
  /-- Nothing is counted. -/
  count : dt.totalCount = 0
  /-- `stats` returns at once. -/
  main : dt.main = .waiting ∨ dt.main = .returned 0 0

theorem Dnstest.Idle.step (h : dt.Idle) {i : Event} {dt' : Dnstest}
    (hstep : dnstestStep setQuestion dt i = some dt') : dt'.Idle := by
  obtain ⟨hworkers, hconns, hcount, hmain⟩ := h
  rcases dnstestStep_cases hstep with ⟨w, e, p, p', dt₁, rfl, -, hw, hop, rfl⟩ | ⟨e, rfl, hop⟩
  · obtain rfl := hworkers w p hw
    have hnone : dt.conns = [] := by
      refine hconns.resolve_left fun hnil => ?_
      rw [hnil] at hw
      cases hw
    cases hop with
    | receiveNil conns hsome => rw [hnone] at hsome; cases hsome
    | receive conn conns hsome => rw [hnone] at hsome; cases hsome
  · rcases hmain with hmain | hmain
    · rw [hmain] at hop
      cases e with
      | loadCount =>
        rw [statsStep, if_pos hcount] at hop
        obtain rfl := Option.some.inj hop
        exact ⟨hworkers, hconns, hcount, .inr rfl⟩
      | _ => cases hop
    · rw [hmain] at hop
      cases hop

theorem Dnstest.Idle.initial (hidle : cfg.clients = 0 ∨ cfg.workers = 0) :
    (newTest cfg domains).Idle where
  workers w p hw := List.eq_of_mem_replicate (List.mem_of_getElem? hw)
  conns := by
    rcases hidle with hclients | hworkers
    · exact .inr (congrArg (List.replicate · none) hclients)
    · exact .inl (congrArg (List.replicate · _) hworkers)
  count := rfl
  main := .inl rfl

theorem Dnstest.Idle.run (hidle : cfg.clients = 0 ∨ cfg.workers = 0)
    (hrun : Run (dnstestStep setQuestion) World (newTest cfg domains) events dt) : dt.Idle :=
  hrun.invariant (fun _ _ _ h _ hstep => h.step hstep) (initial hidle)

theorem Dnstest.Idle.not_panicsAt (h : dt.Idle) (i : Event) :
    dt.panicsAt setQuestion i = false := by
  fun_cases Dnstest.panicsAt setQuestion dt i
  case case1 w id ip conn seed hw => cases h.workers w _ hw
  all_goals rfl

theorem Dnstest.Idle.not_divideByZero (h : dt.Idle) : dt.main ≠ .divideByZero := by
  rcases h.main with hmain | hmain <;> rw [hmain] <;> rintro ⟨⟩

/-! ### Runs that panic -/

/-- One request, the first. -/
def firstRequest : List Event :=
  [.worker 0 .receive, .worker 0 (.connect (some 0)), .worker 0 .count]

/-- The process with one request on its way, at `getMsg`. -/
def requesting (cfg : Config) (domains : List (List Char)) : Dnstest :=
  { newTest cfg domains with
    conns := List.replicate (cfg.clients - 1) none
    totalCount := 1
    workers := (List.replicate cfg.workers .receiving).set 0 (.asking 0 1)
    requested := 1
    dialed := [0] }

/-- The same, when `stats` has read the counters. -/
def summing (cfg : Config) (domains : List (List Char)) : Dnstest :=
  { requesting cfg domains with main := .summed 1 0, seen := ⟨1, [], 0⟩ }

theorem run_firstRequest (hclients : 0 < cfg.clients) (hworkers : 0 < cfg.workers) :
    Run (processStep setQuestion) Process.World (.running (newTest cfg domains)) firstRequest
      (.running (requesting cfg domains)) := by
  obtain ⟨clients, workers, limit, uncached, ecs⟩ := cfg
  obtain ⟨n, rfl⟩ : ∃ n, clients = n + 1 := Nat.exists_eq_add_one.mpr hclients
  obtain ⟨m, rfl⟩ : ∃ m, workers = m + 1 := Nat.exists_eq_add_one.mpr hworkers
  refine .cons trivial rfl (.cons ?_ rfl (.cons trivial rfl (.nil _)))
  exact List.not_mem_nil

/-- Without a domain the first request panics. -/
theorem panics_of_nil (hclients : 0 < cfg.clients) (hworkers : 0 < cfg.workers) :
    Run (processStep setQuestion) Process.World (.running (newTest cfg []))
      (firstRequest ++ [.worker 0 (.getMsg 0 (0, 0, 0))]) .panicked := by
  refine Run.snoc_iff.mpr ⟨_, run_firstRequest hclients hworkers, trivial, ?_⟩
  obtain ⟨clients, workers, limit, uncached, ecs⟩ := cfg
  obtain ⟨m, rfl⟩ : ∃ m, workers = m + 1 := Nat.exists_eq_add_one.mpr hworkers
  rfl

/-- A time that is no whole second, at or behind a limit that is none. -/
theorem exists_elapsed {duration : Int64} (h : ¬nsInSec ≤ duration) :
    ∃ elapsed : Int64, 0 ≤ elapsed ∧ duration ≤ elapsed ∧ elapsed / nsInSec = 0 := by
  have hsecond : nsInSec.toInt = 1000000000 := rfl
  rw [Int64.le_iff_toInt_le, hsecond] at h
  by_cases hneg : duration.toInt < 0
  · refine ⟨0, Int64.le_refl 0, ?_, rfl⟩
    rw [Int64.le_iff_toInt_le, Int64.toInt_zero]
    omega
  · refine ⟨duration, ?_, Int64.le_refl _, ?_⟩
    · rw [Int64.le_iff_toInt_le, Int64.toInt_zero]
      omega
    · rw [← Int64.toInt_inj, Int64.toInt_div_of_ne_right _ _ (by decide), hsecond,
        Int64.toInt_zero, Int.tdiv_eq_ediv_of_nonneg (by omega)]
      omega

/-- With a request on its way when the limit is over, and no whole second passed, `stats` divides
by zero. -/
theorem divides_of_elapsed (hclients : 0 < cfg.clients) (hworkers : 0 < cfg.workers)
    {elapsed : Int64} (hnonneg : 0 ≤ elapsed) (hlimit : limitDuration cfg.limit ≤ elapsed)
    (hsecond : elapsed / nsInSec = 0) :
    ∃ dt, Run (processStep setQuestion) Process.World (.running (newTest cfg domains))
        (firstRequest ++ [.main .loadCount, .main .loadRTT, .main (.since elapsed)])
        (.running dt) ∧ dt.main = .divideByZero := by
  have hlast : processStep setQuestion (.running (summing cfg domains)) (.main (.since elapsed)) =
      some (.running { summing cfg domains with
        main := .divideByZero, seen := ⟨1, [], elapsed⟩ }) := by
    show ((if elapsed / nsInSec = 0 then _ else _ : Option Dnstest).map Process.running) = _
    rw [if_pos hsecond]
    rfl
  refine ⟨_, (run_firstRequest hclients hworkers).append
    (.cons trivial rfl (.cons trivial rfl (.single ⟨hnonneg, hlimit⟩ hlast))), rfl⟩

end Workers

theorem busy_iff : flags.Busy ↔ 0 < flags.config.clients ∧ 0 < flags.config.workers := by
  rw [Flags.Busy, Int64.lt_iff_toInt_lt, Int64.lt_iff_toInt_lt, Int64.toInt_zero]
  show _ ↔ 0 < flags.clients.toInt.toNat ∧ 0 < flags.workers.toInt.toNat
  omega

/-- No run panics where there is a domain to ask for and the limit lasts a second, or where nothing
is asked for. -/
theorem not_died_of_run {events : List Event} {process : Process}
    (hdomains : flags.Busy → domains ≠ [])
    (hlasts : flags.Busy → nsInSec ≤ limitDuration flags.limit)
    (hrun : Run (processStep setQuestion) Process.World (.running (newTest flags.config domains))
      events process)
    (hseeds : events.countP Event.drawsSeed < 2 ^ 63) : ¬process.Died := by
  have hidle : ¬flags.Busy → flags.config.clients = 0 ∨ flags.config.workers = 0 := by
    rw [busy_iff]
    omega
  rcases run_of_process hrun with ⟨dt, rfl, hworkers⟩ | ⟨before, i, dt, rfl, rfl, hworkers, hpanics⟩
  · by_cases hbusy : flags.Busy
    · exact returned_of_second hworkers (hlasts hbusy)
    · exact (Dnstest.Idle.run (hidle hbusy) hworkers).not_divideByZero
  · have hfalse : dt.panicsAt setQuestion i = false := by
      by_cases hbusy : flags.Busy
      · refine not_panicsAt hworkers (hdomains hbusy) ?_ i
        rw [List.countP_append] at hseeds
        omega
      · exact (Dnstest.Idle.run (hidle hbusy) hworkers).not_panicsAt i
    rw [hfalse] at hpanics
    cases hpanics

/-- **When `dnstest` panics.** The workers are started, and no run panics before the seeds overflow,
exactly if: the protocol is known; a given file can be opened and has no empty line; a channel can
have the number of clients as its capacity; with `tls`, given certificates can be read; and, unless
there is no client or no worker, the file has a line and the limit lasts a second. -/
theorem dnstest_survives_iff (setQuestion : SetQuestion) (env : Surroundings) (flags : Flags) :
    Survives setQuestion env flags ↔ flags.Sound env := by
  constructor
  · rintro ⟨dt, hmain, hsafe⟩
    obtain ⟨hprotocol, hclients, htrusts, domains, hload, rfl⟩ := dnstestMain_eq_ok.mp hmain
    refine ⟨hprotocol, loadData_loaded_iff.mp ⟨domains, hload⟩, hclients, htrusts, ?_, ?_⟩
    · intro hbusy
      rw [← domains_ne_nil_iff hload]
      rintro rfl
      obtain ⟨hc, hw⟩ := busy_iff.mp hbusy
      exact hsafe _ _ (panics_of_nil hc hw) (by decide) trivial
    · intro hbusy
      by_contra hshort
      obtain ⟨hc, hw⟩ := busy_iff.mp hbusy
      obtain ⟨elapsed, hnonneg, hlimit, hsecond⟩ := exists_elapsed hshort
      obtain ⟨dt, hrun, hdied⟩ := divides_of_elapsed hc hw hnonneg hlimit hsecond
      exact hsafe _ _ hrun (show 1 < 2 ^ 63 by decide) hdied
  · rintro ⟨hprotocol, hloads, hclients, htrusts, hasks, hlasts⟩
    obtain ⟨domains, hload⟩ := loadData_loaded_iff.mpr hloads
    refine ⟨_, dnstestMain_eq_ok.mpr ⟨hprotocol, hclients, htrusts, domains, hload, rfl⟩, ?_⟩
    intro events process hrun hseeds
    refine not_died_of_run (fun hbusy => ?_) hlasts hrun hseeds
    exact (domains_ne_nil_iff hload).mpr (hasks hbusy)

end DnsTools
