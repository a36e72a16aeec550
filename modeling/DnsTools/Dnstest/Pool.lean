import DnsTools.Dnstest.Data
import DnsTools.Lib.Slots

/-!
# The connection pool of `dnstest`

The channel `dt.conns` and the hands of the workers together are the slots of the pool: as many as
there are clients, each empty or with a connection. Every operation of a worker is a step of the
slots (`WorkerStep.slots`): it moves an entry, fills an empty one with a connection that was just
dialed, or retires the connection of one. So the entries are never more or fewer than the clients, a
connection is in one place only, and a closed one in none.

The second half of the invariant is the account of the requests. Each one that was written has been
answered, is still owed to the worker that holds the connection, or was the last one on a connection
that is closed for it.

## Why slots

An entry may be in the channel or with a worker, and a worker may hold it at any of a dozen points
of its turn. To the pool this makes no difference: `WorkerPoint.entry` says which entry a worker
holds at a point, the slots are the multiset of all entries wherever they are, and what may happen
to slots in general is the subject of `Lib.Slots`. What has to be shown here is only that each
operation of a worker is one of these steps, which is a case analysis of the operations. The order
in the channel does not matter to any of it.

## What is assumed

The world gives a dial a connection that has not been given before. Everything else is left open:
which dials fail, what becomes of an exchange, and in what order the workers go on.

## Main results

* `WorkerStep.slots`, `WorkerStep.written` — what an operation does to the pool and to the account
* `Dnstest.Pooled.run` — the invariant over a run
* `pool_conserved` — the pool keeps its entries and its connections
-/

namespace DnsTools

/-- The entry of `dt.conns` that a worker holds. -/
def WorkerPoint.entry : WorkerPoint → Option (Option Conn)
  | .receiving => none
  | .connecting => some none
  | .counting conn | .asking conn _ | .writing conn _ | .reading conn _ | .adding conn _
  | .closing conn => some (some conn)
  | .sending conn => some conn

/-- The connection on which a worker is owed an answer. -/
def WorkerPoint.owed : WorkerPoint → Option Conn
  | .reading conn _ | .closing conn => some conn
  | _ => none

/-- The number of entries that workers hold. -/
def Dnstest.held (dt : Dnstest) : ℕ := dt.workers.countP fun p => p.entry.isSome

/-- The number of workers that hold a connection. -/
def Dnstest.holders (dt : Dnstest) (conn : Conn) : ℕ :=
  dt.workers.countP fun p => p.entry == some (some conn)

/-- The slots of the pool: the channel and the hands of the workers. -/
def Dnstest.slots (dt : Dnstest) : Slots Conn :=
  { slots := dt.conns + (dt.workers : Multiset WorkerPoint).filterMap WorkerPoint.entry
    retired := dt.closed }

/-- The connections on which answers are owed. -/
def Dnstest.owed (dt : Dnstest) : Multiset Conn :=
  (dt.workers : Multiset WorkerPoint).filterMap WorkerPoint.owed

/-- The invariant of the pool. -/
structure Dnstest.Pooled (dt : Dnstest) : Prop where
  /-- There are as many slots as clients. -/
  card : dt.slots.slots.card = dt.clients
  /-- No connection is in two places. -/
  sound : dt.slots.Sound
  /-- The connections are those that were dialed. -/
  dialed : (dt.dialed : Multiset Conn) = dt.slots.used
  /-- What became of the requests. -/
  written : (dt.written : Multiset Conn) = dt.answered + dt.owed + dt.closed

/-! ### What a step does to the pool -/

variable {setQuestion : SetQuestion} {dt dt₁ dt' : Dnstest} {p p' : WorkerPoint} {e : WorkerEvent}
  {w : ℕ} {ws : List WorkerPoint} {others : Multiset WorkerPoint}

theorem slots_of_workers (dt : Dnstest) (h : (dt.workers : Multiset WorkerPoint) = p ::ₘ others) :
    dt.slots = ⟨dt.conns + (p ::ₘ others).filterMap WorkerPoint.entry, dt.closed⟩ := by
  rw [Dnstest.slots, h]

theorem owed_of_workers (dt : Dnstest) (h : (dt.workers : Multiset WorkerPoint) = p ::ₘ others) :
    dt.owed = (p ::ₘ others).filterMap WorkerPoint.owed := by
  rw [Dnstest.owed, h]

/-- The entries of the workers, one of them apart. -/
theorem entries_of_holding {entry : Option Conn} (h : p.entry = some entry) :
    (p ::ₘ others).filterMap WorkerPoint.entry =
      entry ::ₘ others.filterMap WorkerPoint.entry :=
  Multiset.filterMap_cons_some _ _ _ h

theorem entries_of_receiving :
    (.receiving ::ₘ others).filterMap WorkerPoint.entry = others.filterMap WorkerPoint.entry :=
  Multiset.filterMap_cons_none _ _ rfl

/-- While a worker keeps its entry nothing happens to the slots. -/
theorem slots_eq (hconns : dt₁.conns = dt.conns) (hclosed : dt₁.closed = dt.closed)
    {entry : Option Conn} (hentry : p.entry = some entry) (hentry' : p'.entry = some entry)
    (hp : (dt.workers : Multiset WorkerPoint) = p ::ₘ others)
    (hp' : (dt₁.workers : Multiset WorkerPoint) = p' ::ₘ others) : dt₁.slots = dt.slots := by
  rw [slots_of_workers _ hp, slots_of_workers _ hp', hconns, hclosed, entries_of_holding hentry,
    entries_of_holding hentry']

/-- Nor when a worker takes an entry out of the channel. -/
theorem slots_eq_of_taken {entry : Option Conn} {conns : List (Option Conn)}
    (hconns : dt.conns = entry :: conns) (hconns' : dt₁.conns = conns)
    (hclosed : dt₁.closed = dt.closed) (hentry : p'.entry = some entry)
    (hp : (dt.workers : Multiset WorkerPoint) = .receiving ::ₘ others)
    (hp' : (dt₁.workers : Multiset WorkerPoint) = p' ::ₘ others) : dt₁.slots = dt.slots := by
  rw [slots_of_workers _ hp, slots_of_workers _ hp', hconns, hconns', hclosed,
    entries_of_holding hentry, entries_of_receiving, ← Multiset.cons_coe, Multiset.cons_add,
    Multiset.add_cons]

/-- An operation of a worker is a step of the slots. -/
theorem WorkerStep.slots (h : WorkerStep setQuestion dt p e p' dt₁)
    (hworld : World dt (.worker w e)) (hdialed : (dt.dialed : Multiset Conn) = dt.slots.used)
    (hp : (dt.workers : Multiset WorkerPoint) = p ::ₘ others)
    (hp' : (ws : Multiset WorkerPoint) = p' ::ₘ others) :
    ∃ new : Option Conn, dt.slots.Step new { dt₁ with workers := ws }.slots ∧
      dt₁.dialed = dt.dialed ++ new.toList := by
  have hstay : { dt₁ with workers := ws }.slots = dt.slots → dt₁.dialed = dt.dialed →
      ∃ new : Option Conn, dt.slots.Step new { dt₁ with workers := ws }.slots ∧
        dt₁.dialed = dt.dialed ++ new.toList := by
    intro hslots hdialed
    refine ⟨none, ?_, by simpa using hdialed⟩
    rw [hslots]
    exact .stay
  have hslots := slots_of_workers dt hp
  have hslots' := slots_of_workers { dt₁ with workers := ws } hp'
  cases h with
  | receiveNil conns hconns => exact hstay (slots_eq_of_taken hconns rfl rfl rfl hp hp') rfl
  | receive conn conns hconns => exact hstay (slots_eq_of_taken hconns rfl rfl rfl hp hp') rfl
  | connect conn =>
    refine ⟨some conn, ?_, rfl⟩
    rw [hslots', entries_of_holding rfl, Multiset.add_cons]
    refine .fill conn (dt.conns + others.filterMap WorkerPoint.entry) ?_ ?_
    · rw [hslots, entries_of_holding rfl, Multiset.add_cons]
    · rw [← hdialed]
      exact hworld
  | close conn =>
    refine ⟨none, ?_, (List.append_nil _).symm⟩
    rw [hslots', entries_of_holding rfl, Multiset.add_cons, coe_append_singleton]
    refine .retire conn (dt.conns + others.filterMap WorkerPoint.entry) ?_
    rw [hslots, entries_of_holding rfl, Multiset.add_cons]
  | send conn hroom =>
    refine hstay ?_ rfl
    rw [hslots, hslots', entries_of_holding (p := .sending conn) rfl, entries_of_receiving,
      coe_append_singleton, Multiset.cons_add, Multiset.add_cons]
  | _ => exact hstay (slots_eq rfl rfl rfl rfl hp hp') rfl

/-- An operation of a worker keeps the account of the requests. -/
theorem WorkerStep.written (h : WorkerStep setQuestion dt p e p' dt₁)
    (hwritten : (dt.written : Multiset Conn) = dt.answered + dt.owed + dt.closed)
    (hp : (dt.workers : Multiset WorkerPoint) = p ::ₘ others)
    (hp' : (ws : Multiset WorkerPoint) = p' ::ₘ others) :
    (dt₁.written : Multiset Conn) =
      dt₁.answered + { dt₁ with workers := ws }.owed + dt₁.closed := by
  rw [owed_of_workers dt hp] at hwritten
  rw [owed_of_workers { dt₁ with workers := ws } hp']
  have hnone : ∀ {q : WorkerPoint}, q.owed = none → (q ::ₘ others).filterMap WorkerPoint.owed =
      others.filterMap WorkerPoint.owed := fun h => Multiset.filterMap_cons_none _ _ h
  have hsome : ∀ {q : WorkerPoint} {conn : Conn}, q.owed = some conn →
      (q ::ₘ others).filterMap WorkerPoint.owed =
        conn ::ₘ others.filterMap WorkerPoint.owed :=
    fun h => Multiset.filterMap_cons_some _ _ _ h
  cases h with
  | write conn req =>
    rw [hnone rfl] at hwritten
    rw [hsome rfl, coe_append_singleton, hwritten, Multiset.add_cons, Multiset.cons_add]
  | writeFailed conn req =>
    rw [hnone rfl] at hwritten
    rw [hsome rfl, coe_append_singleton, hwritten, Multiset.add_cons, Multiset.cons_add]
  | read conn req resp rtt haccepts =>
    rw [hsome rfl] at hwritten
    rw [hnone rfl, coe_append_singleton, hwritten, Multiset.add_cons, Multiset.cons_add,
      Multiset.cons_add, Multiset.cons_add]
  | readFailed conn req resp rtt haccepts =>
    rw [hsome rfl] at hwritten ⊢
    exact hwritten
  | close conn =>
    rw [hsome rfl] at hwritten
    rw [hnone rfl, coe_append_singleton, hwritten, Multiset.add_cons, Multiset.cons_add,
      Multiset.add_cons]
  | _ =>
    rw [hnone rfl] at hwritten ⊢
    exact hwritten

/-! ### The invariant -/

/-- An answer is owed on a connection in hand. -/
theorem owed_sublist (ws : List WorkerPoint) :
    (ws.filterMap WorkerPoint.owed).Sublist ((ws.filterMap WorkerPoint.entry).filterMap id) := by
  induction ws with
  | nil => exact .refl []
  | cons p ws ih =>
    cases p with
    | reading conn req => exact ih.cons_cons conn
    | closing conn => exact ih.cons_cons conn
    | receiving | connecting => exact ih
    | sending conn =>
      cases conn with
      | none => exact ih
      | some conn => exact ih.cons conn
    | counting conn | asking conn _ | writing conn _ | adding conn _ => exact ih.cons conn

namespace Dnstest.Pooled

theorem initial (cfg : Config) (domains : List (List Char)) : (newTest cfg domains).Pooled := by
  have hslots : (newTest cfg domains).slots =
      ⟨(List.replicate cfg.clients (none : Option Conn) : List (Option Conn)), 0⟩ := by
    have hworkers : (List.replicate cfg.workers WorkerPoint.receiving).filterMap
        WorkerPoint.entry = [] := List.filterMap_replicate_of_none rfl
    rw [Dnstest.slots, Multiset.filterMap_coe]
    show Slots.mk (_ + Multiset.ofList ((List.replicate _ _).filterMap _)) _ = _
    rw [hworkers, Multiset.coe_nil, Multiset.add_zero]
    rfl
  have howed : (newTest cfg domains).owed = 0 := by
    have hworkers : (List.replicate cfg.workers WorkerPoint.receiving).filterMap
        WorkerPoint.owed = [] := List.filterMap_replicate_of_none rfl
    exact congrArg Multiset.ofList hworkers
  have hused : (newTest cfg domains).slots.used = 0 := by
    have hlive : (List.replicate cfg.clients (none : Option Conn)).filterMap id = [] :=
      List.filterMap_replicate_of_none rfl
    rw [hslots, Slots.used, Multiset.add_zero]
    exact congrArg Multiset.ofList hlive
  constructor
  case card => rw [hslots, Multiset.coe_card, List.length_replicate]; rfl
  case sound =>
    rw [Slots.Sound, hused]
    exact Multiset.nodup_zero
  case dialed => exact hused.symm
  case written =>
    rw [howed]
    rfl

theorem worker (h : dt.Pooled) (hworld : World dt (.worker w e)) (hw : dt.workers[w]? = some p)
    (hstep : WorkerStep setQuestion dt p e p' dt₁) :
    { dt₁ with workers := dt.workers.set w p' }.Pooled := by
  obtain ⟨others, hp, hset⟩ := exists_others hw
  obtain ⟨new, hslots, hdialed⟩ := hstep.slots hworld h.dialed hp (hset p')
  constructor
  case card =>
    rw [hslots.card_eq, h.card]
    cases hstep <;> rfl
  case sound => exact hslots.sound h.sound
  case dialed =>
    rw [hslots.used_eq, ← h.dialed, Multiset.coe_add]
    exact congrArg _ hdialed
  case written => exact hstep.written h.written hp (hset p')

/-- The invariant survives every step. -/
theorem step (h : dt.Pooled) {i : Event} (hworld : World dt i)
    (hstep : dnstestStep setQuestion dt i = some dt') : dt'.Pooled := by
  rcases dnstestStep_cases hstep with ⟨w, e, p, p', dt₁, rfl, -, hw, hop, rfl⟩ | ⟨e, rfl, hop⟩
  · exact h.worker hworld hw hop
  · obtain ⟨main, seen, rfl⟩ := statsStep_frame hop
    exact ⟨h.card, h.sound, h.dialed, h.written⟩

theorem run {cfg : Config} {domains : List (List Char)} {events : List Event}
    (hrun : Run (dnstestStep setQuestion) World (newTest cfg domains) events dt) : dt.Pooled :=
  hrun.invariant (fun _ _ _ h hworld hstep => h.step hworld hstep) (initial cfg domains)

/-- The channel and the hands of the workers hold as many entries as there are clients. -/
theorem length_add_held (h : dt.Pooled) : dt.conns.length + dt.held = dt.clients := by
  rw [← h.card, Dnstest.held, ← List.length_filterMap_eq_countP, ← List.length_append]
  rfl

/-- A worker with an entry finds room for it in the channel. -/
theorem room (h : dt.Pooled) {conn : Option Conn} (hw : dt.workers[w]? = some (.sending conn)) :
    dt.conns.length < dt.clients := by
  have hheld : 0 < dt.held := List.countP_pos_iff.mpr ⟨_, List.mem_of_getElem? hw, rfl⟩
  rw [← h.length_add_held]
  omega

/-- A connection is in one place at most. -/
theorem count_add_holders_le (h : dt.Pooled) (conn : Conn) :
    dt.conns.count (some conn) + dt.holders conn ≤ 1 := by
  have hslots : dt.slots.slots = (dt.conns ++ dt.workers.filterMap WorkerPoint.entry : List _) :=
    rfl
  calc dt.conns.count (some conn) + dt.holders conn
      = dt.conns.count (some conn) +
          (dt.workers.filterMap WorkerPoint.entry).count (some conn) := by
        rw [List.count_filterMap, Dnstest.holders]
    _ = (dt.conns ++ dt.workers.filterMap WorkerPoint.entry).count (some conn) :=
        List.count_append.symm
    _ = dt.slots.slots.count (some conn) := by
        rw [hslots, Multiset.coe_count, lawful_beq_subsingleton Option.instBEq instBEqOfDecidableEq]
    _ ≤ 1 := h.sound.count_slots_le_one conn

theorem closed_not_mem (h : dt.Pooled) {conn : Conn} (hconn : conn ∈ dt.closed) :
    some conn ∉ dt.slots.slots :=
  h.sound.not_mem_slots hconn

/-- At most one request on a connection is not answered. -/
theorem written_le (h : dt.Pooled) (conn : Conn) :
    dt.written.count conn ≤ dt.answered.count conn + 1 := by
  have howed : dt.owed ≤ dt.slots.live := by
    rw [Slots.live]
    show (_ : Multiset Conn) ≤ (Multiset.ofList (_ ++ _)).filterMap id
    rw [Multiset.filterMap_coe, List.filterMap_append]
    exact ((owed_sublist _).trans (List.sublist_append_right _ _)).subperm
  have hused := Multiset.nodup_iff_count_le_one.mp h.sound conn
  rw [Slots.used, Multiset.count_add] at hused
  have hcount := congrArg (Multiset.count conn) h.written
  rw [Multiset.count_add, Multiset.count_add, Multiset.coe_count, Multiset.coe_count] at hcount
  have hle := Multiset.count_le_of_le conn howed
  have : dt.slots.retired = dt.closed := rfl
  rw [this] at hused
  omega

end Dnstest.Pooled

/-! ### The pool over whole runs -/

/-- **The pool conserves its entries and its connections.** Whatever the dials and the exchanges
come to, and however the workers interleave: the channel and the hands of the workers hold as many
entries as there are clients, so a worker that puts one back does not block. A connection is in one
of these places at most and has at most one request that is not answered, and a connection that was
closed is not in the channel. -/
theorem pool_conserved {cfg : Config} {domains : List (List Char)} {events : List Event}
    (hrun : Run (dnstestStep setQuestion) World (newTest cfg domains) events dt) :
    dt.conns.length + dt.held = cfg.clients ∧
      (∀ (w : ℕ) (conn : Option Conn), dt.workers[w]? = some (.sending conn) →
        (workerStep setQuestion dt (.sending conn) .send).isSome) ∧
      (∀ conn, dt.conns.count (some conn) + dt.holders conn ≤ 1) ∧
      (∀ conn, dt.written.count conn ≤ dt.answered.count conn + 1) ∧
      ∀ conn ∈ dt.closed, some conn ∉ dt.conns := by
  have hpooled := Dnstest.Pooled.run hrun
  refine ⟨?_, ?_, hpooled.count_add_holders_le, hpooled.written_le, ?_⟩
  · rw [hpooled.length_add_held, (setBy_of_run hrun).clients]
  · intro w conn hw
    rw [workerStep, if_pos (hpooled.room hw)]
    rfl
  · intro conn hconn hmem
    exact hpooled.closed_not_mem hconn (Multiset.mem_add.mpr (.inl hmem))

/-- One client and two workers. -/
def retryConfig : Config :=
  { clients := 1, workers := 2, limit := 10, uncached := false, ecs := false }

/-- The first worker fails to dial, the second one loses a reply and closes its connection, and
then the first one has its turn. -/
def retryEvents : List Event :=
  [.worker 0 .receive, .worker 0 (.connect none), .worker 0 .send, .worker 1 .receive,
    .worker 1 (.connect (some 0)), .worker 1 .count, .worker 1 (.getMsg 7 (0, 0, 0)),
    .worker 1 (.writeMsg true), .worker 1 (.readMsg none 5000000000), .worker 1 .close,
    .worker 1 .send, .worker 0 .receive, .worker 0 (.connect (some 1)), .worker 0 .count,
    .worker 0 (.getMsg 8 (0, 0, 0)), .worker 0 (.writeMsg true)]

theorem pool_conserved_retry :
    ∃ dt, Run (dnstestStep plainQuestion) World (newTest retryConfig [['a', '.']]) retryEvents dt ∧
      dt.conns.length + dt.held = 1 ∧ some 0 ∉ dt.conns := by
  have hrun : Run (dnstestStep plainQuestion) World (newTest retryConfig [['a', '.']])
      retryEvents _ := .of_foldlM_guarded rfl
  obtain ⟨hentries, -, -, -, hclosed⟩ := pool_conserved hrun
  exact ⟨_, hrun, hentries, hclosed 0 (by decide)⟩

end DnsTools
