import DnsTools.Dnstest.Pool
import DnsTools.Dnstest.Questions
import DnsTools.Dnstest.LoadData
import DnsTools.Lib.Potential

/-!
# The turns of the workers of `dnstest`

A turn is what a worker does between two receives from `dt.conns`. A worker can be held up at one
place only, the receive, and only while the channel is empty (`isSome_dnstestStep_iff`). The channel
is empty when the workers hold all entries, so as many of them can go on as there are entries.

A turn has at most eight operations and comes to a dial that failed, to an exchange that was
completed or to a connection that was closed. These are counted by a potential: each worker has
the operations left to it that its turn may still take.

## Main results

* `workers_go_on` — who can go on, and how many
* `turns_accounted` — what has become of the turns of a run
-/

namespace DnsTools

/-! ### Who can go on -/

/-- The event is of the operation that comes next. -/
def WorkerPoint.offers : WorkerPoint → WorkerEvent → Bool
  | .receiving, .receive | .connecting, .connect _ | .counting _, .count | .asking _ _, .getMsg _ _
  | .writing _ _, .writeMsg _ | .reading _ _, .readMsg _ _ | .adding _ _, .addRTT
  | .closing _, .close | .sending _, .send => true
  | _, _ => false

/-- A worker waits for an entry of `dt.conns`, and there is none. -/
def Dnstest.heldUp (dt : Dnstest) (p : WorkerPoint) : Bool :=
  p == .receiving && dt.conns.isEmpty

/-- A worker neither panics nor finds the channel full. -/
def Dnstest.Unhindered (setQuestion : SetQuestion) (dt : Dnstest) : WorkerPoint → Prop
  | .asking _ seed => ∀ id ip,
      (getMsg setQuestion dt.domains seed dt.uncached dt.ecs id ip).isSome
  | .sending _ => dt.conns.length < dt.clients
  | _ => True

variable {setQuestion : SetQuestion} {dt dt₁ dt' : Dnstest} {p p' : WorkerPoint} {e : WorkerEvent}
  {w : ℕ}

theorem workerStep_of_not_offers (h : p.offers e = false) :
    workerStep setQuestion dt p e = none := by
  cases p <;> cases e <;> first | rfl | cases h

/-- The operation that comes next takes place whatever it comes to, unless the worker is held
up. -/
theorem isSome_workerStep_iff (h : dt.Unhindered setQuestion p) :
    (workerStep setQuestion dt p e).isSome ↔ p.offers e ∧ ¬dt.heldUp p := by
  by_cases hoffers : p.offers e
  case neg =>
    rw [workerStep_of_not_offers (Bool.eq_false_iff.mpr hoffers)]
    simp [hoffers]
  case pos =>
    rw [and_iff_right hoffers, Dnstest.heldUp]
    revert h hoffers
    fun_cases WorkerPoint.offers p e <;> intro h hoffers
    case case1 =>
      rw [workerStep]
      cases dt.conns with
      | nil => simp
      | cons conn conns => cases conn <;> simp
    case case2 conn => cases conn <;> simp [workerStep]
    case case4 conn seed id ip =>
      obtain ⟨req, hreq⟩ := Option.isSome_iff_exists.mp (h id ip)
      simp [workerStep, hreq]
    case case6 conn req resp rtt =>
      cases haccepts : accepts req resp <;> simp [workerStep, haccepts]
    case case9 conn =>
      have hroom : dt.conns.length < dt.clients := h
      simp [workerStep, hroom]
    case case10 => cases hoffers
    all_goals simp [workerStep]

section GoOn

variable {cfg : Config} {domains : List (List Char)} {events : List Event}

/-- Over a run no worker is lost. -/
theorem length_workers_of_run
    (hrun : Run (dnstestStep setQuestion) World (newTest cfg domains) events dt) :
    dt.workers.length = cfg.workers := by
  refine hrun.invariant (P := fun dt => dt.workers.length = cfg.workers) ?_ List.length_replicate
  intro dt i dt' hlength _ hstep
  rcases dnstestStep_cases hstep with ⟨w, e, p, p', dt₁, -, -, -, -, rfl⟩ | ⟨e, -, hop⟩
  · show (dt.workers.set w p').length = _
    rw [List.length_set, hlength]
  · obtain ⟨main, seen, rfl⟩ := statsStep_frame hop
    exact hlength

/-- While the seeds have not overflowed they are greater than zero. -/
theorem Dnstest.Seeded.one_le (h : dt.Seeded setQuestion) (hseeds : dt.requested < 2 ^ 63)
    {conn : Conn} {seed : Int64} (hmem : WorkerPoint.asking conn seed ∈ dt.workers) : 1 ≤ seed := by
  have hpending : seed ∈ dt.pending :=
    (Multiset.mem_filterMap _ _).mpr ⟨_, Multiset.mem_coe.mpr hmem, rfl⟩
  have hdrawn : seed ∈ (List.range dt.requested).map seedOf := by
    rw [← Multiset.mem_coe, ← h.seeds]
    exact Multiset.mem_add.mpr (.inr hpending)
  obtain ⟨i, hi, rfl⟩ := List.mem_map.mp hdrawn
  rw [List.mem_range] at hi
  have hone : (1 : Int64).toInt = 1 := rfl
  rw [Int64.le_iff_toInt_le, toInt_seedOf (by omega), hone]
  omega

theorem unhindered_of_run
    (hrun : Run (dnstestStep setQuestion) World (newTest cfg domains) events dt)
    (hdomains : domains ≠ []) (hseeds : dt.requested < 2 ^ 63) (hw : dt.workers[w]? = some p) :
    dt.Unhindered setQuestion p := by
  cases p with
  | asking conn seed =>
    intro id ip
    have hone := (Dnstest.Seeded.run hrun).one_le hseeds (List.mem_of_getElem? hw)
    rw [isSome_getMsg hone, (setBy_of_run hrun).domains]
    exact hdomains
  | sending conn => exact (Dnstest.Pooled.run hrun).room hw
  | _ => trivial

/-- Who is not held up has an entry, or there is one for it. -/
theorem countP_not_heldUp (h : dt.Pooled) :
    dt.workers.countP (fun p => !dt.heldUp p) =
      if dt.conns = [] then dt.clients else dt.workers.length := by
  by_cases hconns : dt.conns = []
  · have hheld : ∀ p : WorkerPoint, (!dt.heldUp p) = p.entry.isSome := by
      intro p
      rw [Dnstest.heldUp, hconns]
      cases p <;> rfl
    rw [if_pos hconns, ← h.length_add_held, hconns, List.length_nil, Nat.zero_add, Dnstest.held]
    exact List.countP_congr fun p _ => by rw [hheld]
  · have hempty : dt.conns.isEmpty = false := by simpa using hconns
    rw [if_neg hconns, List.countP_eq_length]
    intro p _
    rw [Dnstest.heldUp, hempty, Bool.and_false]
    rfl

/-- **The workers never come to a halt.** Whatever has happened, until `main` returns: a worker can
take its next operation, with any outcome, exactly if it does not wait for an entry while the
channel is empty. With an empty channel as many workers can go on as there are clients, else all of
them, and where there are no more workers than clients none is ever held up. -/
theorem workers_go_on
    (hrun : Run (dnstestStep setQuestion) World (newTest cfg domains) events dt)
    (hended : dt.main.ended = false) (hdomains : domains ≠ []) (hseeds : dt.requested < 2 ^ 63) :
    (∀ w p e, dt.workers[w]? = some p →
      ((dnstestStep setQuestion dt (.worker w e)).isSome ↔ p.offers e ∧ ¬dt.heldUp p)) ∧
      dt.workers.countP (fun p => !dt.heldUp p) =
        (if dt.conns = [] then cfg.clients else cfg.workers) ∧
      (cfg.workers ≤ cfg.clients → ∀ p ∈ dt.workers, dt.heldUp p = false) := by
  have hcount := countP_not_heldUp (Dnstest.Pooled.run hrun)
  rw [(setBy_of_run hrun).clients, length_workers_of_run hrun] at hcount
  refine ⟨?_, hcount, ?_⟩
  · intro w p e hw
    have hunhindered := unhindered_of_run hrun hdomains hseeds hw
    rw [← isSome_workerStep_iff hunhindered, dnstestStep, if_neg (Bool.eq_false_iff.mp hended), hw]
    cases hstep : workerStep setQuestion dt p e <;> simp [hstep]
  · intro hle p hmem
    have hall : dt.workers.countP (fun p => !dt.heldUp p) = dt.workers.length := by
      have hlength := length_workers_of_run hrun
      have hmost := List.countP_le_length (p := fun p => !dt.heldUp p) (l := dt.workers)
      split_ifs at hcount <;> omega
    exact Bool.not_eq_true' _ ▸ List.countP_eq_length.mp hall p hmem

/-- One client and two workers, of which the first has the entry and the second waits for it. -/
theorem workers_go_on_receiving :
    ∃ dt, Run (dnstestStep plainQuestion) World (newTest retryConfig [['a', '.']])
        [.worker 0 .receive] dt ∧ dt.heldUp .receiving ∧
      dt.workers.countP (fun p => !dt.heldUp p) = 1 := by
  have hrun : Run (dnstestStep plainQuestion) World (newTest retryConfig [['a', '.']])
      [.worker 0 .receive] _ := .of_foldlM_guarded rfl
  exact ⟨_, hrun, rfl, (workers_go_on hrun rfl (List.cons_ne_nil _ _) (by decide)).2.1⟩

end GoOn

/-! ### What becomes of a turn -/

/-- The operations that a turn may still take. -/
def WorkerPoint.left : WorkerPoint → ℕ
  | .receiving => 0
  | .connecting => 7
  | .counting _ => 6
  | .asking _ _ => 5
  | .writing _ _ => 4
  | .reading _ _ => 3
  | .adding _ _ | .closing _ => 2
  | .sending _ => 1

/-- One, where a turn has neither asked nor failed to dial. -/
def WorkerPoint.undecided : WorkerPoint → ℕ
  | .connecting | .counting _ => 1
  | _ => 0

/-- One, where a request was counted and nothing has become of it. -/
def WorkerPoint.underway : WorkerPoint → ℕ
  | .asking _ _ | .writing _ _ | .reading _ _ | .adding _ _ | .closing _ => 1
  | _ => 0

/-- The turns that have neither asked nor failed to dial. -/
def Dnstest.undecided (dt : Dnstest) : ℕ := (dt.workers.map WorkerPoint.undecided).sum

/-- The requests that nothing has become of. -/
def Dnstest.underway (dt : Dnstest) : ℕ := (dt.workers.map WorkerPoint.underway).sum

/-- An operation of a worker. -/
def Event.ofWorker : Event → Bool
  | .worker _ _ => true
  | .main _ => false

/-- A receive, with which a turn begins. -/
def Event.beginsTurn : Event → Bool
  | .worker _ .receive => true
  | _ => false

/-- A dial that fails. -/
def Event.failsDial : Event → Bool
  | .worker _ (.connect none) => true
  | _ => false

theorem WorkerStep.left_le (h : WorkerStep setQuestion dt p e p' dt₁) :
    p'.left + 1 ≤ p.left + if Event.beginsTurn (.worker w e) then 8 else 0 := by
  cases h <;> simp [WorkerPoint.left, Event.beginsTurn]

theorem WorkerStep.undecided_eq (h : WorkerStep setQuestion dt p e p' dt₁) :
    p'.undecided + dt₁.requested + (if Event.failsDial (.worker w e) then 1 else 0) =
      p.undecided + dt.requested + if Event.beginsTurn (.worker w e) then 1 else 0 := by
  cases h <;> simp [WorkerPoint.undecided, Event.failsDial, Event.beginsTurn] <;> omega

theorem WorkerStep.underway_eq (h : WorkerStep setQuestion dt p e p' dt₁) :
    dt₁.requested + p.underway + dt.completed.length + dt.closed.length =
      dt.requested + p'.underway + dt₁.completed.length + dt₁.closed.length := by
  cases h <;> simp [WorkerPoint.underway] <;> omega

section Turns

variable {cfg : Config} {domains : List (List Char)} {events : List Event}

theorem sum_workers_newTest (f : WorkerPoint → ℕ) (hf : f .receiving = 0) :
    ((newTest cfg domains).workers.map f).sum = 0 := by
  show ((List.replicate cfg.workers WorkerPoint.receiving).map f).sum = 0
  rw [List.map_replicate, hf, List.sum_replicate, nsmul_zero]

/-- A turn has eight operations at most. -/
theorem operations_le
    (hrun : Run (dnstestStep setQuestion) World (newTest cfg domains) events dt) :
    events.countP Event.ofWorker ≤ 8 * events.countP Event.beginsTurn := by
  have hsum := hrun.sum_cost_le (P := fun _ => True)
    (fun dt => (dt.workers.map WorkerPoint.left).sum)
    (fun i => if Event.ofWorker i then 1 else 0)
    (fun i => if Event.beginsTurn i then 8 else 0) (fun _ _ _ _ _ _ => trivial) ?_ trivial
  · rw [sum_workers_newTest _ rfl, Run.sum_map_ite, Run.sum_map_ite_mul] at hsum
    omega
  · intro dt i dt' _ _ hstep
    rcases dnstestStep_cases hstep with ⟨w, e, p, p', dt₁, rfl, -, hw, hop, rfl⟩ | ⟨e, rfl, hop⟩
    · have hset := sum_map_set hw WorkerPoint.left p'
      have hle := hop.left_le (w := w)
      show ((dt.workers.set w p').map WorkerPoint.left).sum + 1 ≤ _
      omega
    · obtain ⟨main, seen, rfl⟩ := statsStep_frame hop
      exact le_refl _

/-- A turn asks or fails to dial. -/
theorem turns_eq (hrun : Run (dnstestStep setQuestion) World (newTest cfg domains) events dt) :
    events.countP Event.beginsTurn =
      dt.requested + events.countP Event.failsDial + dt.undecided := by
  have hsum := hrun.balance (P := fun _ => True)
    (fun dt => dt.undecided + dt.requested)
    (fun i => if Event.failsDial i then 1 else 0)
    (fun i => if Event.beginsTurn i then 1 else 0) (fun _ _ _ _ _ _ => trivial) ?_ trivial
  · have hnone : (newTest cfg domains).undecided = 0 := sum_workers_newTest _ rfl
    have hzero : (newTest cfg domains).requested = 0 := rfl
    rw [hnone, hzero, Run.sum_map_ite, Run.sum_map_ite] at hsum
    omega
  · intro dt i dt' _ _ hstep
    rcases dnstestStep_cases hstep with ⟨w, e, p, p', dt₁, rfl, -, hw, hop, rfl⟩ | ⟨e, rfl, hop⟩
    · have hset := sum_map_set hw WorkerPoint.undecided p'
      have heq := hop.undecided_eq (w := w)
      show ((dt.workers.set w p').map WorkerPoint.undecided).sum + dt₁.requested + _ =
        (dt.workers.map WorkerPoint.undecided).sum + dt.requested + _
      omega
    · obtain ⟨main, seen, rfl⟩ := statsStep_frame hop
      rfl

/-- A request is completed or costs its connection. -/
theorem requested_eq (hrun : Run (dnstestStep setQuestion) World (newTest cfg domains) events dt) :
    dt.requested = dt.completed.length + dt.closed.length + dt.underway := by
  refine hrun.invariant (P := fun dt =>
    dt.requested = dt.completed.length + dt.closed.length + dt.underway) ?_ ?_
  · intro dt i dt' heq _ hstep
    rcases dnstestStep_cases hstep with ⟨w, e, p, p', dt₁, rfl, -, hw, hop, rfl⟩ | ⟨e, rfl, hop⟩
    · have hset := sum_map_set hw WorkerPoint.underway p'
      have hone := hop.underway_eq
      rw [Dnstest.underway] at heq
      show dt₁.requested = dt₁.completed.length + dt₁.closed.length +
        ((dt.workers.set w p').map WorkerPoint.underway).sum
      omega
    · obtain ⟨main, seen, rfl⟩ := statsStep_frame hop
      exact heq
  · have hnone : (newTest cfg domains).underway = 0 := sum_workers_newTest _ rfl
    rw [hnone]
    rfl

/-- A turn that is open has an entry. -/
theorem open_le_held (dt : Dnstest) : dt.undecided + dt.underway ≤ dt.held := by
  rw [Dnstest.held, ← Run.sum_map_ite, Dnstest.undecided, Dnstest.underway, ← List.sum_map_add]
  refine List.sum_le_sum fun p _ => ?_
  cases p <;> simp [WorkerPoint.undecided, WorkerPoint.underway, WorkerPoint.entry]

/-- **What has become of the turns.** In every run: each turn that was begun has asked, has failed
to dial or is before that; each request that was counted has been completed, has cost its connection
or is under way; as many turns are open as there are clients and workers at most; and the turns have
eight operations at most. So with every eight operations of the workers but a few, a request is
counted or a dial fails. -/
theorem turns_accounted
    (hrun : Run (dnstestStep setQuestion) World (newTest cfg domains) events dt) :
    events.countP Event.beginsTurn =
        dt.requested + events.countP Event.failsDial + dt.undecided ∧
      dt.requested = dt.completed.length + dt.closed.length + dt.underway ∧
      dt.undecided + dt.underway ≤ min cfg.clients cfg.workers ∧
      events.countP Event.ofWorker ≤ 8 * events.countP Event.beginsTurn := by
  refine ⟨turns_eq hrun, requested_eq hrun, ?_, operations_le hrun⟩
  refine le_min ((open_le_held dt).trans ?_) ((open_le_held dt).trans ?_)
  · rw [← (setBy_of_run hrun).clients, ← (Dnstest.Pooled.run hrun).length_add_held]
    exact Nat.le_add_left _ _
  · rw [← length_workers_of_run hrun]
    exact List.countP_le_length

/-- After the events of `retryEvents`: three turns, of which one failed to dial, one closed its
connection and one is open. -/
theorem turns_accounted_retry :
    ∃ dt, Run (dnstestStep plainQuestion) World (newTest retryConfig [['a', '.']]) retryEvents dt ∧
      dt.requested = 2 ∧ dt.requested = dt.completed.length + dt.closed.length + dt.underway := by
  have hrun : Run (dnstestStep plainQuestion) World (newTest retryConfig [['a', '.']])
      retryEvents _ := .of_foldlM_guarded rfl
  exact ⟨_, hrun, rfl, (turns_accounted hrun).2.1⟩

end Turns

end DnsTools
