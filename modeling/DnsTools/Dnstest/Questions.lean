import DnsTools.Dnstest.Stats
import DnsTools.Lib.Slots
import Mathlib.Data.Int.CardIntervalMod

/-!
# The questions of a run of `dnstest`

The workers share one counter, and its values are the seeds. Whatever the interleaving, the seeds
handed out are `1, 2, 3, …`, each to one call of `req` (`Dnstest.Seeded`). So the names that were
asked for are those of the first seeds, in some order.

The rest is about seeds. Without `-u` the names go through the list of domains in turn
(`count_succ_mod`). With it they begin with their seeds, in decimal and up to the first dot, so they
differ.

## Calls that have not returned

A worker draws its seed in one operation and has its message in a later one. In between the seed is
in its hands and in no message, so the invariant counts it there: the seeds of the messages and
those in hand are the first ones, as multisets. For the questions of a run it is therefore asked
that no call of `req` is under way. With `n` messages there are then exactly the first `n` seeds.

## Seeds that overflow

The counter is an `int64`, and its values are seeds for the remainder by the number of domains. A
negative seed has a negative remainder in Go and so no domain, unless the remainder is zero; the
program panics there. Up to then the seeds are `1, 2, 3, …`, and a list of one domain goes on past
the overflow. Only after `2^64` requests would a seed come a second time.

## Main results

* `Dnstest.Seeded.run` — the seeds of a run
* `seed_eq_of_questionName` — names that begin with their seeds tell the seeds
* `questions_of_run` — the names asked for, whatever the schedule
-/

namespace DnsTools

/-- The seed of the request after `i` others. -/
def seedOf (i : ℕ) : Int64 := Int64.ofNat (i + 1)

/-- The seed that a call of `req` has drawn while it has not returned. -/
def WorkerPoint.seed : WorkerPoint → Option Int64
  | .asking _ seed => some seed
  | _ => none

/-- The seeds of the calls of `req` that have not returned. -/
def Dnstest.pending (dt : Dnstest) : Multiset Int64 :=
  (dt.workers : Multiset WorkerPoint).filterMap WorkerPoint.seed

/-- The seeds of the calls of `req` that have returned. -/
def Dnstest.seeds (dt : Dnstest) : List Int64 := dt.asked.map Prod.fst

/-- The names asked for. -/
def Dnstest.names (dt : Dnstest) : List (List Char) := dt.asked.map fun a => a.2.name

/-- How often a position of the list of domains was asked for. -/
def Dnstest.uses (dt : Dnstest) (i : ℕ) : ℕ :=
  dt.seeds.countP fun seed => seedIndex seed dt.domains = some i

/-! ### The seeds of a run -/

/-- The seeds drawn are the first ones, and each message is that of its seed. -/
structure Dnstest.Seeded (setQuestion : SetQuestion) (dt : Dnstest) : Prop where
  /-- The seeds of all calls. -/
  seeds : (dt.seeds : Multiset Int64) + dt.pending = (List.range dt.requested).map seedOf
  /-- The messages. -/
  asked : ∀ a ∈ dt.asked, ∃ id ip,
    getMsg setQuestion dt.domains a.1 dt.uncached dt.ecs id ip = some a.2

namespace Dnstest.Seeded

variable {setQuestion : SetQuestion} {dt dt₁ dt' : Dnstest} {p p' : WorkerPoint} {e : WorkerEvent}
  {w : ℕ}

theorem initial (cfg : Config) (domains : List (List Char)) :
    (newTest cfg domains).Seeded setQuestion := by
  have hpending : (newTest cfg domains).pending = 0 := by
    have hworkers : (List.replicate cfg.workers WorkerPoint.receiving).filterMap
        WorkerPoint.seed = [] := List.filterMap_replicate_of_none rfl
    exact congrArg Multiset.ofList hworkers
  constructor
  case seeds =>
    rw [hpending]
    rfl
  case asked => exact List.forall_mem_nil _

theorem pending_of_asking {others : Multiset WorkerPoint} {conn : Conn} {seed : Int64} :
    (.asking conn seed ::ₘ others).filterMap WorkerPoint.seed =
      seed ::ₘ others.filterMap WorkerPoint.seed :=
  Multiset.filterMap_cons_some _ _ _ rfl

theorem worker (h : dt.Seeded setQuestion) (hcount : dt.totalCount = Int64.ofNat dt.requested)
    (hw : dt.workers[w]? = some p) (hstep : WorkerStep setQuestion dt p e p' dt₁) :
    { dt₁ with workers := dt.workers.set w p' }.Seeded setQuestion := by
  obtain ⟨others, hp, hset⟩ := exists_others hw
  have hseeds := h.seeds
  rw [pending, hp] at hseeds
  have hpending : ∀ dt : Dnstest, (dt.workers : Multiset WorkerPoint) = p' ::ₘ others →
      dt.pending = (p' ::ₘ others).filterMap WorkerPoint.seed := by
    intro dt hdt
    rw [pending, hdt]
  cases hstep with
  | count conn =>
    refine ⟨?_, h.asked⟩
    have hseed : dt.totalCount + 1 = seedOf dt.requested := by
      rw [hcount, seedOf, Int64.ofNat_add]
      rfl
    rw [Multiset.filterMap_cons_none _ _ rfl] at hseeds
    rw [hpending _ (hset _), pending_of_asking, hseed, Multiset.add_cons]
    show _ = Multiset.ofList ((List.range (dt.requested + 1)).map seedOf)
    rw [List.range_succ, List.map_append, List.map_singleton, coe_append_singleton, ← hseeds]
    rfl
  | getMsg conn seed id ip req hreq =>
    refine ⟨?_, ?_⟩
    · rw [pending_of_asking] at hseeds
      rw [hpending _ (hset _), Multiset.filterMap_cons_none _ _ rfl]
      show Multiset.ofList ((dt.asked ++ [(seed, req)]).map Prod.fst) + _ = _
      rw [List.map_append, List.map_singleton, coe_append_singleton, Multiset.cons_add,
        ← Multiset.add_cons]
      exact hseeds
    · intro a hmem
      rcases List.mem_append.mp hmem with hmem | hmem
      · exact h.asked a hmem
      · rw [List.mem_singleton.mp hmem]
        exact ⟨id, ip, hreq⟩
  | _ =>
    refine ⟨?_, h.asked⟩
    rw [hpending _ (hset _), Multiset.filterMap_cons_none _ _ rfl]
    rwa [Multiset.filterMap_cons_none _ _ rfl] at hseeds

/-- The invariant holds all over a run. -/
theorem run {cfg : Config} {domains : List (List Char)} {events : List Event}
    (hrun : Run (dnstestStep setQuestion) World (newTest cfg domains) events dt) :
    dt.Seeded setQuestion := by
  refine hrun.invariant_history (P := fun _ dt => dt.Seeded setQuestion) (initial cfg domains) ?_
  intro is s i s' hbefore h hworld hstep
  rcases dnstestStep_cases hstep with ⟨w, e, p, p', dt₁, rfl, -, hw, hop, rfl⟩ | ⟨e, rfl, hop⟩
  · exact h.worker (Counted.run hbefore).count hw hop
  · obtain ⟨main, seen, rfl⟩ := statsStep_frame hop
    exact ⟨h.seeds, h.asked⟩

end Dnstest.Seeded

/-! ### Turns -/

/-- How many of the first `n` seeds have a given remainder. -/
theorem count_succ_mod {k p : ℕ} (hk : 0 < k) (hp : p < k) (n : ℕ) :
    (List.range n).countP (fun i => (i + 1) % k = p) =
      n / k + if (p + (k - 1)) % k < n % k then 1 else 0 := by
  have hmod : ∀ i, (i + 1) % k = p ↔ i ≡ p + (k - 1) [MOD k] := by
    intro i
    have hsum : p + (k - 1) + 1 = p + k := by omega
    rw [← Nat.ModEq.add_iff_right (Nat.ModEq.refl 1), hsum, Nat.ModEq, Nat.add_mod_right,
      Nat.mod_eq_of_lt hp]
  rw [← Nat.count_modEq_card n hk]
  induction n with
  | zero => rfl
  | succ n ih =>
    rw [List.range_succ, List.countP_append, ih, Nat.count_succ, List.countP_singleton]
    simp only [decide_eq_true_eq, hmod]

/-! ### Seeds -/

section Seeds

variable {domains : List (List Char)} {n i : ℕ}

theorem toInt_seedOf (hi : i + 1 < 2 ^ 63) : (seedOf i).toInt = (i + 1 : ℕ) :=
  Int64.toInt_ofNat_of_lt hi

/-- A negative seed has an index only if it is the first one. -/
theorem dvd_of_seedIndex {seed : Int64} {j : ℕ} (h : seedIndex seed domains = some j)
    (hneg : seed.toInt < 0) : j = 0 ∧ (domains.length : ℤ) ∣ seed.toInt := by
  obtain ⟨hne, hj⟩ := seedIndex_eq_some h
  have hnonneg := Int.tmod_nonneg (domains.length : ℤ) (neg_nonneg.mpr hneg.le)
  rw [Int.neg_tmod] at hnonneg
  have hzero : seed.toInt.tmod domains.length = 0 := by omega
  exact ⟨by omega, Int.dvd_of_tmod_eq_zero hzero⟩

/-- Beyond the largest seed only a single domain can be asked for. -/
theorem length_eq_one_of_wrapped (hall : ∀ i < n, ∃ j, seedIndex (seedOf i) domains = some j)
    (hn : 2 ^ 63 < n) : domains.length = 1 := by
  obtain ⟨j, hj⟩ := hall (2 ^ 63 - 1) (by omega)
  obtain ⟨j', hj'⟩ := hall (2 ^ 63) (by omega)
  obtain ⟨-, hdvd⟩ := dvd_of_seedIndex hj (by decide)
  obtain ⟨-, hdvd'⟩ := dvd_of_seedIndex hj' (by decide)
  have hone : (seedOf (2 ^ 63)).toInt - (seedOf (2 ^ 63 - 1)).toInt = 1 := by decide
  have := hone ▸ dvd_sub hdvd' hdvd
  exact Nat.dvd_one.mp (Int.natCast_dvd_natCast.mp this)

/-- Where no call of `req` has failed, the seeds ask for the domains in turn. -/
theorem seedIndex_seedOf (hall : ∀ i < n, ∃ j, seedIndex (seedOf i) domains = some j)
    (hi : i < n) : seedIndex (seedOf i) domains = some ((i + 1) % domains.length) := by
  obtain ⟨j, hj⟩ := hall i hi
  obtain ⟨hne, hmod⟩ := seedIndex_eq_some hj
  rw [hj, Option.some.injEq]
  rcases lt_trichotomy (i + 1) (2 ^ 63) with hlt | heq | hgt
  · rw [toInt_seedOf hlt, Int.tmod_eq_emod_of_nonneg (by omega)] at hmod
    exact Int.natCast_inj.mp hmod
  · obtain rfl : i = 2 ^ 63 - 1 := by omega
    obtain ⟨rfl, hdvd⟩ := dvd_of_seedIndex hj (by decide)
    have hmin : (seedOf (2 ^ 63 - 1)).toInt = -((2 ^ 63 : ℕ) : ℤ) := by decide
    rw [hmin, Int.dvd_neg, Int.natCast_dvd_natCast] at hdvd
    exact (Nat.mod_eq_zero_of_dvd hdvd).symm
  · rw [length_eq_one_of_wrapped hall (by omega), Int.natCast_one, Int.tmod_one] at hmod
    rw [length_eq_one_of_wrapped hall (by omega), Nat.mod_one]
    omega

theorem seedOf_injOn {j : ℕ} (hi : i < 2 ^ 64) (hj : j < 2 ^ 64) (h : seedOf i = seedOf j) :
    i = j := by
  have hbmod := congrArg (fun seed => seed.toInt % (Int64.size : ℤ)) h
  simp only [seedOf, Int64.toInt_ofNat', Int.bmod_emod] at hbmod
  rw [show Int64.size = 2 ^ 64 from rfl] at hbmod
  omega

theorem questionName_uncached {seed : Int64} {name : List Char}
    (h : questionName seed domains true = some name) :
    ∃ domain ∈ domains, name = Decimal.formatInt seed.toInt ++ '.' :: domain := by
  obtain ⟨i, -, h⟩ := Option.bind_eq_some_iff.mp h
  obtain ⟨domain, hdomain, h⟩ := Option.bind_eq_some_iff.mp h
  exact ⟨domain, List.mem_of_getElem? hdomain, (Option.some.inj h).symm⟩

/-- Names that begin with their seeds tell the seeds. -/
theorem seed_eq_of_questionName {seed seed' : Int64} {name : List Char}
    (h : questionName seed domains true = some name)
    (h' : questionName seed' domains true = some name) : seed = seed' := by
  obtain ⟨domain, -, rfl⟩ := questionName_uncached h
  obtain ⟨domain', -, heq⟩ := questionName_uncached h'
  exact Int64.toInt_inj.mp (Decimal.formatInt_append_injective (by decide) (by decide) heq)

end Seeds

/-! ### The questions of a run -/

section Run

variable {setQuestion : SetQuestion} {cfg : Config} {domains : List (List Char)}
  {events : List Event} {dt : Dnstest}

theorem Dnstest.Seeded.questionName (h : dt.Seeded setQuestion)
    (hset : ∀ name qtype id, (setQuestion name qtype id).name = name) {a : Int64 × Msg}
    (ha : a ∈ dt.asked) :
    DnsTools.questionName a.1 dt.domains dt.uncached = some a.2.name := by
  obtain ⟨id, ip, hmsg⟩ := h.asked a ha
  exact questionName_of_getMsg hset hmsg

/-- When no call of `req` is under way, the calls that have returned had the first seeds. -/
theorem Dnstest.Seeded.seeds_eq (h : dt.Seeded setQuestion)
    (hdone : ∀ p ∈ dt.workers, p.seed = none) :
    dt.seeds.Perm ((List.range dt.asked.length).map seedOf) := by
  have hpending : dt.pending = 0 := by
    refine Multiset.eq_zero_of_forall_notMem fun seed hmem => ?_
    obtain ⟨p, hp, hseed⟩ := (Multiset.mem_filterMap _ _).mp hmem
    rw [hdone p hp] at hseed
    cases hseed
  have hseeds := h.seeds
  rw [hpending, Multiset.add_zero, Multiset.coe_eq_coe] at hseeds
  have hlength := hseeds.length_eq
  rw [Dnstest.seeds, List.length_map, List.length_map, List.length_range] at hlength
  rwa [hlength]

/-- How often a position was asked for. -/
theorem Dnstest.Seeded.uses_eq (h : dt.Seeded setQuestion)
    (hdone : ∀ p ∈ dt.workers, p.seed = none) {i : ℕ}
    (hi : i < dt.domains.length) :
    dt.uses i = dt.asked.length / dt.domains.length +
      if (i + (dt.domains.length - 1)) % dt.domains.length < dt.asked.length % dt.domains.length
      then 1 else 0 := by
  have hperm := h.seeds_eq hdone
  have hall : ∀ i < dt.asked.length, ∃ j, seedIndex (seedOf i) dt.domains = some j := by
    intro i hi
    have hmem := hperm.mem_iff.mpr (List.mem_map_of_mem (List.mem_range.mpr hi))
    obtain ⟨a, ha, heq⟩ := List.mem_map.mp hmem
    obtain ⟨id, ip, hmsg⟩ := h.asked a ha
    exact heq ▸ seedIndex_of_getMsg hmsg
  rw [← count_succ_mod (by omega) hi, Dnstest.uses, hperm.countP_eq, List.countP_map]
  refine List.countP_congr fun j hj => ?_
  simp [seedIndex_seedOf hall (List.mem_range.mp hj)]

/-- The names of distinct seeds are distinct. -/
theorem names_nodup (hseeds : dt.seeds.Nodup)
    (hname : ∀ a ∈ dt.asked, questionName a.1 domains true = some a.2.name) : dt.names.Nodup := by
  refine List.Nodup.map_on ?_ hseeds.of_map
  intro a ha b hb heq
  refine List.inj_on_of_nodup_map hseeds ha hb ?_
  exact seed_eq_of_questionName (hname a ha) (heq ▸ hname b hb)

/-- **The questions do not depend on the schedule.** When no call of `req` is under way and `n` have
returned, the names asked for are those of the first `n` seeds, in some order. Each position of the
list of domains has had its turn as often as each other one, but for one turn. With `-u` the names
all differ, and each is a seed in decimal before a domain of the list. The names would come again
with the seeds, after `2 ^ 64` requests. -/
theorem questions_of_run
    (hset : ∀ name qtype id, (setQuestion name qtype id).name = name)
    (hrun : Run (dnstestStep setQuestion) World (newTest cfg domains) events dt)
    (hdone : ∀ p ∈ dt.workers, p.seed = none) :
    (dt.names.map some).Perm ((List.range dt.names.length).map fun i =>
        questionName (seedOf i) domains cfg.uncached) ∧
      (∀ p < domains.length, ∀ q < domains.length, dt.uses p ≤ dt.uses q + 1) ∧
      (cfg.uncached = true →
        (dt.names.length ≤ 2 ^ 64 → dt.names.Nodup) ∧
        ∀ name ∈ dt.names, ∃ i < dt.names.length, ∃ domain ∈ domains,
          name = Decimal.formatInt (seedOf i).toInt ++ '.' :: domain) := by
  have hseeded := Dnstest.Seeded.run hrun
  obtain ⟨-, huncached, -, -, hdomains⟩ := setBy_of_run hrun
  have hperm := hseeded.seeds_eq hdone
  have hlength : dt.names.length = dt.asked.length := List.length_map _
  have hname : ∀ a ∈ dt.asked, questionName a.1 domains cfg.uncached = some a.2.name := by
    intro a ha
    rw [← huncached, ← hdomains]
    exact hseeded.questionName hset ha
  rw [hlength]
  refine ⟨?_, ?_, ?_⟩
  · have hnames : dt.names.map some =
        dt.seeds.map fun seed => questionName seed domains cfg.uncached := by
      rw [Dnstest.names, Dnstest.seeds, List.map_map, List.map_map]
      exact List.map_congr_left fun a ha => (hname a ha).symm
    rw [hnames]
    have := hperm.map fun seed => questionName seed domains cfg.uncached
    rwa [List.map_map] at this
  · intro p hp q hq
    rw [← hdomains] at hp hq
    rw [hseeded.uses_eq hdone hp, hseeded.uses_eq hdone hq]
    split_ifs <;> omega
  · intro hcached
    rw [hcached] at hname
    constructor
    · intro hn
      refine names_nodup ?_ hname
      refine hperm.nodup_iff.mpr (List.Nodup.map_on ?_ List.nodup_range)
      intro i hi j hj
      rw [List.mem_range] at hi hj
      exact seedOf_injOn (by omega) (by omega)
    · intro name hmem
      obtain ⟨a, ha, rfl⟩ := List.mem_map.mp hmem
      obtain ⟨i, hi, hseed⟩ := List.mem_map.mp (hperm.mem_iff.mp (List.mem_map_of_mem ha))
      rw [List.mem_range] at hi
      obtain ⟨domain, hdomain, hform⟩ := questionName_uncached (hname a ha)
      exact ⟨i, hi, domain, hdomain, hseed ▸ hform⟩

/-- Two workers ask at the same time, and the second one is the first to be done. -/
def crossedEvents : List Event :=
  [.worker 0 .receive, .worker 0 (.connect (some 0)), .worker 1 .receive,
    .worker 1 (.connect (some 1)), .worker 0 .count, .worker 1 .count,
    .worker 1 (.getMsg 7 (0, 0, 0)), .worker 0 (.getMsg 8 (0, 0, 0))]

theorem questions_of_run_crossed :
    ∃ dt, Run (dnstestStep plainQuestion) World
        (newTest { clients := 2, workers := 2, limit := 10, uncached := true, ecs := false }
          [['a', '.'], ['b', '.']]) crossedEvents dt ∧
      dt.names = [['2', '.', 'a', '.'], ['1', '.', 'b', '.']] ∧ dt.names.Nodup := by
  have hrun : Run (dnstestStep plainQuestion) World
      (newTest { clients := 2, workers := 2, limit := 10, uncached := true, ecs := false }
        [['a', '.'], ['b', '.']]) crossedEvents _ := .of_foldlM_guarded rfl
  obtain ⟨-, -, huncached⟩ := questions_of_run (fun _ _ _ => rfl) hrun (by decide)
  exact ⟨_, hrun, rfl, (huncached rfl).1 (by decide)⟩

end Run

end DnsTools
