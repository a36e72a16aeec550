import DnsTools.Analyser.Completes
import DnsTools.Lib.StableSort
import Mathlib.Algebra.BigOperators.Group.List.Basic
import Mathlib.Algebra.Order.Field.Rat
import Mathlib.Data.Rat.Cast.Defs
import Mathlib.Tactic.FieldSimp
import Mathlib.Tactic.NormNum
import Mathlib.Tactic.Ring

/-!
# The chart of the queue

The queue is the queries that are sent and not answered yet. Its chart counts the events of all
pairs in the order of time, and since the sort is stable and a pair puts the query in front of its
answer, no answer is counted before its query. The chart of many pairs shows means instead.

## Why the queue is never less than empty

A pair puts its query at the time of sending and its answer at the time of receiving, which is not
earlier. If it is later, the sort by time keeps the two in order. If the times are the same, their
order is that of the list that was sorted, and there the query comes first: this is where the sort
has to be stable. Of the pairs among each other nothing is assumed.

The proof cuts the sorted list anywhere. What is in front of the cut are, by `exists_cut` of
`StableSort`, the events of a first part of the pairs up to some time and those of the rest in front
of that time. Either way each pair gives its query if it gives its answer, so each of them counts
for zero or one (`IsPair.outstanding_cut`), and so the whole does not count for less than zero.

## Means

With many pairs the loop sums up the times and the lengths of the queue, and makes a point of every
`step` of them; what is left over makes one more. Points are means of points, as the scale of the
axes is linear. `QueueLoop.Means` ties the sums to the blocks that are done and the rest that is
not, and `meanRound_means` is the step. In Python `timestamps` and `queues` are sums of integers, so
nothing is rounded before the division.

## What is assumed

That a pair is a query, or a query and an answer that does not come before it, with its delay: this
is what a report has, by the bookkeeping of mig. The pairs may be in any order.

## Main results

* `Grinder.outstanding_nonneg` — the queue is never less than empty
* `Grinder.foldlM_meanRound` — the loop makes means
* `Grinder.makeQueue_exact` — the points of the chart, and its means
-/

namespace DnsTools

namespace Grinder

open Python

/-- A pair: a query, or a query, its answer, which does not come before it, and the delay. -/
inductive IsPair : List ℤ → Prop
  | unanswered (sent : ℤ) : IsPair [sent]
  | answered {sent received : ℤ} (delay : ℤ) (h : sent ≤ received) : IsPair [sent, received, delay]

/-- The queries sent less those answered. -/
def outstanding (events : List (ℤ × ℤ)) : ℤ :=
  (events.countP fun event => event.2 = 1 : ℕ) - (events.countP fun event => event.2 = -1 : ℕ)

/-- The time of each event, and the queries that are outstanding after it. -/
def history (events : List (ℤ × ℤ)) : List (ℤ × ℤ) :=
  events.mapIdx fun k event => (event.1, outstanding (events.take (k + 1)))

/-- The point for an event. -/
def exactPoint (start : ℤ) (entry : ℤ × ℤ) : Point :=
  ⟨((entry.1 - start : ℤ) : ℚ) / millisecond, entry.2⟩

/-- The mean of points. -/
def mean (points : List Point) : Point :=
  ⟨(points.map Point.x).sum / points.length, (points.map Point.y).sum / points.length⟩

/-- A list in consecutive blocks of one length; the last one may be shorter. -/
structure Blocks {α : Type} (step : ℕ) (xs : List α) (blocks : List (List α)) : Prop where
  /-- Every element is in one block. -/
  flatten : blocks.flatten = xs
  /-- The blocks in front of the last one. -/
  full : ∀ block ∈ blocks.dropLast, block.length = step
  /-- The last one. -/
  last : ∀ block ∈ blocks.getLast?, 1 ≤ block.length ∧ block.length ≤ step

variable {pairs : List (List ℤ)} {pair : List ℤ} {events before behind : List (ℤ × ℤ)}
  {event : ℤ × ℤ} {name color : String} {start t : ℤ}

/-! ### Blocks -/

section Blocks

variable {α β : Type} {step : ℕ} {xs rest : List α} {blocks : List (List α)}

theorem blocks_of_full (hflatten : blocks.flatten = xs)
    (hfull : ∀ block ∈ blocks, block.length = step) (hstep : 0 < step) : Blocks step xs blocks where
  flatten := hflatten
  full block hblock := hfull block ((List.dropLast_sublist _).subset hblock)
  last block hblock := by
    rw [hfull block (List.mem_of_getLast? hblock)]
    exact ⟨hstep, le_refl _⟩

theorem blocks_concat (hflatten : blocks.flatten ++ rest = xs)
    (hfull : ∀ block ∈ blocks, block.length = step) (hne : rest ≠ []) (hle : rest.length ≤ step) :
    Blocks step xs (blocks ++ [rest]) where
  flatten := by rw [List.flatten_concat, hflatten]
  full := by rwa [List.dropLast_concat]
  last block hblock := by
    rw [List.getLast?_concat] at hblock
    obtain rfl := Option.some.inj hblock
    exact ⟨List.length_pos_of_ne_nil hne, hle⟩

theorem Blocks.map (h : Blocks step xs blocks) (f : α → β) :
    Blocks step (xs.map f) (blocks.map (List.map f)) where
  flatten := by rw [← List.map_flatten, h.flatten]
  full := by
    intro block' hblock'
    rw [← List.map_dropLast] at hblock'
    obtain ⟨block, hblock, rfl⟩ := List.mem_map.mp hblock'
    rw [List.length_map, h.full block hblock]
  last := by
    intro block' hblock'
    rw [List.getLast?_map] at hblock'
    obtain ⟨block, hblock, rfl⟩ := Option.map_eq_some_iff.mp hblock'
    rw [List.length_map]
    exact h.last block hblock

end Blocks

/-! ### Outstanding queries -/

theorem outstanding_nil : outstanding [] = 0 := rfl

theorem outstanding_append (events events' : List (ℤ × ℤ)) :
    outstanding (events ++ events') = outstanding events + outstanding events' := by
  rw [outstanding, List.countP_append, List.countP_append, outstanding, outstanding]
  omega

theorem outstanding_singleton (h : event.2 = 1 ∨ event.2 = -1) : outstanding [event] = event.2 := by
  rcases h with h | h <;> simp [outstanding, h]

theorem outstanding_filter_cons (h : event.2 = 1 ∨ event.2 = -1) (p : ℤ × ℤ → Bool) :
    outstanding ((event :: events).filter p)
      = (if p event then event.2 else 0) + outstanding (events.filter p) := by
  rw [List.filter_cons]
  split_ifs with hp
  · rw [← List.singleton_append, outstanding_append, outstanding_singleton h]
  · exact (zero_add _).symm

theorem outstanding_filter_query (time : ℤ) (p : ℤ × ℤ → Bool) :
    outstanding (((time, 1) :: events).filter p)
      = (if p (time, 1) then 1 else 0) + outstanding (events.filter p) :=
  outstanding_filter_cons (.inl rfl) p

theorem outstanding_filter_answer (time : ℤ) (p : ℤ × ℤ → Bool) :
    outstanding (((time, -1) :: events).filter p)
      = (if p (time, -1) then -1 else 0) + outstanding (events.filter p) :=
  outstanding_filter_cons (.inr rfl) p

theorem outstanding_eq_of_perm {events' : List (ℤ × ℤ)} (h : events.Perm events') :
    outstanding events = outstanding events' := by
  rw [outstanding, h.countP_eq, h.countP_eq, outstanding]

theorem queueEvents_sign (pair : List ℤ) :
    ∀ event ∈ queueEvents pair, event.2 = 1 ∨ event.2 = -1 := by
  intro event hevent
  rcases pair with _ | ⟨sent, _ | ⟨received, _⟩⟩
  · exact absurd hevent List.not_mem_nil
  · obtain rfl := List.mem_singleton.mp hevent
    exact Or.inl rfl
  · rcases List.mem_pair.mp hevent with rfl | rfl
    · exact Or.inl rfl
    · exact Or.inr rfl

/-- The stable order. -/
theorem stablySorted_queueCounter (pairs : List (List ℤ)) :
    StablySorted Prod.fst (pairs.flatMap queueEvents) (queueCounter pairs) :=
  stablySorted_mergeSort Prod.fst _

theorem queueCounter_sign : ∀ event ∈ queueCounter pairs, event.2 = 1 ∨ event.2 = -1 := by
  intro event hevent
  have hmem := (stablySorted_queueCounter pairs).perm.mem_iff.mp hevent
  obtain ⟨pair, -, hpair⟩ := List.mem_flatMap.mp hmem
  exact queueEvents_sign pair event hpair

/-- A cut through the events of a pair: the answer is not in front of it without the query. -/
theorem IsPair.outstanding_cut (h : IsPair pair) (hcut : queueEvents pair = before ++ behind) :
    0 ≤ outstanding (before.filter fun e => e.1 ≤ t)
      + outstanding (behind.filter fun e => e.1 < t) := by
  cases h with
  | unanswered sent =>
    rcases List.append_eq_singleton_iff.mp hcut.symm with ⟨rfl, rfl⟩ | ⟨rfl, rfl⟩
    · simp only [outstanding_filter_query, List.filter_nil, outstanding_nil]
      split_ifs <;> omega
    · simp only [outstanding_filter_query, List.filter_nil, outstanding_nil]
      split_ifs <;> omega
  | @answered sent received delay hle =>
    rcases before with _ | ⟨e, _ | ⟨e', before⟩⟩
    · obtain rfl := hcut
      simp only [queueEvents, outstanding_filter_query, outstanding_filter_answer, List.filter_nil,
        outstanding_nil, decide_eq_true_eq]
      split_ifs <;> omega
    · obtain ⟨rfl, rfl⟩ := List.cons_eq_cons.mp hcut
      simp only [outstanding_filter_query, outstanding_filter_answer, List.filter_nil,
        outstanding_nil, decide_eq_true_eq]
      split_ifs <;> omega
    · rw [queueEvents, List.cons_append, List.cons_append, List.cons_eq_cons,
        List.cons_eq_cons] at hcut
      obtain ⟨rfl, rfl, hnil⟩ := hcut
      obtain ⟨rfl, rfl⟩ := List.append_eq_nil_iff.mp hnil.symm
      simp only [outstanding_filter_query, outstanding_filter_answer, List.filter_nil,
        outstanding_nil, decide_eq_true_eq]
      split_ifs <;> omega

theorem outstanding_cut (h : ∀ pair ∈ pairs, IsPair pair)
    (hcut : pairs.flatMap queueEvents = before ++ behind) :
    0 ≤ outstanding (before.filter fun e => e.1 ≤ t)
      + outstanding (behind.filter fun e => e.1 < t) := by
  induction pairs generalizing before behind with
  | nil =>
    obtain ⟨rfl, rfl⟩ := List.append_eq_nil_iff.mp hcut.symm
    exact le_refl 0
  | cons pair pairs ih =>
    obtain ⟨hpair, hpairs⟩ := List.forall_mem_cons.mp h
    rw [List.flatMap_cons] at hcut
    rcases List.append_eq_append_iff.mp hcut with ⟨as, rfl, has⟩ | ⟨bs, hbs, rfl⟩
    · have hfirst := hpair.outstanding_cut (t := t) (List.append_nil _).symm
      have hrest := ih hpairs has
      rw [List.filter_nil, outstanding_nil] at hfirst
      rw [List.filter_append, outstanding_append]
      omega
    · have hfirst := hpair.outstanding_cut (t := t) hbs
      have hrest := ih hpairs (List.nil_append _).symm
      rw [List.filter_nil, outstanding_nil] at hrest
      rw [List.filter_append, outstanding_append]
      omega

/-- The queue is never less than empty. -/
theorem outstanding_nonneg (h : ∀ pair ∈ pairs, IsPair pair) {first : List (ℤ × ℤ)}
    (hfirst : first <+: queueCounter pairs) : 0 ≤ outstanding first := by
  by_cases hne : first = []
  · rw [hne]
    exact le_refl 0
  · obtain ⟨before, behind, k, hcut, hperm⟩ :=
      (stablySorted_queueCounter pairs).exists_cut hfirst hne
    rw [outstanding_eq_of_perm hperm, outstanding_append]
    exact outstanding_cut h hcut

/-- What is left at the end are the pairs without an answer. -/
theorem outstanding_queueCounter (h : ∀ pair ∈ pairs, IsPair pair) :
    outstanding (queueCounter pairs) = (pairs.countP fun pair => pair.length = 1 : ℕ) := by
  rw [outstanding_eq_of_perm (stablySorted_queueCounter pairs).perm]
  induction pairs with
  | nil => rfl
  | cons pair pairs ih =>
    obtain ⟨hpair, hpairs⟩ := List.forall_mem_cons.mp h
    rw [List.flatMap_cons, outstanding_append, ih hpairs, List.countP_cons]
    cases hpair with
    | unanswered sent =>
      have hone : outstanding (queueEvents [sent]) = 1 := rfl
      rw [hone, if_pos (decide_eq_true List.length_singleton)]
      omega
    | @answered sent received delay hle =>
      have hzero : outstanding (queueEvents [sent, received, delay]) = 0 := rfl
      rw [hzero, if_neg (by simp)]
      omega

/-! ### The history -/

theorem history_concat (events : List (ℤ × ℤ)) (event : ℤ × ℤ) : history (events ++ [event])
    = history events ++ [(event.1, outstanding (events ++ [event]))] := by
  rw [history, List.mapIdx_concat, List.take_of_length_le (by simp), history]
  refine congrArg (· ++ [_]) (List.ext_getElem? fun k => ?_)
  rw [List.getElem?_mapIdx, List.getElem?_mapIdx]
  cases hk : events[k]? with
  | none => rfl
  | some e =>
    obtain ⟨hlt, -⟩ := List.getElem?_eq_some_iff.mp hk
    rw [Option.map_some, Option.map_some, List.take_append_of_le_length hlt]

theorem length_history (events : List (ℤ × ℤ)) : (history events).length = events.length :=
  List.length_mapIdx

/-- The loop over all events. -/
theorem foldl_queueRound (start : ℤ) (h : ∀ event ∈ events, event.2 = 1 ∨ event.2 = -1) :
    events.foldl (queueRound start) { data := [], queue := 0, timestamps := 0, queues := 0 }
      = { data := (history events).map (exactPoint start), queue := outstanding events
          timestamps := 0, queues := 0 } := by
  induction events using List.reverseRecOn with
  | nil => rfl
  | append_singleton events event ih =>
    have hqueue : outstanding (events ++ [event]) = outstanding events + event.2 := by
      rw [outstanding_append, outstanding_singleton (h event (by simp))]
    rw [List.foldl_append, ih fun e he => h e (List.mem_append_left _ he), history_concat,
      List.map_append, hqueue]
    rfl

/-! ### Means -/

/-- The variables of the loop that makes means: the blocks that it has made points of, and the
entries it has summed since. -/
structure QueueLoop.Means (start : ℤ) (step : ℕ) (seen : List (ℤ × ℤ))
    (blocks : List (List (ℤ × ℤ))) (rest : List (ℤ × ℤ)) (s : QueueLoop) : Prop where
  /-- Nothing is left out. -/
  entries : history seen = blocks.flatten ++ rest
  /-- The blocks are full. -/
  full : ∀ block ∈ blocks, block.length = step
  /-- The rest is not. -/
  short : rest.length < step
  /-- The points are the means. -/
  data : s.data = blocks.map fun block => mean (block.map (exactPoint start))
  /-- `queue`. -/
  queue : s.queue = outstanding seen
  /-- `timestamps`. -/
  timestamps : s.timestamps = (rest.map Prod.fst).sum
  /-- `queues`. -/
  queues : s.queues = (rest.map Prod.snd).sum

variable {entries rest : List (ℤ × ℤ)} {blocks : List (List (ℤ × ℤ))} {step : ℕ} {s : QueueLoop}
  {seen : List (ℤ × ℤ)}

theorem sum_exactPoint_x (start : ℤ) (entries : List (ℤ × ℤ)) :
    ((entries.map (exactPoint start)).map Point.x).sum
      = (((entries.map Prod.fst).sum : ℤ) - entries.length * start : ℚ) / millisecond := by
  induction entries with
  | nil => simp
  | cons entry entries ih =>
    rw [List.map_cons, List.map_cons, List.sum_cons, ih, List.map_cons, List.sum_cons,
      List.length_cons, exactPoint]
    push_cast
    ring

theorem sum_exactPoint_y (start : ℤ) (entries : List (ℤ × ℤ)) :
    ((entries.map (exactPoint start)).map Point.y).sum = ((entries.map Prod.snd).sum : ℤ) := by
  induction entries with
  | nil => simp
  | cons entry entries ih =>
    rw [List.map_cons, List.map_cons, List.sum_cons, ih, List.map_cons, List.sum_cons, exactPoint]
    push_cast
    rfl

/-- The point for some entries is their mean. -/
theorem meanPoint_eq (start : ℤ) (hne : entries ≠ []) :
    meanPoint start (entries.map Prod.fst).sum (entries.map Prod.snd).sum entries.length
      = .ok (mean (entries.map (exactPoint start))) := by
  have hpos : (entries.length : ℚ) ≠ 0 := Nat.cast_ne_zero.mpr (List.length_pos_of_ne_nil hne).ne'
  rw [mean, sum_exactPoint_x, sum_exactPoint_y, List.length_map, meanPoint, div_eq hpos,
    div_eq hpos]
  refine congrArg Except.ok (congrArg (Point.mk · _) ?_)
  have hms : (millisecond : ℚ) ≠ 0 := by norm_num [millisecond]
  field_simp

theorem length_flatten_of_full (h : ∀ block ∈ blocks, block.length = step) :
    blocks.flatten.length = blocks.length * step := by
  rw [List.length_flatten, List.map_congr_left h, List.map_const', List.sum_replicate_nat]

/-- A round of the loop takes an event into the rest, and makes a point of a full block. -/
theorem meanRound_means (hsign : event.2 = 1 ∨ event.2 = -1)
    (h : s.Means start step seen blocks rest) :
    Returns (meanRound start step s (event, seen.length)) fun s' =>
      ∃ blocks' rest', s'.Means start step (seen ++ [event]) blocks' rest' := by
  have hqueue : s.queue + event.2 = outstanding (seen ++ [event]) := by
    rw [h.queue, outstanding_append, outstanding_singleton hsign]
  have hentries : history (seen ++ [event])
      = blocks.flatten ++ (rest ++ [(event.1, outstanding (seen ++ [event]))]) := by
    rw [history_concat, h.entries, List.append_assoc]
  have htimestamps : s.timestamps + event.1
      = ((rest ++ [(event.1, outstanding (seen ++ [event]))]).map Prod.fst).sum := by
    rw [h.timestamps, List.map_append, List.sum_append]
    simp
  have hqueues : s.queues + (s.queue + event.2)
      = ((rest ++ [(event.1, outstanding (seen ++ [event]))]).map Prod.snd).sum := by
    rw [h.queues, hqueue, List.map_append, List.sum_append]
    simp
  have hlength : (rest ++ [(event.1, outstanding (seen ++ [event]))]).length = rest.length + 1 := by
    simp
  have hmod : (seen.length + 1) % step = (rest.length + 1) % step := by
    rw [← length_history seen, h.entries, List.length_append, length_flatten_of_full h.full,
      Nat.add_assoc, Nat.mul_add_mod']
  have hshort := h.short
  rw [meanRound, mod, if_neg (by omega), ok_bind, hmod]
  generalize rest ++ [(event.1, outstanding (seen ++ [event]))] = rest' at *
  split_ifs with hzero
  · have hfull : rest'.length = step := by
      have hle := Nat.le_of_dvd (Nat.succ_pos _) (Nat.dvd_of_mod_eq_zero hzero)
      omega
    have hne : rest' ≠ [] := List.ne_nil_of_length_pos (by omega)
    subst hfull
    rw [htimestamps, hqueues, meanPoint_eq start hne]
    refine returns_pure ⟨blocks ++ [rest'], [], ⟨?_, ?_, ?_, ?_, hqueue, rfl, rfl⟩⟩
    · rw [hentries, List.flatten_concat, List.append_nil]
    · exact List.forall_mem_append.mpr ⟨h.full, List.forall_mem_singleton.mpr rfl⟩
    · exact List.length_pos_of_ne_nil hne
    · rw [h.data, List.map_append]
      rfl
  · refine returns_pure
      ⟨blocks, rest', ⟨hentries, h.full, ?_, h.data, hqueue, htimestamps, hqueues⟩⟩
    rcases Nat.lt_or_ge (rest.length + 1) step with hlt | hge
    · omega
    · exact absurd (by rw [show rest.length + 1 = step by omega, Nat.mod_self]) hzero

/-- An entry of `enumerate`. -/
theorem of_concat_prefix_zipIdx {seen : List ((ℤ × ℤ) × ℕ)} {item : (ℤ × ℤ) × ℕ}
    (h : seen ++ [item] <+: events.zipIdx) : item.1 ∈ events ∧ item.2 = seen.length := by
  obtain ⟨behind, hbehind⟩ := h
  have hitem : events.zipIdx[seen.length]? = some item := by
    rw [← hbehind, List.append_assoc, List.getElem?_append_right (le_refl _), Nat.sub_self]
    rfl
  rw [List.getElem?_zipIdx, Option.map_eq_some_iff] at hitem
  obtain ⟨event, hevent, rfl⟩ := hitem
  exact ⟨List.mem_of_getElem? hevent, Nat.zero_add _⟩

/-- The loop makes means. -/
theorem foldlM_meanRound (start : ℤ) (hstep : 0 < step)
    (hsign : ∀ event ∈ events, event.2 = 1 ∨ event.2 = -1) :
    Returns (events.zipIdx.foldlM (meanRound start step)
      { data := [], queue := 0, timestamps := 0, queues := 0 }) fun s =>
        ∃ blocks rest, s.Means start step events blocks rest := by
  suffices hloop : Returns (events.zipIdx.foldlM (meanRound start step)
      { data := [], queue := 0, timestamps := 0, queues := 0 }) fun s =>
        ∃ blocks rest, s.Means start step (events.zipIdx.map Prod.fst) blocks rest by
    rwa [List.zipIdx_map_fst] at hloop
  refine returns_foldlM_history (R := fun seen (s : QueueLoop) =>
    ∃ blocks rest, s.Means start step (seen.map Prod.fst) blocks rest) ?_ ?_
  · exact ⟨[], [], rfl, by simp, hstep, rfl, rfl, rfl, rfl⟩
  · rintro seen s ⟨event, i⟩ hfirst ⟨blocks, rest, h⟩
    obtain ⟨hmem, hi⟩ := of_concat_prefix_zipIdx hfirst
    obtain rfl : i = (seen.map Prod.fst).length := hi.trans (List.length_map _).symm
    rw [List.map_append]
    exact meanRound_means (hsign event hmem) h

/-- The chart counts the queries that are outstanding. -/
structure QueueExact (pairs : List (List ℤ)) (name : String) (start : ℤ) (color : String) :
    Prop where
  /-- The events are in the order of time, those at one time in the order of the pairs. -/
  order : StablySorted Prod.fst (pairs.flatMap queueEvents) (queueCounter pairs)
  /-- The queue is never less than empty. -/
  nonneg : ∀ entry ∈ history (queueCounter pairs), 0 ≤ entry.2
  /-- In the end the queries without an answer are left. -/
  rest : ∀ entry ∈ (history (queueCounter pairs)).getLast?,
    entry.2 = (pairs.countP fun pair => pair.length = 1 : ℕ)
  /-- A chart of few pairs has a point for every event. -/
  exact : pairs.length / fitPoints ≤ 1 → makeQueue pairs name start color
    = .ok { values := (history (queueCounter pairs)).map (exactPoint start), key := name, color }
  /-- A chart of many pairs shows the means of consecutive blocks of the same points. -/
  means : 1 < pairs.length / fitPoints → ∃ blocks,
    Blocks (pairs.length / fitPoints)
        ((history (queueCounter pairs)).map (exactPoint start)) blocks ∧
      makeQueue pairs name start color = .ok { values := blocks.map mean, key := name, color }

theorem exists_prefix_of_mem_history {entry : ℤ × ℤ} (h : entry ∈ history events) :
    ∃ first, first <+: events ∧ entry.2 = outstanding first := by
  obtain ⟨k, hk, rfl⟩ := List.mem_mapIdx.mp h
  exact ⟨_, List.take_prefix _ _, rfl⟩

theorem getLast?_history {entry : ℤ × ℤ} (h : entry ∈ (history events).getLast?) :
    entry.2 = outstanding events := by
  rcases List.eq_nil_or_concat' events with rfl | ⟨events, event, rfl⟩
  · exact absurd h (by simp [history])
  · rw [history_concat, List.getLast?_concat] at h
    obtain rfl := Option.some.inj h
    rfl

theorem IsPair.ne_nil (h : IsPair pair) : pair ≠ [] := by
  cases h <;> exact List.cons_ne_nil _ _

/-- The branch with means. -/
theorem returns_makeQueue_means (name color : String) (start : ℤ)
    (h : ∀ pair ∈ pairs, IsPair pair) (hstep : 1 < pairs.length / fitPoints) :
    Returns (makeQueue pairs name start color) fun series => ∃ blocks,
      Blocks (pairs.length / fitPoints) (history (queueCounter pairs)) blocks ∧ series
        = { values := blocks.map fun block => mean (block.map (exactPoint start)), key := name
            color } := by
  have hne : pairs ≠ [] := by
    rintro rfl
    exact absurd hstep (by decide)
  rw [makeQueue]
  simp only [if_neg hstep.not_ge]
  generalize pairs.length / fitPoints = step at *
  have hstep0 : 0 < step := Nat.zero_lt_of_lt hstep
  refine (foldlM_meanRound start hstep0 queueCounter_sign).bind fun s hs => ?_
  obtain ⟨blocks, rest, hmeans⟩ := hs
  have hcounter := queueCounter_ne_nil hne fun pair hpair => (h pair hpair).ne_nil
  have hlength := List.length_pos_of_ne_nil hcounter
  have hmod : (queueCounter pairs).length % step = rest.length := by
    rw [← length_history, hmeans.entries, List.length_append, length_flatten_of_full hmeans.full,
      Nat.mul_add_mod', Nat.mod_eq_of_lt hmeans.short]
  rw [loopIndex_eq hcounter, ok_bind, mod, if_neg hstep0.ne', ok_bind, Nat.sub_add_cancel hlength,
    hmod]
  split_ifs with hrest
  · have hrestne : rest ≠ [] := fun hnil => hrest (congrArg List.length hnil)
    rw [hmeans.timestamps, hmeans.queues, meanPoint_eq start hrestne]
    refine returns_pure ⟨blocks ++ [rest], ?_, ?_⟩
    · exact blocks_concat hmeans.entries.symm hmeans.full hrestne hmeans.short.le
    · rw [hmeans.data, List.map_append]
      rfl
  · have hnil : rest = [] := List.eq_nil_of_length_eq_zero (not_not.mp hrest)
    refine returns_pure ⟨blocks, blocks_of_full ?_ hmeans.full hstep0, by rw [hmeans.data]⟩
    rw [hmeans.entries, hnil, List.append_nil]

/-- **The chart counts the queries that are outstanding.** With a point for every event, or with
the means of consecutive blocks of these points if there are many, the value after an event is the
number of queries sent less those answered up to it, in the stable order of time; it is never below
zero and ends at the number of pairs without an answer. -/
theorem makeQueue_exact (h : ∀ pair ∈ pairs, IsPair pair) : QueueExact pairs name start color := by
  refine ⟨stablySorted_queueCounter pairs, fun entry hentry => ?_, fun entry hentry => ?_,
    fun hstep => ?_, fun hstep => ?_⟩
  · obtain ⟨first, hfirst, heq⟩ := exists_prefix_of_mem_history hentry
    rw [heq]
    exact outstanding_nonneg h hfirst
  · rw [getLast?_history hentry, outstanding_queueCounter h]
  · rw [makeQueue]
    simp only [if_pos hstep, foldl_queueRound start queueCounter_sign]
    rfl
  · obtain ⟨series, hseries, blocks, hblocks, rfl⟩ :=
      returns_makeQueue_means name color start h hstep
    refine ⟨blocks.map (List.map (exactPoint start)), hblocks.map _, ?_⟩
    rw [hseries, List.map_map]
    rfl

/-- Many pairs: every third query has no answer, and the others have one when five more are sent. -/
def manyPairs : List (List ℤ) :=
  (List.range 1001).map fun i : ℕ => if i % 3 = 0 then [(i : ℤ)] else [(i : ℤ), i + 5, 5]

theorem isPair_manyPairs : ∀ pair ∈ manyPairs, IsPair pair := by
  intro pair hpair
  obtain ⟨i, -, rfl⟩ := List.mem_map.mp hpair
  split_ifs
  · exact .unanswered _
  · exact .answered 5 (by omega)

/-- Their chart shows means of two points. -/
theorem makeQueue_exact_manyPairs :
    manyPairs.length / fitPoints = 2 ∧ QueueExact manyPairs "queue" 0 "red" :=
  ⟨by rw [manyPairs, List.length_map, List.length_range]; rfl, makeQueue_exact isPair_manyPairs⟩

end Grinder

end DnsTools
