import DnsTools.Analyser.Completes
import DnsTools.Lib.StableSort
import Mathlib.Algebra.BigOperators.Ring.Finset
import Mathlib.Data.List.Sort

/-!
# The histogram of the delays

One pass over the sorted delays and the buckets puts every delay into the first bucket whose bound
is not below it. But the point of a bucket with a single delay is that of an empty one.

## The pass

`make_processing` has two loops, one inside the other, over one list of buckets: the outer goes over
the delays, the inner moves on as long as the bound is below the delay, and both stop at the last
bucket. The state is a position in the list of the buckets, so it is modelled as what has been
passed, the bucket at which the pass is, and what is still to come (`Filling`). The invariant
`Filling.Holds` says that the delays so far are where they belong, and that each bucket passed is
too low for one of them. As the delays are sorted, it is then too low for all that follow, and this
is why the pass never has to go back.

`placement` is the plain statement of where the delays belong, with no pass in it: each bucket has
those delays for which it is the first that is not too low, and the last one also those that are
above all bounds.

## Which delays

`sortedDelays` sorts the delays and drops those at its front that are not positive. So the histogram
is one of the positive delays. A delay of zero cannot come about in mig, where an answer counts only
if it comes later than its query.

## What is lost

The buckets at both ends that are empty are cut off, which loses nothing. A point of a bucket with
`count > 1` has its count for its height, and any other the height zero. So a delay that is alone in
its bucket is not shown, and the sum of the heights is the number of delays exactly if there is no
such bucket. The bounds of the buckets come from logarithms and powers and may be any numbers here:
the result is for any bounds, and says that the charts are made of these if they are the ones that
the program computes.

## Main results

* `Grinder.fill_eq` — every delay is put into its bucket
* `Grinder.sum_placement` — no delay is counted twice or not at all
* `Grinder.histogramExact_iff` — exactly when no delay is lost
-/

namespace DnsTools

namespace Grinder

open Python

/-- The delays of the pairs that are greater than zero. -/
def positiveDelays (pairs : List (List ℤ)) : List ℤ :=
  (pairs.filterMap fun pair => pair[2]?).filter fun delay => 0 < delay

/-- The place of the bucket of a delay: the first whose bound is not below it, or the last one. -/
def bucketOf (bounds : List ℚ) (delay : ℤ) : ℕ :=
  Nat.min (bounds.findIdx fun bound => (delay : ℚ) ≤ bound) (bounds.length - 1)

/-- The buckets, with the delays that belong to them. -/
def placement (bounds : List ℚ) (delays : List ℤ) : List Bucket :=
  bounds.mapIdx fun i bound => ⟨bound, delays.filter fun delay => bucketOf bounds delay = i⟩

variable {bounds : List ℚ} {delays seen : List ℤ} {pairs : List (List ℤ)} {name color : String}
  {buckets : List Bucket} {bucket : Bucket} {delay : ℤ} {f : Filling}

/-! ### The delays -/

theorem dropWhile_eq_filter (h : delays.Pairwise (· ≤ ·)) :
    delays.dropWhile (· ≤ 0) = delays.filter fun delay => 0 < delay := by
  induction delays with
  | nil => rfl
  | cons delay delays ih =>
    obtain ⟨hle, hsorted⟩ := List.pairwise_cons.mp h
    by_cases hpos : delay ≤ 0
    · rw [List.dropWhile_cons_of_pos (by simpa using hpos),
        List.filter_cons_of_neg (by simpa using hpos), ih hsorted]
    · rw [List.dropWhile_cons_of_neg (by simpa using hpos), List.filter_eq_self.mpr]
      intro t ht
      rcases List.mem_cons.mp ht with rfl | ht
      · simpa using hpos
      · simpa using (not_le.mp hpos).trans_le (hle t ht)

theorem pairwise_mergeSort (delays : List ℤ) : (delays.mergeSort (· ≤ ·)).Pairwise (· ≤ ·) :=
  (stablySorted_mergeSort id delays).sorted

/-- All positive delays are there. -/
theorem sortedDelays_perm : (sortedDelays pairs).Perm (positiveDelays pairs) := by
  rw [sortedDelays, dropWhile_eq_filter (pairwise_mergeSort _), positiveDelays]
  refine ((List.mergeSort_perm _ _).trans (List.Perm.of_eq ?_)).filter _
  refine List.filterMap_congr fun pair _ => ?_
  rcases pair with _ | ⟨_, _ | ⟨_, _ | ⟨_, _⟩⟩⟩ <;> rfl

theorem sortedDelays_sorted (pairs : List (List ℤ)) : (sortedDelays pairs).Pairwise (· ≤ ·) :=
  (pairwise_mergeSort _).sublist (List.dropWhile_sublist _)

/-! ### The pass over the buckets -/

/-- The loop passes buckets whose bounds are below the delay, and stops at the first other one, or
at the last bucket. -/
theorem seek_eq (delay : ℤ) (before : List Bucket) (bucket : Bucket) (behind : List Bucket) :
    ∃ passed bucket' behind', seek delay before bucket behind
        = ⟨before ++ passed, bucket', behind'⟩ ∧
      bucket :: behind = passed ++ bucket' :: behind' ∧ (∀ b ∈ passed, b.bound < delay) ∧
      (bucket'.bound < delay → behind' = []) := by
  induction behind generalizing before bucket with
  | nil => exact ⟨[], bucket, [], by rw [List.append_nil]; rfl, rfl, by simp, fun _ => rfl⟩
  | cons next behind ih =>
    rw [seek]
    split_ifs with hlt
    · obtain ⟨passed, bucket', behind', hseek, heq, hpassed, hstop⟩ := ih (before ++ [bucket]) next
      refine ⟨bucket :: passed, bucket', behind', ?_, ?_, ?_, hstop⟩
      · rw [hseek, List.append_assoc, List.singleton_append]
      · rw [heq, List.cons_append]
      · exact List.forall_mem_cons.mpr ⟨hlt, hpassed⟩
    · exact ⟨[], bucket, next :: behind, by rw [List.append_nil], rfl, by simp,
        fun hlt' => absurd hlt' hlt⟩

/-- What is passed and where the loop stops make the place of a delay. -/
theorem bucketOf_append {passed behind : List ℚ} {bound : ℚ} (hpassed : ∀ b ∈ passed, b < delay)
    (hstop : bound < delay → behind = []) :
    bucketOf (passed ++ bound :: behind) delay = passed.length := by
  have hnone : passed.findIdx (fun bound => (delay : ℚ) ≤ bound) = passed.length :=
    List.findIdx_eq_length_of_false fun b hb => by simpa using hpassed b hb
  rw [bucketOf, List.findIdx_append, hnone, if_neg (lt_irrefl _), List.findIdx_cons]
  by_cases hle : (delay : ℚ) ≤ bound
  · simp [hle]
  · simp [hle, hstop (not_le.mp hle)]

theorem bucketOf_lt (hne : bounds ≠ []) : bucketOf bounds delay < bounds.length := by
  have hpos : 0 < bounds.length := List.length_pos_of_ne_nil hne
  exact (Nat.min_le_right _ _).trans_lt (Nat.sub_one_lt_of_lt hpos)

/-- A delay goes into its bucket. -/
def Bucket.add (delay : ℤ) (bucket : Bucket) : Bucket :=
  { bucket with delays := bucket.delays ++ [delay] }

theorem placement_concat : placement bounds (delays ++ [delay])
    = (placement bounds delays).modify (bucketOf bounds delay) (Bucket.add delay) := by
  refine List.ext_getElem? fun i => ?_
  rw [List.getElem?_modify, placement, placement, List.getElem?_mapIdx, List.getElem?_mapIdx]
  cases bounds[i]? with
  | none => rfl
  | some bound =>
    by_cases hi : bucketOf bounds delay = i
    · simp [hi, Bucket.add]
    · simp [hi]

theorem bounds_placement (bounds : List ℚ) (delays : List ℤ) :
    (placement bounds delays).map Bucket.bound = bounds := by
  refine List.ext_getElem? fun i => ?_
  rw [List.getElem?_map, placement, List.getElem?_mapIdx]
  cases bounds[i]? <;> rfl

theorem modify_append {passed behind : List Bucket} {g : Bucket → Bucket} :
    (passed ++ bucket :: behind).modify passed.length g = passed ++ g bucket :: behind := by
  induction passed with
  | nil => rfl
  | cons b passed ih => rw [List.cons_append, List.length_cons, List.modify_succ_cons, ih]; rfl

/-- The buckets when some of the delays are in them. -/
structure Filling.Holds (bounds : List ℚ) (seen : List ℤ) (f : Filling) : Prop where
  /-- These delays are where they belong. -/
  placed : f.before ++ f.bucket :: f.behind = placement bounds seen
  /-- The buckets passed are too low for one of them. -/
  passed : ∀ b ∈ f.before, ∃ delay ∈ seen, b.bound < delay

/-- A step of the pass. -/
theorem Filling.Holds.put (h : f.Holds bounds seen) (hsorted : ∀ t ∈ seen, t ≤ delay) :
    (f.put delay).Holds bounds (seen ++ [delay]) := by
  obtain ⟨passed, bucket', behind', hseek, heq, hpassed, hstop⟩ :=
    seek_eq delay f.before f.bucket f.behind
  have hput : f.put delay = ⟨f.before ++ passed, bucket'.add delay, behind'⟩ := by
    rw [Filling.put, hseek]
    rfl
  have hlow : ∀ b ∈ f.before ++ passed, b.bound < delay := by
    intro b hb
    rcases List.mem_append.mp hb with hb | hb
    · obtain ⟨t, ht, hlt⟩ := h.passed b hb
      exact hlt.trans_le (Int.cast_le.mpr (hsorted t ht))
    · exact hpassed b hb
  have hplaced : (f.before ++ passed) ++ bucket' :: behind' = placement bounds seen := by
    rw [List.append_assoc, ← heq, h.placed]
  have hplace : bucketOf bounds delay = (f.before ++ passed).length := by
    have hbounds := bounds_placement bounds seen
    rw [← hplaced, List.map_append, List.map_cons] at hbounds
    rw [← hbounds, bucketOf_append, List.length_map]
    · intro bound hbound
      obtain ⟨b, hb, rfl⟩ := List.mem_map.mp hbound
      exact hlow b hb
    · exact fun hlt => by rw [hstop hlt]; rfl
  rw [hput]
  constructor
  · rw [placement_concat, hplace, ← hplaced, modify_append]
  · exact fun b hb => ⟨delay, by simp, hlow b hb⟩

/-- The whole pass. -/
theorem Filling.Holds.foldl (h : f.Holds bounds seen)
    (hsorted : (seen ++ delays).Pairwise (· ≤ ·)) :
    (delays.foldl Filling.put f).Holds bounds (seen ++ delays) := by
  induction delays generalizing f seen with
  | nil =>
    rw [List.append_nil]
    exact h
  | cons delay delays ih =>
    rw [List.append_cons] at hsorted ⊢
    have hle : ∀ t ∈ seen, t ≤ delay := fun t ht =>
      (List.pairwise_append.mp (List.pairwise_append.mp hsorted).1).2.2 t ht delay (by simp)
    exact ih (h.put hle) hsorted

/-- Every delay is put into its bucket. -/
theorem fill_eq (hne : bounds ≠ []) (hsorted : delays.Pairwise (· ≤ ·)) :
    fill (bounds.map fun bound => ⟨bound, []⟩) delays = .ok (placement bounds delays) := by
  obtain ⟨bound, bounds, rfl⟩ := List.exists_cons_of_ne_nil hne
  have hempty : Filling.Holds (bound :: bounds) []
      ⟨[], ⟨bound, []⟩, bounds.map fun bound => ⟨bound, []⟩⟩ := by
    refine ⟨?_, fun b hb => absurd hb List.not_mem_nil⟩
    refine List.ext_getElem? fun i => ?_
    rw [List.nil_append, ← List.map_cons (f := fun bound => (⟨bound, []⟩ : Bucket)),
      List.getElem?_map, placement, List.getElem?_mapIdx]
    rfl
  have hholds := hempty.foldl hsorted
  rw [List.map_cons, fill, hholds.placed, List.nil_append]

/-! ### The points -/

/-- The height of the point of a bucket. -/
def shownCount (bucket : Bucket) : ℚ := if 1 < bucket.delays.length then bucket.delays.length else 0

theorem shownCount_eq (h : bucket.delays.length ≠ 1) :
    shownCount bucket = bucket.delays.length := by
  rw [shownCount]
  split_ifs with hcount
  · rfl
  · rw [show bucket.delays.length = 0 by omega, Nat.cast_zero]

theorem returns_bucketPoints (bucket : Bucket) :
    Returns (bucketPoints bucket) fun charts => charts.1.y = shownCount bucket := by
  rw [bucketPoints, shownCount]
  show Returns (ite _ _ _) _
  split_ifs with hcount
  · have hne : bucket.delays ≠ [] := List.ne_nil_of_length_pos (Nat.zero_lt_of_lt hcount)
    rw [div_eq (Nat.cast_ne_zero.mpr (by omega))]
    refine (completes_max hne).bind fun greatest => ?_
    exact (completes_min hne).bind fun least => returns_pure rfl
  · exact returns_pure rfl

theorem returns_bucketCharts (hne : bounds ≠ []) (hsorted : delays.Pairwise (· ≤ ·)) :
    Returns (bucketCharts bounds delays) fun charts =>
      charts.1.map Point.y = (trim (placement bounds delays)).map shownCount := by
  rw [bucketCharts, fill_eq hne hsorted, ok_bind]
  refine (returns_mapM (fun charts => charts.1.y) shownCount fun b _ =>
    returns_bucketPoints b).bind fun data hdata => returns_pure ?_
  rw [← hdata, List.map_map]
  rfl

/-! ### The counts -/

theorem sum_dropWhile (buckets : List Bucket) :
    ((buckets.dropWhile (·.delays.isEmpty)).map fun b => b.delays.length).sum
      = (buckets.map fun b => b.delays.length).sum := by
  induction buckets with
  | nil => rfl
  | cons b buckets ih =>
    cases hempty : b.delays.isEmpty with
    | true =>
      rw [List.dropWhile_cons, if_pos hempty, ih, List.map_cons, List.sum_cons,
        List.isEmpty_iff.mp hempty, List.length_nil, Nat.zero_add]
    | false => rw [List.dropWhile_cons, if_neg (ne_true_of_eq_false hempty)]

/-- The buckets that are dropped are empty. -/
theorem sum_trim (buckets : List Bucket) :
    ((trim buckets).map fun b => b.delays.length).sum
      = (buckets.map fun b => b.delays.length).sum := by
  rw [trim, List.rdropWhile, List.map_reverse, List.sum_reverse, sum_dropWhile, List.map_reverse,
    List.sum_reverse, sum_dropWhile]

theorem mem_dropWhile {b : Bucket} (hne : b.delays ≠ []) (h : b ∈ buckets) :
    b ∈ buckets.dropWhile (·.delays.isEmpty) := by
  rw [← List.takeWhile_append_dropWhile (p := fun b : Bucket => b.delays.isEmpty) (l := buckets)]
    at h
  refine (List.mem_append.mp h).resolve_left fun htake => hne (List.isEmpty_iff.mp ?_)
  exact List.mem_takeWhile_imp (p := fun b : Bucket => b.delays.isEmpty) htake

theorem mem_trim {b : Bucket} (hne : b.delays ≠ []) (h : b ∈ buckets) : b ∈ trim buckets := by
  rw [trim, List.rdropWhile, List.mem_reverse]
  exact mem_dropWhile hne (List.mem_reverse.mpr (mem_dropWhile hne h))

theorem mem_of_mem_trim {b : Bucket} (h : b ∈ trim buckets) : b ∈ buckets :=
  (List.dropWhile_sublist _).subset ((List.rdropWhile_prefix _ _).subset h)

/-- No delay is counted twice or not at all. -/
theorem sum_placement (hne : bounds ≠ []) (delays : List ℤ) :
    ((placement bounds delays).map fun b => b.delays.length).sum = delays.length := by
  induction delays using List.reverseRecOn with
  | nil =>
    refine List.sum_eq_zero fun n hn => ?_
    obtain ⟨b, hb, rfl⟩ := List.mem_map.mp hn
    obtain ⟨i, hi, rfl⟩ := List.mem_mapIdx.mp hb
    rfl
  | append_singleton delays delay ih =>
    have hlength : (placement bounds delays).length = bounds.length := List.length_mapIdx
    have hlt : bucketOf bounds delay < (placement bounds delays).length :=
      hlength ▸ bucketOf_lt hne
    obtain ⟨passed, b, behind, heq, hplace, hmodify⟩ :=
      List.exists_of_modify (Bucket.add delay) hlt
    rw [placement_concat, hmodify]
    rw [heq] at ih
    simp only [List.map_append, List.map_cons, List.sum_append, List.sum_cons,
      List.length_append] at ih ⊢
    rw [← ih, Bucket.add, List.length_append]
    simp only [List.length_singleton]
    omega

/-- The charts are those of the bounds that the program computes. -/
theorem delayCharts_eq {floats : Floats} (hne : bounds ≠ [])
    (h : sortedDelays pairs ≠ [] → bucketBounds floats (sortedDelays pairs) = .ok bounds) :
    delayCharts floats (sortedDelays pairs) = bucketCharts bounds (sortedDelays pairs) := by
  rw [delayCharts]
  cases hdelays : sortedDelays pairs with
  | cons delay delays =>
    rw [hdelays] at h
    rw [h (List.cons_ne_nil _ _)]
    rfl
  | nil =>
    -- Without a delay there are no points.
    rw [bucketCharts, fill_eq hne List.Pairwise.nil]
    have hempty : ∀ b ∈ placement bounds [], b.delays.isEmpty := by
      intro b hb
      obtain ⟨i, hi, rfl⟩ := List.mem_mapIdx.mp hb
      rfl
    rw [ok_bind, trim, List.dropWhile_eq_nil_iff.mpr hempty]
    rfl

/-- The histogram accounts for every delay. -/
structure HistogramExact (bounds : List ℚ) (pairs : List (List ℤ)) : Prop where
  /-- The delays that are looked at are the positive ones. -/
  delays : (sortedDelays pairs).Perm (positiveDelays pairs)
  /-- The program makes its charts of these buckets, if their bounds are those that it computes. -/
  charts : ∀ floats,
    (sortedDelays pairs ≠ [] → bucketBounds floats (sortedDelays pairs) = .ok bounds) →
      delayCharts floats (sortedDelays pairs) = bucketCharts bounds (sortedDelays pairs)
  /-- Each of them is in its bucket, and in no other. -/
  placed : fill (bounds.map fun bound => ⟨bound, []⟩) (sortedDelays pairs)
    = .ok (placement bounds (sortedDelays pairs))
  /-- The values are the numbers of delays in the buckets, and their sum is that of all delays. -/
  charted : Returns (bucketCharts bounds (sortedDelays pairs)) fun charts =>
    charts.1.map Point.y
        = (trim (placement bounds (sortedDelays pairs))).map (fun b => (b.delays.length : ℚ)) ∧
      (charts.1.map Point.y).sum = (positiveDelays pairs).length

/-- The number of positive delays that belong to a bucket. -/
theorem length_filter_sortedDelays (pairs : List (List ℤ)) (i : ℕ) :
    ((sortedDelays pairs).filter fun delay => bucketOf bounds delay = i).length
      = (positiveDelays pairs).countP fun delay => bucketOf bounds delay = i := by
  rw [← List.countP_eq_length_filter]
  exact sortedDelays_perm.countP_eq _

/-- If some bucket has a single delay, its point is too low. -/
theorem HistogramExact.countP_ne_one (h : HistogramExact bounds pairs) (hne : bounds ≠ []) (i : ℕ) :
    (positiveDelays pairs).countP (fun delay => bucketOf bounds delay = i) ≠ 1 := by
  intro hone
  obtain ⟨charts, hcharts, heq, -⟩ := h.charted
  have hshown := returns_bucketCharts hne (sortedDelays_sorted pairs)
  rw [hcharts, returns_ok_iff, heq, List.map_inj_left] at hshown
  rw [← length_filter_sortedDelays] at hone
  have hi : i < bounds.length := by
    obtain ⟨t, ht⟩ := List.exists_mem_of_length_pos (hone ▸ Nat.one_pos)
    rw [List.mem_filter, decide_eq_true_eq] at ht
    exact ht.2 ▸ bucketOf_lt hne
  have hmem : (⟨bounds[i], (sortedDelays pairs).filter fun delay => bucketOf bounds delay = i⟩ :
      Bucket) ∈ placement bounds (sortedDelays pairs) := List.mem_mapIdx.mpr ⟨i, hi, rfl⟩
  have hcount := hshown _ (mem_trim (List.ne_nil_of_length_pos (hone ▸ Nat.one_pos)) hmem)
  rw [shownCount, hone] at hcount
  exact absurd hcount (by norm_num)

/-- **Exactly the histograms that lose no delay.** Every positive delay is put into its bucket, but
only if no bucket is that of a single delay, the values of the chart are the numbers of delays in
the buckets and their sum is the number of all delays. -/
theorem histogramExact_iff (hne : bounds ≠ []) : HistogramExact bounds pairs ↔
    ∀ i, (positiveDelays pairs).countP (fun delay => bucketOf bounds delay = i) ≠ 1 := by
  refine ⟨fun h i => h.countP_ne_one hne i, fun hcount => ?_⟩
  refine ⟨sortedDelays_perm, fun _ => delayCharts_eq hne,
    fill_eq hne (sortedDelays_sorted pairs), ?_⟩
  obtain ⟨charts, hcharts, hshown⟩ := returns_bucketCharts hne (sortedDelays_sorted pairs)
  have hall : ∀ b ∈ trim (placement bounds (sortedDelays pairs)),
      shownCount b = (b.delays.length : ℚ) := by
    intro b hb
    obtain ⟨i, hi, rfl⟩ := List.mem_mapIdx.mp (mem_of_mem_trim hb)
    exact shownCount_eq (length_filter_sortedDelays pairs i ▸ hcount i)
  have heq := hshown.trans (List.map_congr_left hall)
  refine ⟨charts, hcharts, heq, ?_⟩
  rw [heq, ← sortedDelays_perm.length_eq, ← sum_placement hne, ← sum_trim, Nat.cast_list_sum,
    List.map_map]
  rfl

theorem histogramExact_iff_three : HistogramExact [10] [[0, 5, 5], [1, 7, 6], [2]] ↔
    ∀ i, (positiveDelays [[0, 5, 5], [1, 7, 6], [2]]).countP
      (fun delay => bucketOf [10] delay = i) ≠ 1 :=
  histogramExact_iff (List.cons_ne_nil _ _)

/-- A single delay is not in the chart. -/
theorem single_delay_not_exact : ¬HistogramExact [10] [[0, 5, 5]] := fun h =>
  h.countP_ne_one (List.cons_ne_nil _ _) 0 (by decide)

end Grinder

end DnsTools
