import Mathlib.Data.List.Basic
import Mathlib.Order.Lattice

/-!
# Stable sorting

A list is the stable sort of another one by a key if it is a permutation of it, in the order of the
keys, and has the elements of each key in the order in which the other list has them. Python's
`sorted` sorts so, and `List.mergeSort` does.

## What holds

* `stablySorted_mergeSort` — `List.mergeSort` is stable
* `StablySorted.pairwise` — elements of one key stay related as they were
* `StablySorted.exists_cut` — what comes first in the sorted list: of a first part of the other list
  the elements up to some key, and of the rest those below that key
-/

variable {α β : Type*} [LinearOrder β] {key : α → β} {xs ys : List α}

/-- The one list is the stable sort of the other. -/
structure StablySorted (key : α → β) (xs ys : List α) : Prop where
  /-- The elements are the same. -/
  perm : ys.Perm xs
  /-- The keys do not decrease. -/
  sorted : ys.Pairwise fun a b => key a ≤ key b
  /-- The elements of one key stay in order. -/
  stable : ∀ k, ys.filter (fun a => key a = k) = xs.filter (fun a => key a = k)

/-- `List.mergeSort` sorts, and keeps equal elements in order. -/
theorem stablySorted_mergeSort (key : α → β) (xs : List α) :
    StablySorted key xs (xs.mergeSort fun a b => key a ≤ key b) := by
  have htrans : ∀ a b c : α, decide (key a ≤ key b) → decide (key b ≤ key c) →
      decide (key a ≤ key c) := fun a b c hab hbc =>
    decide_eq_true ((of_decide_eq_true hab).trans (of_decide_eq_true hbc))
  have htotal : ∀ a b : α, (decide (key a ≤ key b) || decide (key b ≤ key a)) = true :=
    fun a b => by simpa using le_total (key a) (key b)
  have hperm := List.mergeSort_perm xs fun a b => decide (key a ≤ key b)
  refine ⟨hperm, (List.pairwise_mergeSort htrans htotal xs).imp of_decide_eq_true, fun k => ?_⟩
  -- The elements of one key are sorted as they are, so they are a sublist of the sorted list.
  have hsorted : (xs.filter fun a => key a = k).Pairwise fun a b => decide (key a ≤ key b) := by
    refine List.pairwise_of_forall_mem_list fun a ha b hb => decide_eq_true ?_
    rw [List.mem_filter, decide_eq_true_eq] at ha hb
    exact (ha.2.trans hb.2.symm).le
  have hsub := (List.sublist_mergeSort htrans htotal hsorted List.filter_sublist).filter
    fun a => decide (key a = k)
  simp only [List.filter_filter, Bool.and_self] at hsub
  exact (hsub.eq_of_length (hperm.filter _).length_eq.symm).symm

/-- The elements up to a key are those below it and those with it. -/
theorem filter_le_perm (key : α → β) (k : β) (xs : List α) :
    (xs.filter fun a => key a ≤ k).Perm
      ((xs.filter fun a => key a < k) ++ xs.filter fun a => key a = k) := by
  have h := List.filter_append_perm (fun a => decide (key a < k)) (xs.filter fun a => key a ≤ k)
  rw [List.filter_filter, List.filter_filter] at h
  have hlt : ∀ a ∈ xs, (decide (key a < k) && decide (key a ≤ k)) = decide (key a < k) := by
    intro a _
    rw [← Bool.decide_and, decide_eq_decide]
    exact and_iff_left_of_imp le_of_lt
  have heq : ∀ a ∈ xs, (!decide (key a < k) && decide (key a ≤ k)) = decide (key a = k) := by
    intro a _
    rw [← decide_not, ← Bool.decide_and, decide_eq_decide, not_lt, le_antisymm_iff, and_comm]
  rw [List.filter_congr hlt, List.filter_congr heq] at h
  exact h.symm

namespace StablySorted

/-- **What comes first.** Of some first part of the list the elements up to some key, and of the
rest those that are below it. -/
theorem exists_cut {first : List α} (h : StablySorted key xs ys) (hfirst : first <+: ys)
    (hne : first ≠ []) : ∃ before behind k, xs = before ++ behind ∧
      first.Perm (before.filter (fun a => key a ≤ k) ++ behind.filter (fun a => key a < k)) := by
  obtain ⟨rest, rfl⟩ := hfirst
  obtain ⟨init, e, rfl⟩ := (List.eq_nil_or_concat' first).resolve_left hne
  obtain ⟨hsorted, -, hge⟩ := List.pairwise_append.mp h.sorted
  have hle : ∀ a ∈ init ++ [e], key a ≤ key e := by
    intro a ha
    rcases List.mem_append.mp ha with ha | ha
    · exact (List.pairwise_append.mp hsorted).2.2 a ha e (List.mem_singleton_self e)
    · exact (congrArg key (List.mem_singleton.mp ha)).le
  have hlow : rest.filter (fun a => key a < key e) = [] := by
    refine List.filter_eq_nil_iff.mpr fun b hb => ?_
    simpa using hge e (by simp) b hb
  -- The last of the elements cuts the other list behind its place among those of its key.
  have hstable := h.stable (key e)
  rw [List.filter_append, eq_comm, List.filter_eq_append_iff] at hstable
  obtain ⟨before, behind, rfl, hbefore, -⟩ := hstable
  refine ⟨before, behind, key e, rfl, ?_⟩
  have hperm := h.perm.filter fun a => decide (key a < key e)
  rw [List.filter_append, hlow, List.append_nil, List.filter_append before behind] at hperm
  have hcut := filter_le_perm key (key e) (init ++ [e])
  rw [List.filter_eq_self.mpr fun a ha => decide_eq_true (hle a ha), ← hbefore] at hcut
  have hswap : ∀ as bs cs : List α, (as ++ bs ++ cs).Perm (as ++ cs ++ bs) := by
    intro as bs cs
    rw [List.append_assoc, List.append_assoc]
    exact List.perm_append_comm.append_left as
  refine hcut.trans ((hperm.append_right _).trans ((hswap _ _ _).trans ?_))
  exact (filter_le_perm key (key e) before).symm.append_right _

/-- Elements are sorted by key, and those of one key as they were. -/
theorem pairwise {R : α → α → Prop} (h : StablySorted key xs ys) (hxs : xs.Pairwise R) :
    ys.Pairwise fun a b => key a < key b ∨ key a = key b ∧ R a b := by
  rw [List.pairwise_iff_forall_sublist]
  intro a b hab
  have hle : key a ≤ key b := List.pairwise_iff_forall_sublist.mp h.sorted hab
  refine hle.lt_or_eq.imp_right fun heq => ⟨heq, ?_⟩
  have hfilter := hab.filter fun c => decide (key c = key b)
  have hboth : [a, b].filter (fun c => decide (key c = key b)) = [a, b] := by simp [heq]
  rw [hboth, h.stable] at hfilter
  exact List.pairwise_iff_forall_sublist.mp hxs (hfilter.trans List.filter_sublist)

end StablySorted
