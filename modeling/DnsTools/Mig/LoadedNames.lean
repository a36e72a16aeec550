import DnsTools.Mig.CopiedLines
import DnsTools.Mig.QueriesWellFormed

/-!
# The queries for the names of a file

From a file of domains to the queries: the names that `get_domains` has left in the buffer are those
that `make_queries` asks for. Neither knows the other. The one leaves a buffer with names in it, the
other takes any buffer, walks over it by `strlen` and starts again at the front when it comes to the
end; what they share is the layout, which is stated here as a `StringTable`.

## Names and strings

To the parser a name is a list of labels, each behind its length byte, and a zero byte at the end.
To the walk it is whatever lies in front of the next zero byte. The two are the same as long as no
label has a zero byte in it, and a length byte is never zero, since labels are not empty. So up to
the first name with a zero byte the walk gives what was stored, and that name it cuts off. What
follows is read out of step with the names, and nothing is said of it.

This is why `Loaded.nameWalk_succ` asks for names without zero bytes in front of the last one only:
the one result serves both for the files whose queries are right and, in `ValidNames`, for the first
query that is wrong in the others.

## Main results

* `Loaded.nameWalk_succ` — the walk up to a name with a zero byte
* `Loaded.length_frames_lt` — the queries for the names of a file never take too much memory
* `Loaded.getElem?_messages` — the queries for names without zero bytes
-/

namespace DnsTools

open Memory

/-! ### The names as strings -/

/-- The names of a file that was loaded. -/
abbrev loadedNames (content : List UInt8) : List (List (List UInt8)) :=
  copyLines 0 (fileLines content)

/-- The names as strings, without their terminators. -/
def labelStrings (names : List (List (List UInt8))) : List (List UInt8) :=
  names.map Dns.Name.encodeLabels

theorem flatMap_labelStrings (names : List (List (List UInt8))) :
    (labelStrings names).flatMap (· ++ [0]) = names.flatMap Dns.Name.encode := by
  rw [labelStrings, List.flatMap_map]
  rfl

/-- A zero byte in the string of a name is one of a label. -/
theorem zero_mem_encodeLabels {name : List (List UInt8)} (h : ∀ z ∈ name, IsLabel z) :
    0 ∈ Dns.Name.encodeLabels name ↔ ∃ z ∈ name, 0 ∈ z := by
  rw [Dns.Name.encodeLabels, List.mem_flatMap]
  refine exists_congr fun z => and_congr_right fun hz => ?_
  rw [List.mem_cons]
  exact or_iff_right fun heq => (h z hz).length_ne_zero heq.symm

theorem zero_notMem_labelStrings {names : List (List (List UInt8))}
    (h : ∀ name ∈ names, name ≠ [] ∧ ∀ z ∈ name, IsLabel z) :
    (∀ s ∈ labelStrings names, 0 ∉ s) ↔ ∀ name ∈ names, ∀ z ∈ name, 0 ∉ z := by
  rw [labelStrings, List.forall_mem_map]
  refine forall₂_congr fun name hname => ?_
  rw [zero_mem_encodeLabels (h name hname).2]
  simp

section Loaded

variable {content : List UInt8} {domains : Block} {count : ℕ}

theorem Loaded.stringTable (h : Loaded content domains count) :
    StringTable domains (labelStrings (loadedNames content)) := by
  refine ⟨by rw [flatMap_labelStrings]; exact h.holds, fun s hs => ?_⟩
  obtain ⟨name, hname, rfl⟩ := List.mem_map.mp hs
  obtain ⟨hne, hlabels⟩ := h.labels name hname
  obtain ⟨z, zs, rfl⟩ := List.exists_cons_of_ne_nil hne
  exact ⟨_, _, rfl, (hlabels z (List.mem_cons_self ..)).length_ne_zero⟩

theorem Loaded.printDomains (h : Loaded content domains count) :
    printDomains domains = some (loadedNames content) :=
  printDomains_of_holds h.labels h.holds

/-- The queries for the names take less memory than there is. -/
theorem Loaded.length_frames_lt (h : Loaded content domains count) (client : Option ClientId)
    {ws : List (List UInt8)} (hlen : ws.length ≤ (loadedNames content).length)
    (hsum : (ws.map List.length).sum ≤ ((loadedNames content).flatMap Dns.Name.encode).length) :
    ((queryMessages client 0 ws).flatMap frame).length < sizeModulus := by
  have hlimit := h.limit
  have hle : 0 + ((loadedNames content).flatMap Dns.Name.encode ++ [0]).length ≤ domains.size :=
    h.holds.le
  have hmany := length_le_flatMap_encode (loadedNames content)
  have hsize : (ws.map fun w => sizeofSize + querySize client w.length).sum
      ≤ 64 * ws.length + (ws.map List.length).sum := by
    clear hlen hsum
    -- a query is its name, and with its length in front not more than 64 bytes besides
    induction ws with
    | nil => exact Nat.le_refl _
    | cons w ws ih =>
      have hquery : querySize client w.length ≤ 47 + w.length := by
        rw [querySize]
        split <;> simp only [sizeofDnsQuery, sizeofShort, additional, clientIdLength,
          List.length_cons, List.length_nil] <;> omega
      rw [List.map_cons, List.sum_cons, List.map_cons, List.sum_cons, List.length_cons, sizeofSize]
      rw [sizeofSize] at ih
      omega
  rw [h.size, domainsSize, List.length_append, List.length_singleton] at hle
  rw [length_frames, sizeModulus]
  rw [domainsFileLimit] at hlimit
  omega

end Loaded

/-! ### The queries for the names -/

/-- Name number `i`, counted cyclically. -/
def cyclicName (names : List (List (List UInt8))) (i : ℕ) : List (List UInt8) :=
  (names[i % names.length]?).getD []

theorem getElem?_cyclicName {names : List (List (List UInt8))} (hne : names ≠ []) (i : ℕ) :
    names[i % names.length]? = some (cyclicName names i) := by
  have hi := Nat.mod_lt i (List.length_pos_of_ne_nil hne)
  rw [cyclicName, List.getElem?_eq_getElem hi, Option.getD_some]

theorem stringOf_labelStrings {names : List (List (List UInt8))} (hne : names ≠ [])
    (hne' : labelStrings names ≠ []) (i : ℕ) :
    stringOf (labelStrings names) hne' i = Dns.Name.encodeLabels (cyclicName names i) := by
  have hget := getElem?_cyclicName hne i
  have hi := Nat.mod_lt i (List.length_pos_of_ne_nil hne)
  rw [List.getElem?_eq_getElem hi, Option.some.injEq] at hget
  simp [stringOf, labelStrings, hget]

/-- The first names, counted cyclically. -/
theorem map_cyclicName {names : List (List (List UInt8))} {n : ℕ} (hn : n ≤ names.length) :
    (List.range n).map (cyclicName names) = names.take n := by
  refine List.ext_getElem (by simpa using hn) fun t ht _ => ?_
  rw [List.length_map, List.length_range] at ht
  have hlt : t < names.length := by omega
  simp [cyclicName, Nat.mod_eq_of_lt hlt, List.getElem?_eq_getElem hlt]

/-- The first of the names with a zero byte. -/
theorem exists_first_zero {names : List (List (List UInt8))}
    (h : ∃ name ∈ names, ∃ z ∈ name, 0 ∈ z) :
    ∃ j < names.length, (∃ z ∈ cyclicName names j, 0 ∈ z) ∧
      ∀ t < j, ∀ z ∈ cyclicName names t, 0 ∉ z := by
  classical
  obtain ⟨name, hname, hmem⟩ := h
  obtain ⟨k, hk, rfl⟩ := List.mem_iff_getElem.mp hname
  have hcyclic : cyclicName names k = names[k] := by
    rw [cyclicName, Nat.mod_eq_of_lt hk, List.getElem?_eq_getElem hk, Option.getD_some]
  have hex : ∃ t, ∃ z ∈ cyclicName names t, 0 ∈ z := ⟨k, hcyclic ▸ hmem⟩
  have hle : Nat.find hex ≤ k := Nat.find_min' hex (hcyclic ▸ hmem)
  exact ⟨Nat.find hex, by omega, Nat.find_spec hex,
    fun t ht z hz hzero => Nat.find_min hex ht ⟨z, hz, hzero⟩⟩

section Loaded

variable {content : List UInt8} {domains : Block} {count : ℕ}

/-- The walk over names without zero bytes up to a name that may have some. -/
theorem Loaded.nameWalk_succ (h : Loaded content domains count)
    (hne : loadedNames content ≠ []) (n : ℕ)
    (hzero : ∀ t < n, ∀ z ∈ cyclicName (loadedNames content) t, 0 ∉ z) :
    nameWalk domains (n + 1) 0 = some ((List.range (n + 1)).map fun t =>
      cString (Dns.Name.encodeLabels (cyclicName (loadedNames content) t)) ++ [0]) := by
  have hne' : labelStrings (loadedNames content) ≠ [] := by simpa [labelStrings] using hne
  have hlabels : ∀ t, ∀ z ∈ cyclicName (loadedNames content) t, IsLabel z := fun t =>
    (h.labels _ (List.mem_of_getElem? (getElem?_cyclicName hne t))).2
  -- in terms of strings: none of those passed over has a zero byte
  have hwalk := h.stringTable.nameWalk_succ hne' n 0 fun t _ hlt => by
    rw [stringOf_labelStrings hne, zero_mem_encodeLabels (hlabels t)]
    rintro ⟨z, hz, hmem⟩
    exact hzero t (by omega) z hz hmem
  have hstart : stringOffset (labelStrings (loadedNames content)) 0 = 0 := rfl
  rw [Nat.zero_mod, hstart] at hwalk
  simpa only [stringOf_labelStrings hne, List.range_eq_range'] using hwalk

/-- The walk over names without zero bytes. -/
theorem Loaded.nameWalk (h : Loaded content domains count) (hne : loadedNames content ≠ [])
    (hzero : ∀ name ∈ loadedNames content, ∀ z ∈ name, 0 ∉ z) (n : ℕ) :
    nameWalk domains n 0 = some ((List.range n).map fun t =>
      Dns.Name.encode (cyclicName (loadedNames content) t)) := by
  have hmem : ∀ t, cyclicName (loadedNames content) t ∈ loadedNames content := fun t =>
    List.mem_of_getElem? (getElem?_cyclicName hne t)
  have hself : ∀ t, cString (Dns.Name.encodeLabels (cyclicName (loadedNames content) t))
      = Dns.Name.encodeLabels (cyclicName (loadedNames content) t) := fun t => by
    refine cString_eq_self ?_
    rw [zero_mem_encodeLabels (h.labels _ (hmem t)).2]
    rintro ⟨z, hz, hzero'⟩
    exact hzero _ (hmem t) z hz hzero'
  cases n with
  | zero => rfl
  | succ n =>
    rw [h.nameWalk_succ hne n fun t _ => hzero _ (hmem t)]
    simp only [hself]
    rfl

/-- The queries for names without zero bytes. -/
theorem Loaded.getElem?_messages (h : Loaded content domains count)
    (hne : loadedNames content ≠ []) (hzero : ∀ name ∈ loadedNames content, ∀ z ∈ name, 0 ∉ z)
    {malloc : Malloc} {client : Option ClientId} {n off : ℕ} {queries : Block}
    {messages : List (List UInt8)}
    (hqueries : makeQueries malloc domains n client = some (some queries))
    (hread : readQueries queries n 0 = some (messages, off)) {i : ℕ} (hi : i < n) :
    messages[i]? = some (queryMessage client i
      (Dns.Name.encode (cyclicName (loadedNames content) i))) := by
  obtain ⟨ws, hws, hread'⟩ := readQueries_of_makeQueries hqueries
  rw [hread, Option.some.injEq] at hread'
  obtain ⟨rfl, -⟩ := Prod.mk.inj hread'
  rw [h.nameWalk hne hzero, Option.some.injEq] at hws
  rw [← hws, getElem?_queryMessages, List.getElem?_map, List.getElem?_range hi]
  rfl

end Loaded

end DnsTools
