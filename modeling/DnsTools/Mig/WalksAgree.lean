import DnsTools.Mig.LoadedNames

/-!
# Two ways of walking over the names

`print_domains` goes through the names by their length bytes, `make_queries` by `strlen`. Both are
to find the same names, one for each line that is not empty, and `make_queries` is to begin again
behind the last.

They part at a zero byte in a label, which ends a string but not a label. And a line behind an empty
line is stored with a newline in front, so that both walks find something else than the line.

## What agreement is

Agreement is about both walks and the file: `print_domains` finds the labels of the lines, and for
any number of queries the walk of `make_queries` reads the encodings of these names, cyclically.
Since the number of queries is arbitrary, going round is part of it: a walk that read every name and
then did not find the end would disagree with the next query.

## The condition

A zero byte that is copied makes the two walks differ. One that is not copied, because it stands at
the end of a label that is copied late, does not, but then the label is not that of the line, and
there is no agreement either. So the condition is on the file and not on what is copied: no zero
byte anywhere, and no empty line in front of one that is not empty.

## Main results

* `Loaded.walksAgree` — the walks agree on files without such bytes and lines
* `walksAgree_iff` — and on no others
-/

namespace DnsTools

open Memory Endian

/-! ### Zero bytes in a file -/

/-- What is split at a byte keeps every other byte. -/
theorem exists_mem_splitOn {b sep : UInt8} (hb : b ≠ sep) (bs : List UInt8) :
    (∃ piece ∈ bs.splitOn sep, b ∈ piece) ↔ b ∈ bs := by
  induction bs with
  | nil => simp
  | cons c bs ih =>
    obtain ⟨p, ps, hp⟩ := List.exists_cons_of_ne_nil (List.splitOn_ne_nil sep bs)
    rw [hp, List.exists_mem_cons_iff] at ih
    rw [List.splitOn_cons_eq_if_modifyHead, hp, List.mem_cons, ← ih]
    by_cases hc : c = sep
    · subst hc
      simp [hb]
    · simp [hc, or_assoc]

theorem exists_mem_labelsOf {b : UInt8} (hb : b ≠ dot) (line : List UInt8) :
    (∃ z ∈ labelsOf line, b ∈ z) ↔ b ∈ line := exists_mem_splitOn hb line

theorem exists_mem_fileLines {b : UInt8} (hb : b ≠ newline) (content : List UInt8) :
    (∃ line ∈ fileLines content, b ∈ line) ↔ b ∈ content := by
  rw [← exists_mem_splitOn hb]
  refine exists_congr fun line => and_congr_left fun hmem => ?_
  rcases splitOn_eq_fileLines content with hsplit | hsplit
  · rw [hsplit]
  · rw [hsplit, List.mem_append, List.mem_singleton]
    refine (or_iff_left ?_).symm
    rintro rfl
    exact List.not_mem_nil hmem

/-- The lines that are not empty. -/
def nonemptyLines (content : List UInt8) : List (List UInt8) := (fileLines content).filter (· ≠ [])

/-- The labels of the lines have a zero byte exactly if the file has. -/
theorem zero_mem_labels (content : List UInt8) :
    (∃ name ∈ (nonemptyLines content).map labelsOf, ∃ z ∈ name, 0 ∈ z) ↔ 0 ∈ content := by
  have hdot : (0 : UInt8) ≠ dot := by decide
  have hnewline : (0 : UInt8) ≠ newline := by decide
  rw [← exists_mem_fileLines hnewline, nonemptyLines]
  simp only [List.mem_map, exists_exists_and_eq_and, exists_mem_labelsOf hdot, List.mem_filter]
  refine exists_congr fun line => and_congr_left fun hmem => and_iff_left ?_
  rw [decide_eq_true_iff]
  rintro rfl
  exact List.not_mem_nil hmem

/-! ### The names and the lines -/

/-- The lengths of the labels are those in the file. -/
theorem map_map_length_copyLines (skipped : ℕ) (lines : List (List UInt8)) :
    (copyLines skipped lines).map (List.map List.length)
      = (lines.filter (· ≠ [])).map fun line => (labelsOf line).map List.length := by
  induction lines generalizing skipped with
  | nil => rfl
  | cons line lines ih =>
    rw [copyLines]
    by_cases hline : line = []
    · rw [if_pos hline, ih, List.filter_cons_of_neg (by simpa using hline)]
    · rw [if_neg hline, List.filter_cons_of_pos (by simpa using hline), List.map_cons, ih,
        map_length_copiedLine, List.map_cons]

/-- Labels of the same lengths that are encoded alike are the same. -/
theorem eq_of_encodeLabels_eq {xs ys : List (List UInt8)}
    (hlen : xs.map List.length = ys.map List.length)
    (h : Dns.Name.encodeLabels xs = Dns.Name.encodeLabels ys) : xs = ys := by
  induction xs generalizing ys with
  | nil => rw [List.map_eq_nil_iff.mp hlen.symm]
  | cons x xs ih =>
    cases ys with
    | nil => simp at hlen
    | cons y ys =>
      rw [List.map_cons, List.map_cons, List.cons.injEq] at hlen
      rw [Dns.Name.encodeLabels_cons, Dns.Name.encodeLabels_cons] at h
      obtain ⟨hlabel, hrest⟩ := List.append_inj h (by simpa using hlen.1)
      rw [ih hlen.2 hrest, (List.cons.inj hlabel).2]

/-- Queries differ as the names they are for. -/
theorem queryMessage_inj {client : Option ClientId} {i : ℕ} {w w' : List UInt8}
    (h : queryMessage client i w = queryMessage client i w') : w = w' := by
  have hlen := congrArg List.length h
  rw [length_queryMessage, length_queryMessage] at hlen
  have hlen' : w.length = w'.length := by
    cases client <;> simp only [querySize] at hlen <;> omega
  simp only [queryMessage, List.append_assoc] at h
  have hheader := List.append_cancel_left h
  simpa [hlen'] using hheader

section Loaded

variable {content : List UInt8} {domains : Block} {count : ℕ}

/-- The names are those of the lines exactly if no empty line stands in front of another line. -/
theorem Loaded.names_eq_iff (h : Loaded content domains count) :
    loadedNames content = (nonemptyLines content).map labelsOf ↔
      withoutEmptyLines content <+: content := by
  have hlines : (nonemptyLines content).map labelsOf
      = namesOf (allLabels (withoutEmptyLines content)) := by
    rw [nonemptyLines, ← fileLines_withoutEmptyLines, map_labelsOf_fileLines]
  rw [hlines, loadedNames, ← namesOf_copiedNames]
  constructor
  · intro hsame
    by_contra hstarts
    have hstep : ¬InStep [] 0 [] content := hstarts
    obtain ⟨line, hline, z, hz, hmem⟩ :=
      (hasNewline_of_not_inStep content (by simp) (Or.inl rfl) hstep h.good).namesOf
    have hline' : line ∈ namesOf (allLabels (withoutEmptyLines content)) := hsame ▸ hline
    exact newline_notMem_allLabels _ line (mem_of_mem_namesOf hline') z hz hmem
  · intro hstarts
    rw [copiedNames_eq_allLabels hstarts]

end Loaded

/-! ### Agreement -/

/-- What the two walks over the names of a file are to find. -/
structure WalksAgree (content : List UInt8) (domains : Block) (count : ℕ) : Prop where
  /-- Both find the same names, as many as were counted. -/
  names : ∃ names, printDomains domains = some names ∧ names.length = count ∧
    nameWalk domains count 0 = some (names.map Dns.Name.encode)
  /-- The walk by `strlen` is then back at the start, and not before. -/
  returns : ∀ n, 0 < n → n ≤ count → (nameAfter domains n 0 = some 0 ↔ n = count)
  /-- Each query asks for the line whose turn it is. -/
  queries : ∀ {malloc : Malloc} {client : Option ClientId} {n off : ℕ} {queries : Block}
    {messages : List (List UInt8)}, makeQueries malloc domains n client = some (some queries) →
    readQueries queries n 0 = some (messages, off) →
    ∀ i message, messages[i]? = some message →
      ∃ line, (nonemptyLines content)[i % count]? = some line ∧
        message = queryMessage client i (Dns.Name.encode (labelsOf line))

/-- A part of the walk. -/
theorem nameWalk_take {names : Block} {n m name : ℕ} {ws : List (List UInt8)}
    (h : nameWalk names n name = some ws) (hm : m ≤ n) :
    nameWalk names m name = some (ws.take m) := by
  induction m generalizing n name ws with
  | zero => rfl
  | succ m ih =>
    obtain ⟨n, rfl⟩ := Nat.exists_eq_succ_of_ne_zero (by omega : n ≠ 0)
    simp only [nameWalk, Option.bind_eq_bind, Option.bind_eq_some_iff] at h
    obtain ⟨len, hlen, w, hw, next, hnext, ws', hrest, h⟩ := h
    simp only [Option.pure_def, Option.some.injEq] at h
    subst h
    simp only [nameWalk, hlen, hw, hnext, ih hrest (by omega), Option.bind_eq_bind,
      Option.bind_some]
    rfl

section Loaded

variable {content : List UInt8} {domains : Block} {count : ℕ}

/-- **The walks agree** on a file without zero bytes whose empty lines stand at its end. -/
theorem Loaded.walksAgree (h : Loaded content domains count) (hcount : 0 < count)
    (hzero : 0 ∉ content) (hstarts : withoutEmptyLines content <+: content) :
    WalksAgree content domains count := by
  have hnames := h.names_eq_iff.mpr hstarts
  have hne : loadedNames content ≠ [] := List.ne_nil_of_length_pos (h.count ▸ hcount)
  have hlen : (loadedNames content).length = count := h.count.symm
  have hnozero : ∀ name ∈ loadedNames content, ∀ z ∈ name, 0 ∉ z := by
    rw [← zero_mem_labels, ← hnames] at hzero
    exact fun name hname z hz hmem => hzero ⟨name, hname, z, hz, hmem⟩
  refine ⟨⟨_, h.printDomains, hlen, ?_⟩, fun n hpos hle => ?_, ?_⟩
  · rw [h.nameWalk hne hnozero, ← hlen]
    have hall := map_cyclicName (Nat.le_refl (loadedNames content).length)
    rw [List.take_length] at hall
    conv_rhs => rw [← hall]
    rw [List.map_map]
    rfl
  · have hstrings : (labelStrings (loadedNames content)).length = count := by
      rw [labelStrings, List.length_map, hlen]
    rw [← hstrings] at hle ⊢
    exact h.stringTable.returns (by simpa [labelStrings] using hne)
      ((zero_notMem_labelStrings h.labels).mpr hnozero) hpos hle
  · intro malloc client n off queries messages hmake hread i message hget
    obtain ⟨ws, hws, hread'⟩ := readQueries_of_makeQueries hmake
    have hi : i < n := by
      rw [hread, Option.some.injEq, Prod.mk.injEq] at hread'
      have hlt := (List.getElem?_eq_some_iff.mp hget).1
      rwa [hread'.1, length_queryMessages, length_of_nameWalk hws] at hlt
    have hname := getElem?_cyclicName hne i
    rw [hnames, List.length_map, List.getElem?_map, Option.map_eq_some_iff, ← hnames] at hname
    obtain ⟨line, hline, hlabels⟩ := hname
    have hlines : (nonemptyLines content).length = count := by
      rw [← hlen, hnames, List.length_map]
    rw [h.getElem?_messages hne hnozero hmake hread hi, Option.some.injEq] at hget
    rw [hlines] at hline
    exact ⟨line, hline, by rw [← hget, hlabels]⟩

/-- When the names read by `strlen` are the names stored, no zero byte is among them. -/
theorem Loaded.no_zero (h : Loaded content domains count)
    (hwalk : DnsTools.nameWalk domains count 0
      = some ((loadedNames content).map Dns.Name.encode)) :
    ¬∃ name ∈ loadedNames content, ∃ z ∈ name, 0 ∈ z := by
  intro hzero
  have hne : loadedNames content ≠ [] := List.ne_nil_of_mem hzero.choose_spec.1
  obtain ⟨j, hj, hfirst, hbefore⟩ := exists_first_zero hzero
  have hcut := h.nameWalk_succ hne j hbefore
  rw [nameWalk_take hwalk (h.count ▸ hj), Option.some.injEq] at hcut
  have hget := congrArg (·[j]?) hcut
  have hname := getElem?_cyclicName hne j
  rw [Nat.mod_eq_of_lt hj] at hname
  simp only [List.getElem?_take, Nat.lt_succ_self, if_true, List.getElem?_map, hname,
    Option.map_some, List.getElem?_range, Option.some.injEq] at hget
  -- the name with the zero byte is read in part
  have hstring := List.append_cancel_right hget
  have hmem := List.mem_of_getElem? hname
  have hlt := length_cString_lt ((zero_mem_encodeLabels (h.labels _ hmem).2).mpr hfirst)
  rw [← hstring] at hlt
  exact Nat.lt_irrefl _ hlt

/-- When the queries are for the lines, the names stored are those of the lines. -/
theorem Loaded.names_of_walksAgree (h : Loaded content domains count)
    (hagree : WalksAgree content domains count) :
    loadedNames content = (nonemptyLines content).map labelsOf := by
  obtain ⟨names, hprint, hlen, hwalk⟩ := hagree.names
  rw [h.printDomains, Option.some.injEq] at hprint
  subst hprint
  have hlt : ((queryMessages none 0 ((loadedNames content).map Dns.Name.encode)).flatMap
      frame).length < sizeModulus :=
    h.length_frames_lt none (by rw [List.length_map])
      (by rw [List.length_flatMap, List.map_map]; rfl)
  obtain ⟨-, c, -, -, hmake⟩ := makeQueries_of_nameWalk hwalk hlt
    (rfl : Malloc.zeroed.alloc _ = some _)
  obtain ⟨ws, hws, hread⟩ := readQueries_of_makeQueries hmake
  rw [hwalk, Option.some.injEq] at hws
  subst hws
  have hlengths := map_map_length_copyLines 0 (fileLines content)
  rw [← nonemptyLines] at hlengths
  have hlines : (nonemptyLines content).length = count := by
    have := congrArg List.length hlengths
    rw [List.length_map, List.length_map] at this
    rw [← this, h.count]
  refine List.ext_getElem (by rw [List.length_map, hlines, hlen]) fun i hi hi' => ?_
  obtain ⟨line, hline, hmessage⟩ := hagree.queries hmake hread i
    (queryMessage none i (Dns.Name.encode (loadedNames content)[i]))
    (by rw [getElem?_queryMessages, List.getElem?_map, List.getElem?_eq_getElem hi]; rfl)
  rw [Nat.mod_eq_of_lt (hlen ▸ hi)] at hline
  obtain ⟨hi'', rfl⟩ := List.getElem?_eq_some_iff.mp hline
  rw [List.getElem_map]
  refine eq_of_encodeLabels_eq ?_ (List.append_cancel_right (queryMessage_inj hmessage))
  have hget := congrArg (·[i]?) hlengths
  simpa only [List.getElem?_map, List.getElem?_eq_getElem hi, List.getElem?_eq_getElem hi'',
    Option.map_some, Option.some.injEq] using hget

end Loaded

/-- **When the two walks agree.** For a file with a domain that `get_domains` accepts, the walk by
`strlen` and the walk by length bytes find the same names, and query `i` asks for the line whose
turn it is, exactly if the file has no zero byte and has all its empty lines at its end. -/
theorem walksAgree_iff {malloc : Malloc} {content : List UInt8} {domains : Block} {count : ℕ}
    (h : getDomains malloc (.ofContents content) = some (.loaded domains count))
    (hcount : 0 < count) :
    WalksAgree content domains count ↔ 0 ∉ content ∧ withoutEmptyLines content <+: content := by
  have hloaded := loaded_spec h
  constructor
  · intro hagree
    have hnames := hloaded.names_of_walksAgree hagree
    refine ⟨?_, hloaded.names_eq_iff.mp hnames⟩
    obtain ⟨names, hprint, -, hwalk⟩ := hagree.names
    rw [hloaded.printDomains, Option.some.injEq] at hprint
    subst hprint
    rw [← zero_mem_labels, ← hnames]
    exact hloaded.no_zero hwalk
  · rintro ⟨hzero, hstarts⟩
    exact hloaded.walksAgree hcount hzero hstarts

/-- The file with the one line `a`. -/
theorem walksAgree_iff_closed :
    WalksAgree [0x61, newline] ⟨[1, 0x61, 0, 0], [(3, 1), (2, 1), (1, 1), (0, 1)]⟩ 1 ↔
      0 ∉ [0x61, newline] ∧ withoutEmptyLines [0x61, newline] <+: [0x61, newline] :=
  walksAgree_iff (rfl : getDomains .zeroed (.ofContents [0x61, newline]) = some (.loaded _ 1))
    (by decide)

/-- The file whose one line is an `a`, a zero byte and a `b`: the name is read by `strlen` up to
the zero byte, and the next one is found behind it. -/
theorem walks_disagree :
    ∃ domains, getDomains .zeroed (.ofContents [0x61, 0, 0x62, newline])
        = some (.loaded domains 1) ∧
      printDomains domains = some [[[0x61, 0, 0x62]]] ∧
      nameWalk domains 1 0 = some [[3, 0x61, 0]] ∧ nameAfter domains 1 0 = some 3 ∧
      ¬WalksAgree [0x61, 0, 0x62, newline] domains 1 := by
  refine ⟨⟨[3, 0x61, 0, 0x62, 0, 0, 0], [(5, 1), (4, 1), (1, 3), (0, 1)]⟩, rfl, rfl, rfl, rfl,
    fun hagree => ?_⟩
  have hreturns : nameAfter ⟨[3, 0x61, 0, 0x62, 0, 0, 0], [(5, 1), (4, 1), (1, 3), (0, 1)]⟩ 1 0
      = some 3 := rfl
  have hback := (hagree.returns 1 Nat.one_pos (Nat.le_refl 1)).mpr rfl
  rw [hreturns] at hback
  exact absurd hback (by simp)

end DnsTools
