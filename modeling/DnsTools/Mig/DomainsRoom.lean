import DnsTools.Mig.EmptyLines

/-!
# Room for the names

`get_domains` allocates `domainsSize n` bytes for the names of a file of `n` bytes: three for every
two bytes of the file, and one for the zero byte at the end. Is that enough?

## What is counted

In the model a store behind the end of a block has no result, so a pass that writes too much gives
`none` and does not tell how much it would have written. `bytesWritten` is what the pass writes in a
buffer that is large enough for any file, up to the moment it ends or gives the file up. The stores
of a block are on record, and `Tallied` says that their sum is how far the cursor has come.

## Why three halves are nearly enough

A line of one byte takes three as a name: its length byte, itself, and the zero byte. With its
newline it took two bytes of the file, and lines of more bytes, or of several labels, are cheaper.
So inside the loop, where a line has been closed by its newline, two bytes never take more than
three (`Reading.room`). Only what is written behind the loop can be too much, for a last line that
no newline closes. Then `n` lines of a single byte have `2 * n - 1` bytes, which are rounded up, and
that is just enough. With one byte more in one of the lines the rounding is gone, and the zero byte
of the end has no room.

## The exact condition

`names_fit_iff` says this in terms of the file: the bytes are enough unless all lines are domain
names, there are two bytes for each, and the file does not end with a newline. Where they are not
enough, `getDomains` has no result. The smallest such file is `ab`.

## Main results

* `Reading.written` — what the rest of a file adds to what has been written
* `overflows_iff` — the files that overflow the buffer, in their own terms
* `names_fit_iff` — exactly when the allocated bytes are enough
-/

namespace DnsTools

open Memory

/-! ### The bytes written -/

/-- The number of bytes stored into a block so far. -/
def bytesStored (b : Block) : ℕ := (b.stores.map Prod.snd).sum

/-- The bytes stored for the names when `get_domains` returns, from the turn at offset `i` on. -/
def bytesWrittenFrom (buffer : Block) : ℕ → ℕ → DomainsState → ℕ
  | 0, _, s =>
    match domainsFinish buffer s with
    | some (.loaded domains _) => bytesStored domains
    | _ => bytesStored s.dst.block
  | left + 1, i, s =>
    match domainsTurn buffer i s with
    | some (.ok s) => bytesWrittenFrom buffer left (i + 1) s
    | _ => bytesStored s.dst.block

/-- A block with room for the names of any file of `n` bytes. -/
def roomyBlock (n : ℕ) : Block := ⟨List.replicate (3 * n + 2) 0, []⟩

/-- The number of bytes that `get_domains` writes to `*domains` for a file. -/
def bytesWritten (content : List UInt8) : ℕ :=
  bytesWrittenFrom ⟨content, []⟩ content.length 0
    { dst := ⟨roomyBlock content.length, 0⟩, srcOffset := 0, zoneCount := 0, length := 0, line := 1
      count := 0 }

/-- As many bytes have been stored as the cursor has advanced. -/
def Tallied (c : Cursor) : Prop := bytesStored c.block = c.off

theorem Tallied.emit {c c' : Cursor} {bs : List UInt8} (h : Tallied c)
    (hemit : c.emit bs = some c') : Tallied c' := by
  obtain ⟨block, hstore, rfl⟩ := Option.map_eq_some_iff.mp hemit
  have hstores := Block.stores_of_store hstore
  rw [Tallied, bytesStored] at h ⊢
  simp only [hstores, List.map_cons, List.sum_cons, h, Nat.add_comm]

theorem Tallied.copyZone {buffer : Block} {s : DomainsState} {dst : Cursor} (h : Tallied s.dst)
    (hcopy : copyZone buffer s = some dst) : Tallied dst := by
  simp only [DnsTools.copyZone, Option.bind_eq_bind, Option.bind_eq_some_iff] at hcopy
  obtain ⟨c, hc, zone, -, hdst⟩ := hcopy
  exact (h.emit hc).emit hdst

/-- A label takes a byte more than it has. -/
theorem off_of_copyZone {buffer : Block} {s : DomainsState} {dst : Cursor}
    (hcopy : copyZone buffer s = some dst) : dst.off = s.dst.off + s.zoneCount + 1 := by
  simp only [DnsTools.copyZone, Option.bind_eq_bind, Option.bind_eq_some_iff] at hcopy
  obtain ⟨c, hc, zone, hzone, hdst⟩ := hcopy
  have hoff := (Cursor.emitted_of_emit hc).off
  have hoff' := (Cursor.emitted_of_emit hdst).off
  rw [List.length_singleton] at hoff
  rw [Block.length_of_load hzone] at hoff'
  omega

theorem Tallied.turn {buffer : Block} {i : ℕ} {s s' : DomainsState} (h : Tallied s.dst)
    (hturn : domainsTurn buffer i s = some (.ok s')) : Tallied s'.dst := by
  simp only [domainsTurn, Option.bind_eq_bind, Option.bind_eq_some_iff] at hturn
  obtain ⟨current, -, hturn⟩ := hturn
  split at hturn
  · -- a dot
    split at hturn
    · simp at hturn
    · obtain ⟨dst, hcopy, hturn⟩ := Option.bind_eq_some_iff.mp hturn
      obtain rfl := Except.ok.inj (Option.some.inj hturn)
      exact Tallied.copyZone (s := { s with length := s.length + 1 }) h hcopy
  · split at hturn
    · -- a newline
      split at hturn
      · obtain rfl := Except.ok.inj (Option.some.inj hturn)
        exact h
      · split at hturn
        · simp at hturn
        · obtain ⟨dst, hcopy, hturn⟩ := Option.bind_eq_some_iff.mp hturn
          obtain ⟨dst', hdst', hturn⟩ := Option.bind_eq_some_iff.mp hturn
          obtain rfl := Except.ok.inj (Option.some.inj hturn)
          exact (h.copyZone hcopy).emit hdst'
    · -- any other byte
      split at hturn
      · simp at hturn
      · obtain rfl := Except.ok.inj (Option.some.inj hturn)
        exact h

/-- What is written behind the loop. -/
theorem Tallied.finish {buffer domains : Block} {s : DomainsState} {count : ℕ} (h : Tallied s.dst)
    (hfinish : domainsFinish buffer s = some (.loaded domains count)) :
    bytesStored domains = s.dst.off + if 0 < s.length then s.zoneCount + 3 else 1 := by
  simp only [domainsFinish, Option.bind_eq_bind] at hfinish
  split at hfinish
  · rename_i hlength
    rw [if_pos hlength]
    split at hfinish
    · simp at hfinish
    · obtain ⟨dst, hcopy, hfinish⟩ := Option.bind_eq_some_iff.mp hfinish
      obtain ⟨dst', hdst', hfinish⟩ := Option.bind_eq_some_iff.mp hfinish
      obtain ⟨dst'', hdst'', hfinish⟩ := Option.bind_eq_some_iff.mp hfinish
      obtain ⟨rfl, -⟩ := DomainsOutcome.loaded.inj (Option.some.inj hfinish)
      have htally : bytesStored dst''.block = dst''.off :=
        ((h.copyZone hcopy).emit hdst').emit hdst''
      have hoff := off_of_copyZone hcopy
      have hoff' := (Cursor.emitted_of_emit hdst').off
      have hoff'' := (Cursor.emitted_of_emit hdst'').off
      rw [List.length_singleton] at hoff' hoff''
      omega
  · rename_i hlength
    rw [if_neg hlength]
    obtain ⟨dst, hdst, hfinish⟩ := Option.bind_eq_some_iff.mp hfinish
    obtain ⟨rfl, -⟩ := DomainsOutcome.loaded.inj (Option.some.inj hfinish)
    have htally : bytesStored dst.block = dst.off := h.emit hdst
    have hoff := (Cursor.emitted_of_emit hdst).off
    rw [htally, hoff, List.length_singleton]

/-! ### The bytes of a file -/

section Written

variable {buffer : Block} {start : Cursor} {i : ℕ} {done : List (List (List UInt8))}
  {zones : List (List UInt8)} {skipped empty : ℕ} {zone : List UInt8} {s : DomainsState}

/-- What a file may amount to: a number of bytes that the buffer has room for, or one more than
that, if the file is one of those that overflow it. -/
inductive WrittenOutcome (n : ℕ) (lines : List (List (List UInt8))) (kept : ℕ) : ℕ → Prop
  | fits {written : ℕ} (hle : written ≤ domainsSize n)
      (hroom : BadLine lines ∨ lines.getLast? = some [[]] ∨ kept ≠ n ∨ n ≠ 2 * lines.length) :
      WrittenOutcome n lines kept written
  | exceeds (hgood : ¬BadLine lines) (hlast : lines.getLast? ≠ some [[]]) (hkept : kept = n)
      (hfull : n = 2 * lines.length) : WrittenOutcome n lines kept (domainsSize n + 1)

/-- At the end of the file. -/
theorem Reading.written_end (h : Reading buffer start buffer.size done zones skipped empty zone s)
    (htally : Tallied s.dst) (hstart : start.off = 0)
    (hsize : domainsSize buffer.size + 1 ≤ start.block.size) {kept : ℕ}
    (hkept : kept + empty = buffer.size) :
    WrittenOutcome buffer.size (done ++ [zones ++ [copiedLabel skipped zone]]) kept
      (bytesWrittenFrom buffer 0 buffer.size s) := by
  have hoff := h.emitted.off
  have hstored := h.stored
  have hlines := h.lines_le
  rw [hstart, Nat.zero_add] at hoff
  have hlen : (done ++ [zones ++ [copiedLabel skipped zone]]).length = done.length + 1 := by simp
  have hscan := h.finish_of_room hstart (by omega) fun hzone => by
    have hpos := List.length_pos_of_ne_nil hzone
    rw [domainsSize] at hsize
    rw [length_storedNames_zone]
    omega
  have hfinish := fun domains count => @Tallied.finish buffer domains s count htally
  rw [bytesWrittenFrom]
  revert hscan hfinish
  generalize domainsFinish buffer s = r
  intro hscan hfinish
  cases hscan with
  | rejected line hbad =>
    refine .fits ?_ (Or.inl hbad)
    show bytesStored s.dst.block ≤ _
    rw [htally, domainsSize]
    omega
  | loaded dst names hnames' _ hnames =>
    have hgood := not_badLine_of_names hnames' hnames
    have hwritten := hfinish _ _ rfl
    simp only [hwritten]
    by_cases hline : zones = [] ∧ zone = []
    · -- nothing is left to copy
      obtain ⟨rfl, rfl⟩ := hline
      rw [if_neg (by rw [h.length.mpr ⟨rfl, rfl⟩]; exact Nat.lt_irrefl 0)]
      refine .fits ?_ (Or.inr (Or.inl (by simp)))
      rw [domainsSize]
      omega
    · have hzone : zone ≠ [] := by
        rintro rfl
        exact hgood (badLine_concat_nil done fun hzones => hline ⟨hzones, rfl⟩)
      have hpos := List.length_pos_of_ne_nil hzone
      have hlast : (done ++ [zones ++ [copiedLabel skipped zone]]).getLast? ≠ some [[]] := by
        rw [List.getLast?_concat, ne_eq, Option.some.injEq]
        intro hlast
        have hmem : copiedLabel skipped zone ∈ [([] : List UInt8)] := hlast ▸ by simp
        exact copiedLabel_ne_nil hzone (List.mem_singleton.mp hmem)
      rw [if_pos (Nat.pos_of_ne_zero fun hzero => hline (h.length.mp hzero)), h.zoneCount]
      by_cases hfull : kept = buffer.size ∧ buffer.size = 2 * (done.length + 1)
      · have hexact : s.dst.off + (zone.length + 3) = domainsSize buffer.size + 1 := by
          rw [domainsSize]
          omega
        rw [hexact]
        exact .exceeds hgood hlast hfull.1 (by rw [hlen]; exact hfull.2)
      · refine .fits ?_ ?_
        · rw [domainsSize]
          omega
        · rw [hlen]
          omega

/-- **What the rest of a file adds.** -/
theorem Reading.written {rest : List UInt8}
    (h : Reading buffer start i done zones skipped empty zone s) (htally : Tallied s.dst)
    (hrest : buffer.bytes.drop i = rest) (hstart : start.off = 0)
    (hsize : domainsSize buffer.size + 1 ≤ start.block.size) {kept : ℕ}
    (hkept : (dropEmptyLines (lineStart zones zone) rest).length + i = kept + empty) :
    WrittenOutcome buffer.size (copiedLines done zones skipped zone rest) kept
      (bytesWrittenFrom buffer rest.length i s) := by
  induction rest generalizing i done zones skipped empty zone s with
  | nil =>
    obtain rfl : i = buffer.size := h.size_eq hrest
    rw [dropEmptyLines, List.length_nil, Nat.zero_add] at hkept
    exact h.written_end htally hstart hsize hkept.symm
  | cons b rest ih =>
    have hb : buffer.bytes[i]? = some b := Table.getElem?_of_drop hrest
    have hi : i < buffer.size := (List.getElem?_eq_some_iff.mp hb).1
    have hrest' : buffer.bytes.drop (i + 1) = rest := Table.drop_of_drop hrest
    have hturn := h.turn hb hstart (by omega)
    have htally' := fun s' => @Tallied.turn buffer i s s' htally
    have hoff := h.emitted.off
    have hroom := h.room
    rw [hstart, Nat.zero_add] at hoff
    rw [List.length_cons, bytesWrittenFrom]
    revert hturn htally'
    generalize domainsTurn buffer i s = r
    intro hturn htally'
    cases hturn with
    | next s' done' zones' skipped' empty' zone' hreading hcopied hdropped =>
      -- what is left of the file without its empty lines is measured along with the accumulators
      have := hdropped rest
      rw [hcopied]
      exact ih hreading (htally' s' rfl) hrest' (by omega)
    | reject line hbad =>
      refine .fits ?_ (Or.inl (hbad rest))
      show bytesStored s.dst.block ≤ _
      rw [htally, domainsSize]
      omega

end Written

/-! ### The whole file -/

/-- A file that ends without a piece behind its last newline ends with a newline. -/
theorem getLast?_eq_newline {content : List UInt8} (hne : content ≠ [])
    (h : (content.splitOn newline).getLast? = some []) : content.getLast? = some newline := by
  induction content with
  | nil => exact absurd rfl hne
  | cons b rest ih =>
    obtain ⟨piece, pieces, hpieces⟩ :=
      List.exists_cons_of_ne_nil (List.splitOn_ne_nil newline rest)
    by_cases hrest : rest = []
    · subst hrest
      by_cases hb : b = newline
      · rw [hb, List.getLast?_singleton]
      · simp [splitOn_cons_of_ne hb] at h
    · have hlast : (rest.splitOn newline).getLast? = some [] := by
        by_cases hb : b = newline
        · rwa [hb, splitOn_newline_cons, hpieces, List.getLast?_cons_cons, ← hpieces] at h
        · rw [splitOn_cons_of_ne hb, hpieces, List.modifyHead_cons] at h
          cases pieces with
          | nil => simp at h
          | cons piece' pieces =>
            rw [List.getLast?_cons_cons] at h
            rwa [hpieces, List.getLast?_cons_cons]
      rw [List.getLast?_cons, ih hrest hlast, Option.getD_some]

/-- The overflowing files in their own terms: the last line is not closed, every line is a domain
name, and there are two bytes for each. -/
theorem overflows_iff {content : List UInt8} (hne : content ≠ []) :
    Overflows content ∧ ¬BadLine (copiedNames content) ↔
      content.getLast? ≠ some newline ∧ content.length = 2 * (fileLines content).length ∧
        ∀ line ∈ fileLines content, IsDomainName line := by
  have hlines : ∀ hlast : (content.splitOn newline).getLast? ≠ some [],
      fileLines content = content.splitOn newline := fun hlast => by rw [fileLines, if_neg hlast]
  have hcopied : ∀ hself : withoutEmptyLines content = content,
      copiedNames content = allLabels content := fun hself => by
    rw [copiedNames_eq_allLabels (hself.symm ▸ List.prefix_refl _), hself]
  constructor
  · rintro ⟨⟨hlast, hsame, hfull⟩, hgood⟩
    have hself : withoutEmptyLines content = content := by
      by_contra hlt
      exact absurd (length_withoutEmptyLines_lt hlt) (by omega)
    rw [badLine_copiedNames_iff, badLine_allLabels_iff] at hgood
    rw [hcopied hself] at hlast hfull
    have hlast' := fun hsome => hlast (getLast?_allLabels_iff.mpr hsome)
    refine ⟨fun hnewline => hlast' (getLast?_splitOn_of_newline hnewline), ?_, ?_⟩
    · rw [hlines hlast']
      rwa [allLabels, List.length_map] at hfull
    · intro line hline
      by_contra hbad
      refine hgood ⟨line, hline, ?_, hbad⟩
      rintro rfl
      exact nil_notMem_fileLines content (hself.symm ▸ hline)
  · rintro ⟨hlast, hfull, hnames⟩
    have hblank : [] ∉ fileLines content := fun hmem =>
      not_isLabel_nil (hnames [] hmem [] (List.mem_singleton_self _))
    have hself := withoutEmptyLines_eq_self hblank
    have hlast' := fun hsome => hlast (getLast?_eq_newline hne hsome)
    rw [badLine_copiedNames_iff, badLine_allLabels_iff]
    refine ⟨⟨?_, by rw [hself], ?_⟩, ?_⟩
    · rw [hcopied hself]
      exact fun hsome => hlast' (getLast?_allLabels_iff.mp hsome)
    · rw [hcopied hself, allLabels, List.length_map, ← hlines hlast', hfull]
    · rintro ⟨line, hline, -, hbad⟩
      exact hbad (hnames line hline)

/-- How much is written for a file. -/
theorem bytesWritten_outcome (content : List UInt8) :
    WrittenOutcome content.length (copiedNames content) (withoutEmptyLines content).length
      (bytesWritten content) := by
  have hsize : domainsSize content.length + 1 ≤ (roomyBlock content.length).size := by
    rw [domainsSize, roomyBlock, Block.size, List.length_replicate]
    omega
  exact (Reading.initial ⟨content, []⟩ (roomyBlock content.length)).written rfl (List.drop_zero ..)
    rfl hsize rfl

theorem bytesWritten_le_iff (content : List UInt8) :
    bytesWritten content ≤ domainsSize content.length ↔
      ¬(Overflows content ∧ ¬BadLine (copiedNames content)) := by
  have houtcome := bytesWritten_outcome content
  revert houtcome
  generalize bytesWritten content = written
  intro houtcome
  cases houtcome with
  | fits hle hroom =>
    refine iff_of_true hle ?_
    rintro ⟨⟨hlast, hsame, hfull⟩, hgood⟩
    rcases hroom with hbad | hnewline | hkept | hlength
    · exact hgood hbad
    · exact hlast hnewline
    · exact hkept hsame
    · exact hlength hfull
  | exceeds hgood hlast hkept hfull =>
    exact iff_of_false (by omega) fun hnot => hnot ⟨⟨hlast, hkept, hfull⟩, hgood⟩

/-- **When the names fit.** What `get_domains` writes to `*domains` stays within the bytes it has
allocated exactly if the file ends with a newline, or its bytes are not twice as many as its lines,
or some line is no domain name; and in the other files it leaves the buffer. -/
theorem names_fit_iff {malloc : Malloc} {content : List UInt8} {buffer domains : Block}
    (hne : content ≠ []) (hlimit : content.length ≤ domainsFileLimit)
    (hbuffer : malloc.alloc content.length = some buffer)
    (hdomains : malloc.alloc (domainsSize content.length) = some domains) :
    (bytesWritten content ≤ domainsSize content.length ↔
      content.getLast? = some newline ∨ content.length ≠ 2 * (fileLines content).length ∨
        ∃ line ∈ fileLines content, ¬IsDomainName line) ∧
    (getDomains malloc (.ofContents content) = none ↔
      domainsSize content.length < bytesWritten content) := by
  rw [← Nat.not_le, bytesWritten_le_iff, not_not]
  constructor
  · rw [overflows_iff hne, not_and_or, not_and_or, not_not]
    push Not
    exact Iff.rfl
  · constructor
    · intro hnone
      rcases getDomains_scan hne hlimit hbuffer hdomains with hscan | ⟨hover, -, hgood⟩
      · rw [hnone] at hscan
        cases hscan
      · exact ⟨hover, hgood⟩
    · rintro ⟨hover, hgood⟩
      exact getDomains_eq_none hne hlimit hbuffer hdomains hover hgood

/-- One line closed by a newline. -/
theorem names_fit_iff_closed :
    (bytesWritten [0x61, newline] ≤ domainsSize [0x61, newline].length ↔
      [0x61, newline].getLast? = some newline ∨
        [0x61, newline].length ≠ 2 * (fileLines [0x61, newline]).length ∨
        ∃ line ∈ fileLines [0x61, newline], ¬IsDomainName line) ∧
    (getDomains .zeroed (.ofContents [0x61, newline]) = none ↔
      domainsSize [0x61, newline].length < bytesWritten [0x61, newline]) :=
  names_fit_iff (by decide) (by decide) rfl rfl

/-- The file that holds `ab` and nothing else: five bytes are written, and four are allocated. -/
theorem names_do_not_fit :
    bytesWritten [0x61, 0x62] = 5 ∧ domainsSize [(0x61 : UInt8), 0x62].length = 4 ∧
      getDomains .zeroed (.ofContents [0x61, 0x62]) = none :=
  ⟨rfl, rfl, rfl⟩

end DnsTools
