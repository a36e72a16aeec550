import DnsTools.Mig.EmptyLines

/-!
# What a line is copied as

`copiedNames` follows the loop of `get_domains` byte by byte. Here is the same in terms of the lines
of the file: a line is copied label by label, except that its first label, when empty lines stand in
front of it, is copied from the first of their newlines on. `copyLines` says this, and
`namesOf_copiedNames` that it is what the buffer holds.

## Lines and pieces

The loop has no notion of a line. It sees what stands between newlines, and the last of these pieces
is copied behind the loop, where an empty one is no line at all. So the step from bytes to pieces is
taken first, by the recursion of the loop (`copiedLines_eq_copyPieces`), and that from pieces to
lines behind it (`namesOf_copyPieces`): the two recursions are the same but for the last piece.

## What is lost in a label

A label copied late has the right length and the wrong bytes. It begins with the newlines passed
over, and as many bytes of the label itself are missing at its end. The lengths are therefore those
of the file (`map_length_copiedLine`), which is all that the sizes of names depend on, and what else
is asked of a line has to look at the bytes that are kept: `keptLine`.

## A file that is loaded

`Loaded` collects what the success of `get_domains` means, for the modules that go on from there,
and `loaded_spec` puts it together with the scan. It holds of every file accepted, whatever the
allocator returns and with empty lines anywhere.

## Main results

* `copiedLines_eq_copyPieces` — what the loop copies, piece by piece
* `namesOf_copiedNames` — what the buffer holds, line by line
* `loaded_spec` — what success means
-/

namespace DnsTools

open Memory

/-- The labels of a line behind so many empty lines, as they are copied. -/
def copiedLine (skipped : ℕ) : List (List UInt8) → List (List UInt8)
  | [] => []
  | zone :: zones => copiedLabel skipped zone :: zones

/-- The lines of a file as they are copied, the first of them behind so many empty lines. -/
def copyLines : ℕ → List (List UInt8) → List (List (List UInt8))
  | _, [] => []
  | skipped, line :: lines =>
    if line = [] then copyLines (skipped + 1) lines
    else copiedLine skipped (labelsOf line) :: copyLines 0 lines

/-- The same for the pieces between newlines, the last of which is copied even if it is empty. -/
def copyPieces : ℕ → List (List UInt8) → List (List (List UInt8))
  | _, [] => []
  | skipped, piece :: pieces =>
    if piece = [] ∧ pieces ≠ [] then copyPieces (skipped + 1) pieces
    else copiedLine skipped (labelsOf piece) :: copyPieces 0 pieces

@[simp] theorem copiedLine_zero (zones : List (List UInt8)) : copiedLine 0 zones = zones := by
  cases zones with
  | nil => rfl
  | cons zone zones => rw [copiedLine, copiedLabel_zero]

@[simp] theorem map_length_copiedLine (skipped : ℕ) (zones : List (List UInt8)) :
    (copiedLine skipped zones).map List.length = zones.map List.length := by
  cases zones with
  | nil => rfl
  | cons zone zones => rw [copiedLine, List.map_cons, List.map_cons, length_copiedLabel]

theorem copiedLine_ne_singleton_nil {skipped : ℕ} {line : List UInt8} (h : line ≠ []) :
    copiedLine skipped (labelsOf line) ≠ [[]] := by
  intro heq
  have hlen := map_length_copiedLine skipped (labelsOf line)
  rw [heq] at hlen
  obtain ⟨zone, hzone, hnil⟩ := List.map_eq_singleton_iff.mp hlen.symm
  rw [List.length_eq_zero_iff.mp hnil, labelsOf_eq_singleton_nil] at hzone
  exact h hzone

/-- The labels of a line that begins with a byte of a label. -/
theorem labelsOf_cons {b : UInt8} (hb : b ≠ dot) (line : List UInt8) :
    labelsOf (b :: line) = (labelsOf line).modifyHead (b :: ·) := by
  rw [labelsOf, labelsOf, List.splitOn_cons_eq_if_modifyHead, beq_false_of_ne hb,
    if_neg Bool.false_ne_true]

theorem labelsOf_dot (line : List UInt8) : labelsOf (dot :: line) = [] :: labelsOf line := by
  rw [labelsOf, labelsOf, List.splitOn_cons_eq_if_modifyHead, beq_self_eq_true, if_pos rfl]

/-- What the loop copies, in terms of the pieces of the rest of the file. -/
theorem copiedLines_eq_copyPieces (zones : List (List UInt8)) (skipped : ℕ)
    (zone rest : List UInt8) (hskipped : zones = [] ∨ skipped = 0) {piece : List UInt8}
    {pieces : List (List UInt8)} (hpieces : rest.splitOn newline = piece :: pieces) :
    copiedLines [] zones skipped zone rest =
      if zones = [] ∧ zone = [] ∧ piece = [] ∧ pieces ≠ [] then copyPieces (skipped + 1) pieces
      else (zones ++ copiedLine skipped ((labelsOf piece).modifyHead (zone ++ ·)))
        :: copyPieces 0 pieces := by
  induction rest generalizing zones skipped zone piece pieces with
  | nil =>
    obtain ⟨rfl, rfl⟩ := List.cons.inj hpieces
    rw [if_neg (by simp), copiedLines]
    simp [labelsOf, copiedLine, copyPieces]
  | cons b rest ih =>
    obtain ⟨p, ps, hp⟩ := List.exists_cons_of_ne_nil (List.splitOn_ne_nil newline rest)
    obtain ⟨z, zs, hz⟩ := List.exists_cons_of_ne_nil (labelsOf_ne_nil p)
    rw [copiedLines]
    split
    · -- a dot closes a label; behind it nothing is skipped any more
      rename_i hdot
      subst hdot
      rw [splitOn_cons_of_ne (by decide), hp] at hpieces
      obtain ⟨rfl, rfl⟩ := List.cons.inj hpieces
      rw [ih _ 0 [] (Or.inr rfl) hp, if_neg (by simp), if_neg (by simp), labelsOf_dot, hz]
      simp [copiedLine]
    · rename_i hdot
      split
      · -- a newline closes a piece, an empty one or one with labels
        rename_i hnewline
        subst hnewline
        rw [splitOn_newline_cons, hp] at hpieces
        obtain ⟨rfl, rfl⟩ := List.cons.inj hpieces
        split
        · rename_i hstart
          obtain ⟨rfl, rfl⟩ := hstart
          rw [ih [] (skipped + 1) [] (Or.inl rfl) hp]
          simp [copyPieces, hz]
        · rename_i hstart
          have hnil : labelsOf [] = [[]] := rfl
          rw [if_neg fun h => hstart ⟨h.1, h.2.1⟩, copiedLines_eq_append,
            ih [] 0 [] (Or.inl rfl) hp, hnil]
          simp [copyPieces, hz, copiedLine]
      · -- any other byte goes to the label, whose piece it begins
        rename_i hnewline
        rw [splitOn_cons_of_ne hnewline, hp] at hpieces
        obtain ⟨rfl, rfl⟩ := List.cons.inj hpieces
        rw [ih zones skipped (zone ++ [b]) hskipped hp, if_neg (by simp), if_neg (by simp),
          labelsOf_cons hdot, hz]
        simp

theorem copiedNames_eq_copyPieces (content : List UInt8) :
    copiedNames content = copyPieces 0 (content.splitOn newline) := by
  obtain ⟨p, ps, hp⟩ := List.exists_cons_of_ne_nil (List.splitOn_ne_nil newline content)
  obtain ⟨z, zs, hz⟩ := List.exists_cons_of_ne_nil (labelsOf_ne_nil p)
  rw [copiedNames, copiedLines_eq_copyPieces [] 0 [] content (Or.inl rfl) hp, hp, copyPieces]
  simp [hz]

theorem copyPieces_ne_nil (skipped : ℕ) {pieces : List (List UInt8)} (h : pieces ≠ []) :
    copyPieces skipped pieces ≠ [] := by
  induction pieces generalizing skipped with
  | nil => exact absurd rfl h
  | cons piece pieces ih =>
    rw [copyPieces]
    split
    · rename_i hempty
      exact ih (skipped + 1) hempty.2
    · exact List.cons_ne_nil _ _

theorem namesOf_cons (line : List (List UInt8)) {lines : List (List (List UInt8))}
    (h : lines ≠ []) : namesOf (line :: lines) = line :: namesOf lines := by
  obtain ⟨line', lines', rfl⟩ := List.exists_cons_of_ne_nil h
  rw [namesOf, namesOf, List.getLast?_cons_cons]
  split
  · rfl
  · rfl

/-- The names among the pieces copied are the lines copied. -/
theorem namesOf_copyPieces (skipped : ℕ) (lines : List (List UInt8)) (last : List UInt8) :
    namesOf (copyPieces skipped (lines ++ [last]))
      = copyLines skipped (if last = [] then lines else lines ++ [last]) := by
  induction lines generalizing skipped with
  | nil =>
    rw [List.nil_append, copyPieces, if_neg (by simp), copyPieces]
    by_cases hlast : last = []
    · subst hlast
      rfl
    · rw [if_neg hlast, copyLines, if_neg hlast, copyLines, namesOf, List.getLast?_singleton,
        if_neg fun h => copiedLine_ne_singleton_nil hlast (Option.some.inj h)]
  | cons line lines ih =>
    have hcons : ∀ p : List (List UInt8), (if last = [] then line :: p else line :: (p ++ [last]))
        = line :: if last = [] then p else p ++ [last] := by
      intro p
      split <;> rfl
    rw [List.cons_append, copyPieces, hcons, copyLines]
    by_cases hline : line = []
    · rw [if_pos ⟨hline, by simp⟩, if_pos hline, ih]
    · rw [if_neg fun h => hline h.1, if_neg hline, namesOf_cons _ (copyPieces_ne_nil 0 (by simp)),
        ih]

/-- **The names that are copied, line by line.** -/
theorem namesOf_copiedNames (content : List UInt8) :
    namesOf (copiedNames content) = copyLines 0 (fileLines content) := by
  obtain ⟨lines, last, hpieces⟩ : ∃ lines last, content.splitOn newline = lines ++ [last] :=
    ⟨_, _, (List.dropLast_append_getLast (List.splitOn_ne_nil newline content)).symm⟩
  rw [copiedNames_eq_copyPieces, hpieces, namesOf_copyPieces, fileLines, hpieces,
    List.getLast?_concat, List.dropLast_concat]
  by_cases hlast : last = []
  · rw [if_pos hlast, if_pos (by rw [hlast])]
  · rw [if_neg hlast, if_neg fun h => hlast (Option.some.inj h)]

/-- A property of the labels of a line that is the same for what is copied. -/
theorem forall_copyLines {P : List (List UInt8) → Prop} {Q : List UInt8 → Prop}
    (h : ∀ skipped line, line ≠ [] → (P (copiedLine skipped (labelsOf line)) ↔ Q line))
    (skipped : ℕ) (lines : List (List UInt8)) :
    (∀ name ∈ copyLines skipped lines, P name) ↔ ∀ line ∈ lines, line ≠ [] → Q line := by
  induction lines generalizing skipped with
  | nil => simp [copyLines]
  | cons line lines ih =>
    rw [copyLines]
    by_cases hline : line = []
    · simp [hline, ih]
    · simp [hline, ih, h skipped line hline]

/-- A line takes two bytes more as a name than in the file. -/
theorem length_encodeLabels_labelsOf (line : List UInt8) :
    (Dns.Name.encodeLabels (labelsOf line)).length = line.length + 1 := by
  induction line with
  | nil => rfl
  | cons b line ih =>
    obtain ⟨z, zs, hz⟩ := List.exists_cons_of_ne_nil (labelsOf_ne_nil line)
    rw [hz, Dns.Name.encodeLabels_cons] at ih
    by_cases hdot : b = dot
    · subst hdot
      rw [labelsOf_dot, hz, Dns.Name.encodeLabels_cons, Dns.Name.encodeLabels_cons]
      simp only [List.length_append, List.length_cons, List.length_nil] at ih ⊢
      omega
    · rw [labelsOf_cons hdot, hz, List.modifyHead_cons, Dns.Name.encodeLabels_cons]
      simp only [List.length_append, List.length_cons] at ih ⊢
      omega

theorem length_encodeLabels_copiedLine (skipped : ℕ) (line : List UInt8) :
    (Dns.Name.encodeLabels (copiedLine skipped (labelsOf line))).length = line.length + 1 := by
  obtain ⟨z, zs, hz⟩ := List.exists_cons_of_ne_nil (labelsOf_ne_nil line)
  have hlen := length_encodeLabels_labelsOf line
  rw [hz, Dns.Name.encodeLabels_cons] at hlen
  rw [hz, copiedLine, Dns.Name.encodeLabels_cons]
  simpa only [List.length_append, List.length_cons, length_copiedLabel] using hlen

/-! ### Zero bytes -/

/-- The bytes of the labels of a line behind so many empty lines that are copied: all but as many
at the end of its first label. -/
def keptLine (skipped : ℕ) : List (List UInt8) → List (List UInt8)
  | [] => []
  | zone :: zones => zone.take (zone.length - skipped) :: zones

/-- No zero byte is among the bytes of the lines that are copied. -/
def NoZeroKept : ℕ → List (List UInt8) → Prop
  | _, [] => True
  | skipped, line :: lines =>
    if line = [] then NoZeroKept (skipped + 1) lines
    else (∀ z ∈ keptLine skipped (labelsOf line), 0 ∉ z) ∧ NoZeroKept 0 lines

theorem zero_mem_copiedLabel {skipped : ℕ} {zone : List UInt8} :
    0 ∈ copiedLabel skipped zone ↔ 0 ∈ zone.take (zone.length - skipped) := by
  have hnewline : (0 : UInt8) ≠ newline := by decide
  rw [copiedLabel, List.take_append, List.length_replicate, List.mem_append, List.take_replicate,
    List.mem_replicate]
  exact or_iff_right fun h => hnewline h.2

theorem zero_notMem_copyLines (skipped : ℕ) (lines : List (List UInt8)) :
    (∀ name ∈ copyLines skipped lines, ∀ z ∈ name, 0 ∉ z) ↔ NoZeroKept skipped lines := by
  induction lines generalizing skipped with
  | nil => simp [copyLines, NoZeroKept]
  | cons line lines ih =>
    rw [copyLines, NoZeroKept]
    by_cases hline : line = []
    · rw [if_pos hline, if_pos hline, ih]
    · obtain ⟨z, zs, hz⟩ := List.exists_cons_of_ne_nil (labelsOf_ne_nil line)
      rw [if_neg hline, if_neg hline, List.forall_mem_cons, ih, hz, copiedLine, keptLine,
        List.forall_mem_cons, List.forall_mem_cons, zero_mem_copiedLabel]

/-! ### A file that is loaded -/

/-- The names of a file, as they lie in the buffer that `get_domains` has filled. -/
structure Loaded (content : List UInt8) (domains : Block) (count : ℕ) : Prop where
  /-- The file is not empty. -/
  ne_nil : content ≠ []
  /-- It is not too big. -/
  limit : content.length ≤ domainsFileLimit
  /-- The size of the buffer. -/
  size : domains.size = domainsSize content.length
  /-- The names lie in it. -/
  holds : domains.Holds 0 ((copyLines 0 (fileLines content)).flatMap Dns.Name.encode ++ [0])
  /-- Each name has a label, and each label fits its length byte. -/
  labels : ∀ line ∈ copyLines 0 (fileLines content), line ≠ [] ∧ ∀ z ∈ line, IsLabel z
  /-- They are counted. -/
  count : count = (copyLines 0 (fileLines content)).length
  /-- No line is bad. -/
  good : ¬BadLine (copiedNames content)

/-- **What success means.** -/
theorem loaded_spec {malloc : Malloc} {content : List UInt8} {domains : Block} {count : ℕ}
    (h : getDomains malloc (.ofContents content) = some (.loaded domains count)) :
    Loaded content domains count := by
  have hlimit : ¬domainsFileLimit < content.length := by
    intro hlt
    rw [getDomains_of_limit_lt hlt] at h
    simp at h
  cases hbuffer : malloc.alloc content.length with
  | none => simp [getDomains, DomainFile.ofContents, hlimit, hbuffer] at h
  | some buffer =>
    cases hstore : buffer.store 0 content with
    | none => simp [getDomains, DomainFile.ofContents, hlimit, hbuffer, hstore] at h
    | some buffer' =>
      have hne : content ≠ [] := by
        rintro rfl
        rw [List.length_nil] at hbuffer
        simp [getDomains, DomainFile.ofContents, hbuffer, hstore] at h
      cases hnames : malloc.alloc (domainsSize content.length) with
      | none => simp [getDomains, DomainFile.ofContents, hlimit, hbuffer, hstore, hne, hnames] at h
      | some names =>
        rcases getDomains_scan hne (Nat.not_lt.mp hlimit) hbuffer hnames with
          hscan | ⟨-, hnone, -⟩
        · rw [h] at hscan
          generalize hlines : copiedNames content = lines at hscan
          cases hscan with
          | loaded dst stored hstored hemitted hlabels =>
            have hnamesOf := namesOf_eq hstored hlabels
            rw [← hlines, namesOf_copiedNames] at hnamesOf
            subst hnamesOf
            exact ⟨hne, Nat.not_lt.mp hlimit, hemitted.size.trans (malloc.size_alloc hnames),
              hemitted.holds, hlabels, rfl, hlines ▸ not_badLine_of_names hstored hlabels⟩
        · rw [h] at hnone
          simp at hnone

end DnsTools
