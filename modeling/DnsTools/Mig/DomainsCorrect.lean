import DnsTools.Mig.DomainsScan

/-!
# What the domain parser accepts and produces

The parser of `Domains` against the plain reading of a domain file: its lines are what lies
between newlines, where a final newline closes the last line and does not open another, and the
labels of a line are what lies between dots. `getDomains_correct` says that the two agree: the file
is accepted exactly if each line is a domain name, and then the bytes stored are those of the names,
and walking over them as `print_domains` does gives the lines back.

## From one pass to the lines of the file

`get_domains` reads byte by byte and copies a label when its end has come, from `src_offset` on. So
what it stores are the labels of `copiedNames`, and these are the labels of the file only if
`src_offset` keeps in step with what has been read.

`splitAcc` is the plain reading as a left-to-right recursion over the accumulators of `copiedLines`.
The two agree as long as no newline is copied for a byte of a label, which `InStep` says in terms
of the file: what is left of it without its empty lines is what lies behind `src_offset`. In a
file without empty lines that is always so, and `getDomains_scan` becomes a statement about the
lines of the file.

## What is assumed

The contents of the file are any bytes. The hypotheses of `getDomains_correct` on them are these.

* The file is not empty and not above the limit. `get_domains` asks for both before it reads, and
  `getDomains_untouched` shows that it turns such files away although all their lines are names.
* No line is blank. Behind a blank line `src_offset` lags, which is the subject of `EmptyLines`.
* The bytes allocated are enough. `names_fit_iff` in `DomainsRoom` says when, and the condition here
  is the same one: only what is written behind the loop can be too much, and only for `n` names in
  `2 * n` bytes without a final newline.

The allocations succeed, with any bytes in the blocks.

## Main results

* `copiedNames_eq_allLabels` — without empty lines the labels copied are those of the file
* `printDomains_of_holds` — walking over stored names gives them back
* `getDomains_correct` — which files are accepted, and what is stored of them
* `getDomains_untouched` — the files turned away unread
-/

namespace DnsTools

open Memory

/-! ### The plain reading of a file -/

/-- The lines of a file. -/
def fileLines (content : List UInt8) : List (List UInt8) :=
  if (content.splitOn newline).getLast? = some [] then (content.splitOn newline).dropLast
  else content.splitOn newline

/-- The labels of a line. -/
def labelsOf (line : List UInt8) : List (List UInt8) := line.splitOn dot

/-- A line is a sequence of labels. -/
def IsDomainName (line : List UInt8) : Prop := ∀ label ∈ labelsOf line, IsLabel label

/-- The names of a file as `get_domains` stores them, without the closing zero byte. -/
def encodedNames (content : List UInt8) : List UInt8 :=
  (fileLines content).flatMap fun line => Dns.Name.encode (labelsOf line)

/-- The labels of every line, the piece behind the last newline included. -/
def allLabels (content : List UInt8) : List (List (List UInt8)) :=
  (content.splitOn newline).map labelsOf

/-! ### The same, with accumulators

`copiedLines` carries the lines done, the labels of the current line and the bytes of the current
label from one byte to the next. `splitAcc` carries the same three, so that the two recursions can
be compared byte by byte. -/

/-- Split the rest of a file, given the lines done, the labels of the current line and the
current label. -/
def splitAcc (done : List (List (List UInt8))) (zones : List (List UInt8)) (zone : List UInt8) :
    List UInt8 → List (List (List UInt8))
  | [] => done ++ [zones ++ [zone]]
  | b :: rest =>
    if b = dot then splitAcc done (zones ++ [zone]) [] rest
    else if b = newline then splitAcc (done ++ [zones ++ [zone]]) [] [] rest
    else splitAcc done zones (zone ++ [b]) rest

theorem labelsOf_ne_nil (line : List UInt8) : labelsOf line ≠ [] := List.splitOn_ne_nil dot line

theorem labelsOf_eq_singleton_nil {line : List UInt8} : labelsOf line = [[]] ↔ line = [] := by
  constructor
  · intro h
    have hjoin : [dot].intercalate (labelsOf line) = line := List.intercalate_splitOn dot
    rw [← hjoin, h]
    rfl
  · rintro rfl
    rfl

theorem splitOn_newline_cons (rest : List UInt8) :
    (newline :: rest).splitOn newline = [] :: rest.splitOn newline := by
  rw [List.splitOn_cons_eq_if_modifyHead, beq_self_eq_true, if_pos rfl]

theorem splitOn_cons_of_ne {b : UInt8} (hb : b ≠ newline) (rest : List UInt8) :
    (b :: rest).splitOn newline = (rest.splitOn newline).modifyHead (b :: ·) := by
  rw [List.splitOn_cons_eq_if_modifyHead, beq_false_of_ne hb, if_neg Bool.false_ne_true]

theorem allLabels_nil : allLabels [] = [[[]]] := rfl

theorem allLabels_dot (rest : List UInt8) :
    allLabels (dot :: rest) = (allLabels rest).modifyHead fun line => [] :: line := by
  rw [allLabels, allLabels, splitOn_cons_of_ne (by decide)]
  cases rest.splitOn newline with
  | nil => rfl
  | cons line lines =>
    simp [labelsOf, List.splitOn_cons_eq_if_modifyHead]

theorem allLabels_newline (rest : List UInt8) :
    allLabels (newline :: rest) = [[]] :: allLabels rest := by
  rw [allLabels, splitOn_newline_cons]
  rfl

theorem allLabels_cons {b : UInt8} (hdot : b ≠ dot) (hnewline : b ≠ newline) (rest : List UInt8) :
    allLabels (b :: rest)
      = (allLabels rest).modifyHead fun line => line.modifyHead fun zone => b :: zone := by
  rw [allLabels, allLabels, splitOn_cons_of_ne hnewline]
  cases rest.splitOn newline with
  | nil => rfl
  | cons line lines =>
    simp [labelsOf, List.splitOn_cons_eq_if_modifyHead, beq_false_of_ne hdot]

/-- The labels of the first line begin with a label. -/
theorem exists_allLabels_eq (content : List UInt8) :
    ∃ zone zones lines, allLabels content = (zone :: zones) :: lines := by
  cases hsplit : content.splitOn newline with
  | nil => exact absurd hsplit (List.splitOn_ne_nil _ _)
  | cons line lines =>
    cases hlabels : labelsOf line with
    | nil => exact absurd hlabels (labelsOf_ne_nil line)
    | cons zone zones =>
      exact ⟨zone, zones, lines.map labelsOf, by rw [allLabels, hsplit, List.map_cons, hlabels]⟩

/-- What is still to come continues the current label and the current line. -/
theorem splitAcc_eq (done : List (List (List UInt8))) (zones : List (List UInt8))
    (zone rest : List UInt8) :
    splitAcc done zones zone rest
      = done ++ (allLabels rest).modifyHead fun line => zones ++ line.modifyHead (zone ++ ·) := by
  -- the accumulators change with every byte, so they are general; what is read of the rest is put
  -- behind the current line and the current label
  induction rest generalizing done zones zone with
  | nil => simp [splitAcc, allLabels_nil]
  | cons b rest ih =>
    obtain ⟨z, zs, lines, hrest⟩ := exists_allLabels_eq rest
    rw [splitAcc]
    split
    · rename_i hdot
      subst hdot
      simp [ih, allLabels_dot, hrest]
    · rename_i hdot
      split
      · rename_i hnewline
        subst hnewline
        simp [ih, allLabels_newline, hrest]
      · rename_i hnewline
        simp [ih, allLabels_cons hdot hnewline, hrest]

theorem splitAcc_nil_nil_nil (content : List UInt8) :
    splitAcc [] [] [] content = allLabels content := by
  obtain ⟨zone, zones, lines, hcontent⟩ := exists_allLabels_eq content
  simp [splitAcc_eq, hcontent]

/-- The accumulators are a prefix of the result. -/
theorem exists_splitAcc_eq (done : List (List (List UInt8))) (zones : List (List UInt8))
    (zone rest : List UInt8) :
    ∃ z zs lines,
      splitAcc done zones zone rest = done ++ (zones ++ (zone ++ z) :: zs) :: lines := by
  obtain ⟨z, zs, lines, hrest⟩ := exists_allLabels_eq rest
  exact ⟨z, zs, lines, by simp [splitAcc_eq, hrest]⟩

/-! ### Copying in step with the file

A label is copied from `src_offset` on, for as many bytes as have been counted since its start. At
an empty line nothing is copied, and `src_offset` stays where it is: from there on it lags behind by
the newlines passed over, which `skipped` counts. The next label copied begins with these newlines
and lacks as many of its own bytes; behind it `src_offset` has caught up. -/

/-- The file without its empty lines, from the current label on, begins what lies behind
`src_offset`: the newlines passed over, the label, and the rest of the file. -/
def InStep (zones : List (List UInt8)) (skipped : ℕ) (zone rest : List UInt8) : Prop :=
  zone ++ dropEmptyLines (lineStart zones zone) rest
    <+: List.replicate skipped newline ++ (zone ++ rest)

variable {done : List (List (List UInt8))} {zones : List (List UInt8)} {skipped : ℕ}
  {zone rest : List UInt8}

/-- What begins with a byte of a label does not begin with a newline. -/
theorem skipped_eq_zero {bs xs ys : List UInt8} (hne : bs ≠ []) (hbs : newline ∉ bs)
    (h : bs ++ xs <+: List.replicate skipped newline ++ ys) : skipped = 0 := by
  cases skipped with
  | zero => rfl
  | succ n =>
    obtain ⟨b, bs, rfl⟩ := List.exists_cons_of_ne_nil hne
    rw [List.replicate_succ, List.cons_append, List.cons_append, List.cons_prefix_cons] at h
    exact absurd (h.1 ▸ List.mem_cons_self ..) hbs

theorem inStep_nil (hzone : newline ∉ zone) :
    InStep zones skipped zone [] ↔ zone = [] ∨ skipped = 0 := by
  rw [InStep, dropEmptyLines, List.append_nil]
  constructor
  · intro h
    by_cases hnil : zone = []
    · exact Or.inl hnil
    · exact Or.inr (skipped_eq_zero hnil hzone (show zone ++ [] <+: _ by simpa using h))
  · rintro (rfl | rfl)
    · exact List.nil_prefix
    · exact List.prefix_refl _

/-- A dot or the newline behind a label: in step before it is in step behind it with no newline
passed over. -/
theorem inStep_zero_iff {b : UInt8} {xs : List UInt8} :
    zone ++ b :: xs <+: List.replicate 0 newline ++ (zone ++ b :: rest) ↔ xs <+: rest := by
  rw [List.replicate_zero, List.nil_append, List.prefix_append_right_inj, List.cons_prefix_cons]
  exact and_iff_right rfl

/-- In front of a dot there is a label, which has to be copied as it is. -/
theorem inStep_dot (hzone : newline ∉ zone) (z : List UInt8) :
    InStep zones skipped zone (dot :: rest)
      ↔ skipped = 0 ∧ InStep (zones ++ [z]) 0 [] rest := by
  have hdot : dot ≠ newline := by decide
  rw [InStep, InStep, dropEmptyLines, if_neg hdot, lineStart_concat]
  constructor
  · intro h
    have hne : zone ++ [dot] ≠ [] := by simp
    obtain rfl := skipped_eq_zero hne (by simp [hzone, hdot.symm])
      (by rwa [List.append_assoc, List.singleton_append])
    exact ⟨rfl, inStep_zero_iff.mp h⟩
  · rintro ⟨rfl, h⟩
    exact inStep_zero_iff.mpr h

/-- So there is in front of a newline that closes a line. -/
theorem inStep_newline (hzone : newline ∉ zone) (hline : ¬(zones = [] ∧ zone = []))
    (hskipped : zones = [] ∨ skipped = 0) :
    InStep zones skipped zone (newline :: rest) ↔ skipped = 0 ∧ InStep [] 0 [] rest := by
  rw [InStep, InStep, lineStart_of_ne hline, dropEmptyLines, if_pos rfl,
    if_neg Bool.false_ne_true, lineStart_nil]
  constructor
  · intro h
    -- behind a dot nothing has been passed over, even if no byte of the label has come yet
    have hzero : skipped = 0 := by
      by_cases hne : zone = []
      · exact hskipped.resolve_left fun hzones => hline ⟨hzones, hne⟩
      · exact skipped_eq_zero hne hzone h
    subst hzero
    exact ⟨rfl, inStep_zero_iff.mp h⟩
  · rintro ⟨rfl, h⟩
    exact inStep_zero_iff.mpr h

/-- An empty line is one more newline passed over. -/
theorem inStep_empty :
    InStep [] skipped [] (newline :: rest) ↔ InStep [] (skipped + 1) [] rest := by
  rw [InStep, InStep, lineStart_nil, dropEmptyLines, if_pos rfl, if_pos rfl, List.replicate_succ',
    List.append_assoc, List.singleton_append]
  rfl

/-- Any other byte is one more of the label. -/
theorem inStep_byte {b : UInt8} (hnewline : b ≠ newline) :
    InStep zones skipped zone (b :: rest) ↔ InStep zones skipped (zone ++ [b]) rest := by
  rw [InStep, InStep, dropEmptyLines, if_neg hnewline, lineStart_byte, List.append_assoc,
    List.append_assoc, List.singleton_append, List.singleton_append]

/-- In step, the labels copied are the labels of the file without its empty lines. -/
theorem copiedLines_eq_splitAcc (hzone : newline ∉ zone) (hskipped : zones = [] ∨ skipped = 0)
    (h : InStep zones skipped zone rest) :
    copiedLines done zones skipped zone rest
      = splitAcc done zones zone (dropEmptyLines (lineStart zones zone) rest) := by
  -- one case for each branch of the loop; `InStep` says in each that nothing is passed over when a
  -- label is copied
  induction rest generalizing done zones skipped zone with
  | nil =>
    have hcopied : copiedLabel skipped zone = zone := by
      rcases (inStep_nil hzone).mp h with rfl | rfl
      · exact copiedLabel_nil skipped
      · exact copiedLabel_zero zone
    rw [copiedLines, dropEmptyLines, splitAcc, hcopied]
  | cons b rest ih =>
    rw [copiedLines]
    split
    · rename_i hdot
      subst hdot
      have hne : dot ≠ newline := by decide
      obtain ⟨rfl, hrest⟩ := (inStep_dot hzone zone).mp h
      rw [dropEmptyLines, if_neg hne, splitAcc, if_pos rfl, copiedLabel_zero,
        ih (by simp) (by simp) hrest, lineStart_concat]
    · rename_i hdot
      split
      · rename_i hnewline
        subst hnewline
        split
        · -- an empty line, which both leave out
          rename_i hline
          obtain ⟨rfl, rfl⟩ := hline
          rw [ih (by simp) (by simp) (inStep_empty.mp h), lineStart_nil, dropEmptyLines,
            if_pos rfl, if_pos rfl]
        · rename_i hline
          obtain ⟨rfl, hrest⟩ := (inStep_newline hzone hline hskipped).mp h
          rw [lineStart_of_ne hline, dropEmptyLines, if_pos rfl, if_neg Bool.false_ne_true,
            splitAcc, if_neg hdot, if_pos rfl, copiedLabel_zero, ih (by simp) (by simp) hrest,
            lineStart_nil]
      · rename_i hnewline
        rw [dropEmptyLines, if_neg hnewline, splitAcc, if_neg hdot, if_neg hnewline,
          ih (by simp [hzone, Ne.symm hnewline]) hskipped ((inStep_byte hnewline).mp h),
          lineStart_byte]

/-- In step from the start, what is copied is the plain reading of the file without its empty
lines. -/
theorem copiedNames_eq_allLabels {content : List UInt8}
    (h : withoutEmptyLines content <+: content) :
    copiedNames content = allLabels (withoutEmptyLines content) := by
  have hstep : InStep [] 0 [] content := h
  rw [copiedNames, copiedLines_eq_splitAcc (by simp) (Or.inl rfl) hstep, lineStart_nil,
    ← withoutEmptyLines, splitAcc_nil_nil_nil]

/-- A file without blank lines has no empty lines to drop. -/
theorem dropEmptyLines_eq_self (done : List (List (List UInt8))) (zones : List (List UInt8))
    (zone rest : List UInt8) (hblank : [[]] ∉ (splitAcc done zones zone rest).dropLast) :
    dropEmptyLines (lineStart zones zone) rest = rest := by
  induction rest generalizing done zones zone with
  | nil => rfl
  | cons b rest ih =>
    rw [splitAcc] at hblank
    split at hblank
    · rename_i hdot
      subst hdot
      have hne : dot ≠ newline := by decide
      have htail := ih _ _ _ hblank
      rw [lineStart_concat] at htail
      rw [dropEmptyLines, if_neg hne, htail]
    · split at hblank
      · rename_i hnewline
        subst hnewline
        have htail := ih _ _ _ hblank
        rw [lineStart_nil] at htail
        by_cases hline : zones = [] ∧ zone = []
        · -- a blank line would be one of the lines in front of the last
          obtain ⟨rfl, rfl⟩ := hline
          obtain ⟨z, zs, lines, hsplit⟩ := exists_splitAcc_eq (done ++ [[[]]]) [] [] rest
          rw [List.nil_append, hsplit, List.dropLast_append_of_ne_nil (by simp)] at hblank
          simp at hblank
        · rw [lineStart_of_ne hline, dropEmptyLines, if_pos rfl, if_neg Bool.false_ne_true, htail]
      · rename_i hnewline
        have htail := ih _ _ _ hblank
        rw [lineStart_byte] at htail
        rw [dropEmptyLines, if_neg hnewline, htail]

/-! ### Behind the loop

The pieces between the newlines are not yet the lines of the file: behind a final newline there is
an empty piece, for which `get_domains` stores nothing, as its `zone_count` and `length` are zero
there. -/

/-- The pieces between the newlines are the lines, with an empty piece at the end if a newline
closes the file. -/
theorem splitOn_eq_fileLines (content : List UInt8) :
    content.splitOn newline = fileLines content ∨
      content.splitOn newline = fileLines content ++ [[]] := by
  rw [fileLines]
  split
  · rename_i hlast
    exact Or.inr (List.dropLast_append_getLast? [] (Option.mem_def.mpr hlast)).symm
  · exact Or.inl rfl

theorem mem_fileLines_of_ne_nil {content line : List UInt8}
    (h : line ∈ content.splitOn newline) (hne : line ≠ []) : line ∈ fileLines content := by
  rcases splitOn_eq_fileLines content with hsplit | hsplit
  · exact hsplit ▸ h
  · rw [hsplit] at h
    rcases List.mem_append.mp h with h | h
    · exact h
    · exact absurd (List.mem_singleton.mp h) hne

/-- A file without blank lines has no blank piece in front of the last one. -/
theorem not_mem_dropLast_allLabels {content : List UInt8} (hblank : [] ∉ fileLines content) :
    [[]] ∉ (allLabels content).dropLast := by
  intro hmem
  rw [allLabels, ← List.map_dropLast] at hmem
  obtain ⟨line, hline, hnil⟩ := List.mem_map.mp hmem
  rw [labelsOf_eq_singleton_nil] at hnil
  subst hnil
  rcases splitOn_eq_fileLines content with hsplit | hsplit
  · exact hblank (hsplit ▸ List.dropLast_subset _ hline)
  · rw [hsplit, List.dropLast_concat] at hline
    exact hblank hline

theorem withoutEmptyLines_eq_self {content : List UInt8} (hblank : [] ∉ fileLines content) :
    withoutEmptyLines content = content := by
  refine dropEmptyLines_eq_self [] [] [] content ?_
  rw [splitAcc_nil_nil_nil]
  exact not_mem_dropLast_allLabels hblank

/-- A bad line is one of the lines of the file and not a domain name. -/
theorem BadLine.not_isDomainName {content : List UInt8} (h : BadLine (allLabels content)) :
    ¬∀ line ∈ fileLines content, IsDomainName line := by
  obtain ⟨labels, hmem, hne, hbad⟩ := h
  obtain ⟨line, hline, rfl⟩ := List.mem_map.mp hmem
  rw [ne_eq, labelsOf_eq_singleton_nil] at hne
  exact fun hall => hbad (hall line (mem_fileLines_of_ne_nil hline hne))

/-- A line of the file that is not a domain name is bad, unless it is blank. -/
theorem badLine_of_not_isDomainName {content line : List UInt8} (hblank : [] ∉ fileLines content)
    (hline : line ∈ fileLines content) (hbad : ¬IsDomainName line) :
    BadLine (allLabels content) := by
  have hsplit : line ∈ content.splitOn newline := by
    rcases splitOn_eq_fileLines content with heq | heq
    · exact heq ▸ hline
    · exact heq ▸ List.mem_append_left _ hline
  refine ⟨labelsOf line, List.mem_map_of_mem hsplit, fun hnil => ?_, hbad⟩
  exact hblank (labelsOf_eq_singleton_nil.mp hnil ▸ hline)

/-- The piece behind the last newline is empty. -/
theorem getLast?_allLabels_iff {content : List UInt8} :
    (allLabels content).getLast? = some [[]] ↔ (content.splitOn newline).getLast? = some [] := by
  rw [allLabels, List.getLast?_map, Option.map_eq_some_iff]
  constructor
  · rintro ⟨line, hline, hlabels⟩
    rwa [← labelsOf_eq_singleton_nil.mp hlabels]
  · intro hlast
    exact ⟨[], hlast, rfl⟩

theorem getLast?_splitOn_of_newline {content : List UInt8} (h : content.getLast? = some newline) :
    (content.splitOn newline).getLast? = some [] := by
  have hsplit := List.dropLast_append_getLast? newline (Option.mem_def.mpr h)
  rw [← hsplit, List.splitOn_append_cons_self, List.splitOn_nil, List.getLast?_concat]

/-- The names among the lines copied: all but an empty piece at the end. -/
def namesOf (lines : List (List (List UInt8))) : List (List (List UInt8)) :=
  if lines.getLast? = some [[]] then lines.dropLast else lines

theorem mem_of_mem_namesOf {lines : List (List (List UInt8))} {line : List (List UInt8)}
    (h : line ∈ namesOf lines) : line ∈ lines := by
  rw [namesOf] at h
  split at h
  · exact List.dropLast_subset _ h
  · exact h

/-- The labels of the lines. -/
theorem map_labelsOf_fileLines (content : List UInt8) :
    (fileLines content).map labelsOf = namesOf (allLabels content) := by
  rw [fileLines, namesOf]
  by_cases hlast : (content.splitOn newline).getLast? = some []
  · rw [if_pos hlast, if_pos (getLast?_allLabels_iff.mpr hlast), List.map_dropLast, ← allLabels]
  · rw [if_neg hlast, if_neg fun hsome => hlast (getLast?_allLabels_iff.mp hsome), ← allLabels]

/-- The names of a scan are those among the lines copied. -/
theorem namesOf_eq {lines names : List (List (List UInt8))}
    (hlines : lines = names ++ [[[]]] ∨ lines = names)
    (hnames : ∀ line ∈ names, line ≠ [] ∧ ∀ z ∈ line, IsLabel z) : namesOf lines = names := by
  rw [namesOf]
  rcases hlines with rfl | rfl
  · rw [List.getLast?_concat, if_pos rfl, List.dropLast_concat]
  · rw [if_neg]
    intro hlast
    exact not_isLabel_nil ((hnames [[]] (List.mem_of_getLast? hlast)).2 [] (by simp))

/-- How `get_domains` ends after its loop. -/
inductive FinishOutcome (start : Cursor) (content : List UInt8) : Option DomainsOutcome → Prop
  | loaded (dst : Cursor) (hemitted : Cursor.Emitted start (encodedNames content ++ [0]) dst)
      (hvalid : ∀ line ∈ fileLines content, IsDomainName line) :
      FinishOutcome start content (some (.loaded dst.block (fileLines content).length))
  | rejected (line : ℕ) (hbad : BadLine (allLabels content)) :
      FinishOutcome start content (some (.invalidName line))

theorem encodedNames_eq (content : List UInt8) :
    encodedNames content = ((fileLines content).map labelsOf).flatMap Dns.Name.encode := by
  rw [encodedNames, List.flatMap_map]

theorem isDomainName_of_map {content : List UInt8}
    (h : ∀ labels ∈ (fileLines content).map labelsOf, ∀ z ∈ labels, IsLabel z) :
    ∀ line ∈ fileLines content, IsDomainName line :=
  fun line hline => h (labelsOf line) (List.mem_map_of_mem hline)

theorem ScanOutcome.finish {start : Cursor} {content : List UInt8} {r : Option DomainsOutcome}
    (h : ScanOutcome start (allLabels content) r) : FinishOutcome start content r := by
  cases h with
  | loaded dst names hlines hemitted hnames =>
    -- the names stored are the lines of the file, so `count` counts these
    have hmap : (fileLines content).map labelsOf = names := by
      rw [map_labelsOf_fileLines, namesOf_eq hlines hnames]
    have hcount : names.length = (fileLines content).length := by
      rw [← hmap, List.length_map]
    rw [hcount]
    refine .loaded dst ?_ (isDomainName_of_map fun labels hlabels => ?_)
    · rwa [encodedNames_eq, hmap]
    · exact (hnames labels (hmap ▸ hlabels)).2
  | rejected line hbad => exact .rejected line hbad

/-! ### Walking over the names

`print_domains` reads the names back by their length bytes. A zero byte ends a name, and a zero byte
where a name would begin ends the buffer. Labels are not empty and have at most 255 bytes, so a
length byte is never zero and never too small, whatever the bytes of the labels are. The loops of
the model have fuel; the size of the buffer is always enough. -/

/-- The length byte of a label. -/
theorem IsLabel.toNat_length {z : List UInt8} (h : IsLabel z) :
    (UInt8.ofNat z.length).toNat = z.length := by
  have := h.2
  rw [UInt8.toNat_ofNat']
  omega

theorem IsLabel.length_ne_zero {z : List UInt8} (h : IsLabel z) : UInt8.ofNat z.length ≠ 0 := by
  intro hzero
  have htoNat := congrArg UInt8.toNat hzero
  rw [h.toNat_length, UInt8.toNat_zero] at htoNat
  exact h.1 (List.length_eq_zero_iff.mp htoNat)

/-- The inner loop of `print_domains` reads the labels of a name and stops at its zero byte. -/
theorem printZones_of_holds {domains : Block} {labels : List (List UInt8)}
    (hlabels : ∀ z ∈ labels, IsLabel z) :
    ∀ {fuel offset : ℕ}, labels.length < fuel → domains.Holds offset (Dns.Name.encode labels) →
      printZones domains fuel offset
        = some (labels, offset + (Dns.Name.encodeLabels labels).length) := by
  -- on the labels, which the loop takes off one by one; the offset goes along with them
  induction labels with
  | nil =>
    intro fuel offset hfuel h
    cases fuel with
    | zero => exact absurd hfuel (Nat.not_lt_zero _)
    | succ fuel =>
      have hzero : domains.bytes[offset]? = some 0 := Block.holds_singleton.mp h
      simp only [printZones, hzero, Option.bind_eq_bind, Option.bind_some, if_true]
      rfl
  | cons z labels ih =>
    intro fuel offset hfuel h
    cases fuel with
    | zero => exact absurd hfuel (Nat.not_lt_zero _)
    | succ fuel =>
      have hz := hlabels z (List.mem_cons_self ..)
      rw [Dns.Name.encode, Dns.Name.encodeLabels_cons, List.append_assoc,
        ← List.singleton_append, List.append_assoc, Block.holds_append, Block.holds_append,
        Block.holds_singleton, List.length_singleton] at h
      obtain ⟨hbyte, hzone, hrest⟩ := h
      have hnext := ih (fun z' hz' => hlabels z' (List.mem_cons_of_mem z hz'))
        (Nat.lt_of_succ_lt_succ hfuel) hrest
      simp only [printZones, hbyte, hz.length_ne_zero, hz.toNat_length, hzone.load, hnext,
        Option.bind_eq_bind, Option.bind_some, if_false, Dns.Name.encodeLabels_cons,
        List.length_append, List.length_cons]
      simp only [Option.pure_def, Option.some.injEq, Prod.mk.injEq, true_and]
      omega

/-- The outer loop reads the names and stops at the closing zero byte. -/
theorem printNames_of_holds {domains : Block} {names : List (List (List UInt8))}
    (hnames : ∀ labels ∈ names, labels ≠ [] ∧ ∀ z ∈ labels, IsLabel z) :
    ∀ {fuel offset : ℕ}, names.length < fuel →
      domains.Holds offset (names.flatMap Dns.Name.encode ++ [0]) →
      printNames domains fuel offset = some names := by
  induction names with
  | nil =>
    intro fuel offset hfuel h
    cases fuel with
    | zero => exact absurd hfuel (Nat.not_lt_zero _)
    | succ fuel =>
      have hzero : domains.bytes[offset]? = some 0 := Block.holds_singleton.mp h
      simp only [printNames, hzero, Option.bind_eq_bind, Option.bind_some, if_true]
      rfl
  | cons labels names ih =>
    intro fuel offset hfuel h
    cases fuel with
    | zero => exact absurd hfuel (Nat.not_lt_zero _)
    | succ fuel =>
      obtain ⟨hne, hlabels⟩ := hnames labels (List.mem_cons_self ..)
      rw [List.flatMap_cons, List.append_assoc, Block.holds_append] at h
      obtain ⟨hname, hrest⟩ := h
      -- a name begins with the length of its first label, so this is not the end
      have hbyte : ∃ c, domains.bytes[offset]? = some c ∧ c ≠ 0 := by
        obtain ⟨z, labels', rfl⟩ := List.exists_cons_of_ne_nil hne
        exact ⟨_, hname.getElem? (i := 0) (by simp [Dns.Name.encode]),
          (hlabels z (List.mem_cons_self ..)).length_ne_zero⟩
      obtain ⟨c, hc, hcne⟩ := hbyte
      -- the fuel of the inner loop is enough for the labels of a name that is in the buffer
      have hfits : labels.length < domains.size + 1 := by
        have hle := hname.le
        have := Dns.Name.length_le_encodeLabels labels
        rw [Dns.Name.encode, List.length_append] at hle
        omega
      have hzones := printZones_of_holds hlabels hfits hname
      rw [Dns.Name.encode, List.length_append, List.length_singleton, ← Nat.add_assoc] at hrest
      have hnext := ih (fun labels' hmem => hnames labels' (List.mem_cons_of_mem labels hmem))
        (Nat.lt_of_succ_lt_succ hfuel) hrest
      simp only [printNames, hc, hcne, if_false, hzones, hnext, Option.bind_eq_bind,
        Option.bind_some]
      rfl

/-- Every name takes a byte at least. -/
theorem length_le_flatMap_encode (names : List (List (List UInt8))) :
    names.length ≤ (names.flatMap Dns.Name.encode).length := by
  induction names with
  | nil => exact Nat.le_refl _
  | cons labels names ih =>
    simp only [List.flatMap_cons, List.length_append, List.length_cons, Dns.Name.encode,
      List.length_nil]
    omega

/-- **What is stored is read back.** -/
theorem printDomains_of_holds {domains : Block} {names : List (List (List UInt8))}
    (hnames : ∀ labels ∈ names, labels ≠ [] ∧ ∀ z ∈ labels, IsLabel z)
    (h : domains.Holds 0 (names.flatMap Dns.Name.encode ++ [0])) :
    printDomains domains = some names := by
  refine printNames_of_holds hnames ?_ h
  have hle := h.le
  have := length_le_flatMap_encode names
  rw [List.length_append] at hle
  omega

/-! ### The whole function -/

/-- How `get_domains` ends on a nonempty file without blank lines. -/
theorem getDomains_outcome {malloc : Malloc} {content : List UInt8} {buffer domains : Block}
    (hne : content ≠ []) (hlimit : content.length ≤ domainsFileLimit)
    (hbuffer : malloc.alloc content.length = some buffer)
    (hdomains : malloc.alloc (domainsSize content.length) = some domains)
    (hblank : [] ∉ fileLines content)
    (hroom : content.getLast? = some newline ∨ content.length ≠ 2 * (fileLines content).length ∨
      ∃ line ∈ fileLines content, ¬IsDomainName line) :
    FinishOutcome ⟨domains, 0⟩ content (getDomains malloc (.ofContents content)) := by
  -- nothing is left out of a file without blank lines, so what is copied is what stands in it
  have hself := withoutEmptyLines_eq_self hblank
  have hcopied : copiedNames content = allLabels content := by
    rw [copiedNames_eq_allLabels (hself.symm ▸ List.prefix_refl _), hself]
  rcases getDomains_scan hne hlimit hbuffer hdomains with hscan | ⟨⟨hlast, -, hfull⟩, -, hgood⟩
  · exact (hcopied ▸ hscan).finish
  · -- the buffer is left only by a file that `hroom` shuts out
    exfalso
    rw [hcopied] at hlast hfull hgood
    have hlast' := fun hsome => hlast (getLast?_allLabels_iff.mpr hsome)
    rcases hroom with hnewline | hodd | ⟨line, hline, hbad⟩
    · exact hlast' (getLast?_splitOn_of_newline hnewline)
    · rw [fileLines, if_neg hlast'] at hodd
      rw [allLabels, List.length_map] at hfull
      exact hodd hfull
    · exact hgood (badLine_of_not_isDomainName hblank hline hbad)

/-- **The parser accepts exactly the lists of domain names, and stores them.** The file is not
empty, within the limit and without blank lines; and it ends with a newline, or else its length is
not twice the number of its lines, or one of these is not a domain name. -/
theorem getDomains_correct {malloc : Malloc} {content : List UInt8} {buffer domains : Block}
    (hne : content ≠ []) (hlimit : content.length ≤ domainsFileLimit)
    (hbuffer : malloc.alloc content.length = some buffer)
    (hdomains : malloc.alloc (domainsSize content.length) = some domains)
    (hblank : [] ∉ fileLines content)
    (hroom : content.getLast? = some newline ∨ content.length ≠ 2 * (fileLines content).length ∨
      ∃ line ∈ fileLines content, ¬IsDomainName line) :
    ∃ outcome, getDomains malloc (.ofContents content) = some outcome ∧
      ((∃ names count, outcome = .loaded names count) ↔
        ∀ line ∈ fileLines content, IsDomainName line) ∧
      ∀ names count, outcome = .loaded names count →
        printDomains names = some ((fileLines content).map labelsOf) ∧
          count = (fileLines content).length := by
  have houtcome := getDomains_outcome hne hlimit hbuffer hdomains hblank hroom
  revert houtcome
  generalize getDomains malloc (.ofContents content) = r
  intro houtcome
  cases houtcome with
  | loaded dst hemitted hvalid =>
    -- accepted: each line is a name, and the names stored can be walked over
    refine ⟨_, rfl, ⟨fun _ => hvalid, fun _ => ⟨_, _, rfl⟩⟩, fun names count heq => ?_⟩
    obtain ⟨rfl, rfl⟩ := DomainsOutcome.loaded.inj heq
    refine ⟨printDomains_of_holds ?_ ?_, rfl⟩
    · intro labels hlabels
      obtain ⟨line, hline, rfl⟩ := List.mem_map.mp hlabels
      exact ⟨labelsOf_ne_nil line, hvalid line hline⟩
    · rw [← encodedNames_eq]
      exact hemitted.holds
  | rejected line hbad =>
    -- turned away: some line is not a name
    refine ⟨_, rfl, ⟨fun h => ?_, fun h => absurd h hbad.not_isDomainName⟩, fun _ _ h => ?_⟩
    · obtain ⟨_, _, h⟩ := h
      exact DomainsOutcome.noConfusion h
    · exact DomainsOutcome.noConfusion h

/-- Two names, of two labels and of one. -/
theorem getDomains_correct_two :
    ∃ outcome, getDomains .zeroed (.ofContents [0x61, dot, 0x62, newline, 0x63, newline])
        = some outcome ∧
      ((∃ names count, outcome = .loaded names count) ↔
        ∀ line ∈ fileLines [0x61, dot, 0x62, newline, 0x63, newline], IsDomainName line) ∧
      ∀ names count, outcome = .loaded names count →
        printDomains names
            = some ((fileLines [0x61, dot, 0x62, newline, 0x63, newline]).map labelsOf) ∧
          count = (fileLines [0x61, dot, 0x62, newline, 0x63, newline]).length :=
  getDomains_correct (by decide) (by decide) rfl rfl (by decide) (Or.inl rfl)

/-! ### The files it turns away unread -/

/-- The file of `n` lines that all read `a`. -/
def repeatedLine (n : ℕ) : List UInt8 := (List.replicate n [0x61, newline]).flatten

theorem fileLines_repeatedLine (n : ℕ) : fileLines (repeatedLine n) = List.replicate n [0x61] := by
  have hsplit : (repeatedLine n).splitOn newline = List.replicate n [0x61] ++ [[]] := by
    induction n with
    | zero => rfl
    | succ n ih =>
      have hcons : repeatedLine (n + 1) = [0x61] ++ newline :: repeatedLine n := rfl
      rw [hcons, List.splitOn_append_cons_self, ih, List.replicate_succ]
      rfl
  rw [fileLines, hsplit, List.getLast?_concat, if_pos rfl, List.dropLast_concat]

theorem length_repeatedLine (n : ℕ) : (repeatedLine n).length = 2 * n := by
  simp [repeatedLine, Nat.mul_comm]

theorem isDomainName_repeatedLine (n : ℕ) :
    ∀ line ∈ fileLines (repeatedLine n), IsDomainName line := by
  intro line hline label hlabel
  rw [fileLines_repeatedLine, List.mem_replicate] at hline
  have hlabels : labelsOf [0x61] = [[0x61]] := rfl
  rw [hline.2, hlabels, List.mem_singleton] at hlabel
  simp [hlabel, IsLabel]

theorem not_mem_fileLines_repeatedLine (n : ℕ) : [] ∉ fileLines (repeatedLine n) := by
  rw [fileLines_repeatedLine, List.mem_replicate]
  exact fun h => absurd h.2 (by decide)

/-- A file over the limit is not even read. -/
theorem getDomains_of_limit_lt {malloc : Malloc} {content : List UInt8}
    (h : domainsFileLimit < content.length) :
    getDomains malloc (.ofContents content) = some .untouched := by
  simp [getDomains, DomainFile.ofContents, h]

/-- Every line is a domain name, and still nothing is loaded: from the file without lines, and
from a file of more than 50 MiB. -/
theorem getDomains_untouched :
    ([] ∉ fileLines [] ∧ (∀ line ∈ fileLines [], IsDomainName line) ∧
      getDomains .zeroed (.ofContents []) = some .untouched) ∧
    ([] ∉ fileLines (repeatedLine 26214401) ∧
      (∀ line ∈ fileLines (repeatedLine 26214401), IsDomainName line) ∧
      getDomains .zeroed (.ofContents (repeatedLine 26214401)) = some .untouched) := by
  refine ⟨⟨by decide, fun line hline => absurd hline (List.not_mem_nil), rfl⟩,
    not_mem_fileLines_repeatedLine _, isDomainName_repeatedLine _, getDomains_of_limit_lt ?_⟩
  rw [length_repeatedLine]
  decide

end DnsTools
