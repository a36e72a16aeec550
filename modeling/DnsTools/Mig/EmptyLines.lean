import DnsTools.Mig.DomainsCorrect

/-!
# Empty lines in the domain file

A file against the same file without its empty lines. `get_domains` means to ignore empty lines, and
whether a line is a domain name it decides in both files alike. But at an empty line it leaves
`src_offset` where it is, so a label behind one is copied from the wrong place; and the size of the
file, with its empty lines, decides whether the file is read at all.

## Which files are compared

`withoutEmptyLines` works on the bytes, as an editor would: it removes every newline that stands at
the start of a line. It says nothing of the last line, which may be closed or not, and so the two
files differ in their empty lines and in nothing else (`fileLines_withoutEmptyLines`). What a caller
of `get_domains` learns of a file are the names and their number, or that it failed; the text of the
message, with the number of the bad line, does depend on empty lines and is left out.

## The same decision

A line is bad by the lengths of its labels alone. They are counted as the bytes go by, whatever is
copied, and an empty line leaves the count alone. So both files have a bad line or neither has.

## Out of step

As long as what is left of the file without its empty lines lies behind `src_offset`, the labels are
those of the file; `InStep` of `DomainsCorrect` says so. At the first label behind an empty line a
newline is copied, and as no label of the plain reading has a newline in it, the names of the two
files differ from there on, whatever follows. That is why the condition is exact: being in step to
the end is having all empty lines at the end.

## The other ways to differ

With a bad line both files fail. A file above the limit fails unread, and the file without its empty
lines may be below it. A file of nothing but empty lines is accepted, with no name, and what is left
of it is the empty file, which is not accepted.

## Main results

* `fileLines_withoutEmptyLines` — the lines without the empty ones
* `badLine_copiedNames_iff` — both files have a bad line or neither has
* `hasNewline_of_not_inStep` — a file that is not copied in step has a newline copied into a label
* `ignoresEmptyLines_iff` — exactly when the two files are read alike
-/

namespace DnsTools

open Memory

/-! ### The lines that are left -/

/-- The pieces between newlines without the empty ones, apart from the last piece. -/
def keepPieces : List (List UInt8) → List (List UInt8)
  | [] => []
  | [piece] => [piece]
  | piece :: piece' :: pieces =>
    if piece = [] then keepPieces (piece' :: pieces) else piece :: keepPieces (piece' :: pieces)

theorem keepPieces_concat (pieces : List (List UInt8)) (piece : List UInt8) :
    keepPieces (pieces ++ [piece]) = pieces.filter (· ≠ []) ++ [piece] := by
  induction pieces with
  | nil => rfl
  | cons p pieces ih =>
    obtain ⟨q, qs, hq⟩ : ∃ q qs, pieces ++ [piece] = q :: qs :=
      List.exists_cons_of_ne_nil (by simp)
    rw [List.cons_append, hq, keepPieces, ← hq, ih, List.filter_cons]
    by_cases hp : p = [] <;> simp [hp]

/-- Dropping the empty lines from a file keeps the other pieces; the piece that has been begun is
kept in any case. -/
theorem splitOn_dropEmptyLines (rest : List UInt8) :
    (dropEmptyLines true rest).splitOn newline = keepPieces (rest.splitOn newline) ∧
      ∀ piece pieces, rest.splitOn newline = piece :: pieces →
        (dropEmptyLines false rest).splitOn newline = piece :: keepPieces pieces := by
  induction rest with
  | nil =>
    refine ⟨rfl, ?_⟩
    rintro piece pieces hsplit
    obtain ⟨rfl, rfl⟩ := List.cons.inj hsplit
    rfl
  | cons b rest ih =>
    obtain ⟨ihtrue, ihfalse⟩ := ih
    obtain ⟨p, ps, hp⟩ := List.exists_cons_of_ne_nil (List.splitOn_ne_nil newline rest)
    have hfalse := ihfalse p ps hp
    by_cases hb : b = newline
    · subst hb
      rw [splitOn_newline_cons]
      constructor
      · rw [dropEmptyLines, if_pos rfl, if_pos rfl, ihtrue, hp, keepPieces, if_pos rfl]
      · rintro piece pieces hpieces
        obtain ⟨rfl, rfl⟩ := List.cons.inj hpieces
        rw [dropEmptyLines, if_pos rfl, if_neg Bool.false_ne_true, splitOn_newline_cons, ihtrue]
    · rw [splitOn_cons_of_ne hb, hp]
      simp only [dropEmptyLines, hb, if_false, splitOn_cons_of_ne hb, hfalse,
        List.modifyHead_cons]
      constructor
      · cases ps with
        | nil => rfl
        | cons q qs => rw [keepPieces, if_neg (List.cons_ne_nil b p)]
      · rintro piece pieces hpieces
        obtain ⟨rfl, rfl⟩ := List.cons.inj hpieces
        rfl

/-- **The lines of a file without its empty lines are its lines without the empty ones.** -/
theorem fileLines_withoutEmptyLines (content : List UInt8) :
    fileLines (withoutEmptyLines content) = (fileLines content).filter (· ≠ []) := by
  have hsplit := (splitOn_dropEmptyLines content).1
  obtain ⟨pieces, piece, hpieces⟩ : ∃ pieces piece, content.splitOn newline = pieces ++ [piece] :=
    ⟨_, _, (List.dropLast_append_getLast (List.splitOn_ne_nil newline content)).symm⟩
  rw [hpieces, keepPieces_concat] at hsplit
  rw [fileLines, fileLines, withoutEmptyLines, hsplit, hpieces, List.getLast?_concat,
    List.getLast?_concat]
  by_cases hpiece : piece = []
  · simp [hpiece]
  · simp [hpiece]

theorem nil_notMem_fileLines (content : List UInt8) :
    [] ∉ fileLines (withoutEmptyLines content) := by
  rw [fileLines_withoutEmptyLines]
  simp

/-- Dropping the empty lines a second time changes nothing. -/
theorem withoutEmptyLines_withoutEmptyLines (content : List UInt8) :
    withoutEmptyLines (withoutEmptyLines content) = withoutEmptyLines content :=
  withoutEmptyLines_eq_self (nil_notMem_fileLines content)

theorem copiedNames_withoutEmptyLines (content : List UInt8) :
    copiedNames (withoutEmptyLines content) = allLabels (withoutEmptyLines content) := by
  have hself := withoutEmptyLines_withoutEmptyLines content
  rw [copiedNames_eq_allLabels (hself.symm ▸ List.prefix_refl _), hself]

theorem dropEmptyLines_sublist (start : Bool) (rest : List UInt8) :
    (dropEmptyLines start rest).Sublist rest := by
  induction rest generalizing start with
  | nil => exact List.Sublist.refl []
  | cons b rest ih =>
    rw [dropEmptyLines]
    split
    · split
      · exact (ih true).cons b
      · exact (ih true).cons_cons b
    · exact (ih false).cons_cons b

/-- A file loses bytes with its empty lines, if it has any. -/
theorem length_withoutEmptyLines_lt {content : List UInt8}
    (h : withoutEmptyLines content ≠ content) :
    (withoutEmptyLines content).length < content.length := by
  have hsub := dropEmptyLines_sublist true content
  exact Nat.lt_of_le_of_ne hsub.length_le fun hlen => h (hsub.eq_of_length hlen)

/-! ### Both files have a bad line or neither has -/

/-- The lengths of the labels. -/
def labelLengths (lines : List (List (List UInt8))) : List (List ℕ) :=
  lines.map fun line => line.map List.length

theorem map_length_concat {zones zones' : List (List UInt8)}
    (h : zones.map List.length = zones'.map List.length) (skipped : ℕ) (zone : List UInt8) :
    (zones ++ [copiedLabel skipped zone]).map List.length
      = (zones' ++ [zone]).map List.length := by
  rw [List.map_append, List.map_append, h, List.map_singleton, List.map_singleton,
    length_copiedLabel]

theorem labelLengths_concat {done done' : List (List (List UInt8))} {line line' : List (List UInt8)}
    (hdone : labelLengths done = labelLengths done')
    (hline : line.map List.length = line'.map List.length) :
    labelLengths (done ++ [line]) = labelLengths (done' ++ [line']) := by
  rw [labelLengths, labelLengths, List.map_append, List.map_append, List.map_singleton,
    List.map_singleton, hline]
  exact congrArg (· ++ _) hdone

/-- What is copied has the lengths of the labels of the file without its empty lines. -/
theorem labelLengths_copiedLines (done done' : List (List (List UInt8)))
    (zones zones' : List (List UInt8)) (skipped : ℕ) (zone rest : List UInt8)
    (hdone : labelLengths done = labelLengths done')
    (hzones : zones.map List.length = zones'.map List.length) :
    labelLengths (copiedLines done zones skipped zone rest)
      = labelLengths (splitAcc done' zones' zone (dropEmptyLines (lineStart zones zone) rest)) := by
  induction rest generalizing done done' zones zones' skipped zone with
  | nil => exact labelLengths_concat hdone (map_length_concat hzones skipped zone)
  | cons b rest ih =>
    have hclose := map_length_concat hzones skipped zone
    rw [copiedLines]
    split
    · rename_i hdot
      subst hdot
      have hne : dot ≠ newline := by decide
      rw [dropEmptyLines, if_neg hne, splitAcc, if_pos rfl, ih done done' _ _ 0 [] hdone hclose,
        lineStart_concat]
    · rename_i hdot
      split
      · rename_i hnewline
        subst hnewline
        split
        · rename_i hstart
          obtain ⟨rfl, rfl⟩ := hstart
          rw [ih done done' [] zones' (skipped + 1) [] hdone hzones, lineStart_nil, dropEmptyLines,
            if_pos rfl, if_pos rfl]
        · rename_i hstart
          rw [ih _ _ [] [] 0 [] (labelLengths_concat hdone hclose) rfl, lineStart_of_ne hstart,
            lineStart_nil, dropEmptyLines, if_pos rfl, if_neg Bool.false_ne_true, splitAcc,
            if_neg hdot, if_pos rfl]
      · rename_i hnewline
        rw [ih done done' zones zones' skipped (zone ++ [b]) hdone hzones, lineStart_byte,
          dropEmptyLines, if_neg hnewline, splitAcc, if_neg hdot, if_neg hnewline]

/-- A bad line shows in the lengths of the labels. -/
theorem badLine_iff_labelLengths (lines : List (List (List UInt8))) :
    BadLine lines
      ↔ ∃ lengths ∈ labelLengths lines, lengths ≠ [0] ∧ ¬∀ n ∈ lengths, n ≠ 0 ∧ n ≤ 255 := by
  have hlabel : ∀ z : List UInt8, IsLabel z ↔ z.length ≠ 0 ∧ z.length ≤ 255 := by
    intro z
    rw [IsLabel, ne_eq, ne_eq, List.length_eq_zero_iff]
  have hblank : ∀ line : List (List UInt8), line = [[]] ↔ line.map List.length = [0] := by
    intro line
    constructor
    · rintro rfl
      rfl
    · intro h
      obtain ⟨z, rfl, hz⟩ := List.map_eq_singleton_iff.mp h
      rw [List.length_eq_zero_iff.mp hz]
  simp only [BadLine, labelLengths, List.mem_map, exists_exists_and_eq_and, ne_eq, hblank, hlabel,
    forall_exists_index, and_imp, forall_apply_eq_imp_iff₂]

/-- **The same decision.** Whether some line is no domain name does not depend on empty lines. -/
theorem badLine_copiedNames_iff (content : List UInt8) :
    BadLine (copiedNames content) ↔ BadLine (allLabels (withoutEmptyLines content)) := by
  rw [badLine_iff_labelLengths, badLine_iff_labelLengths, copiedNames,
    labelLengths_copiedLines [] [] [] [] 0 [] content rfl rfl, lineStart_nil,
    splitAcc_nil_nil_nil, withoutEmptyLines]

/-- The bad lines of a file, in its own terms. -/
theorem badLine_allLabels_iff (content : List UInt8) :
    BadLine (allLabels (withoutEmptyLines content))
      ↔ ∃ line ∈ fileLines content, line ≠ [] ∧ ¬IsDomainName line := by
  have hlines : ∀ line, line ∈ fileLines content ∧ line ≠ []
      ↔ line ∈ (withoutEmptyLines content).splitOn newline ∧ line ≠ [] := by
    intro line
    have hfilter : line ∈ fileLines (withoutEmptyLines content)
        ↔ line ∈ fileLines content ∧ line ≠ [] := by
      rw [fileLines_withoutEmptyLines, List.mem_filter, decide_eq_true_iff]
    rw [← hfilter]
    constructor
    · intro h
      refine ⟨?_, (hfilter.mp h).2⟩
      rcases splitOn_eq_fileLines (withoutEmptyLines content) with hsplit | hsplit
      · exact hsplit ▸ h
      · exact hsplit ▸ List.mem_append_left _ h
    · rintro ⟨h, hne⟩
      exact mem_fileLines_of_ne_nil h hne
  rw [BadLine, allLabels]
  constructor
  · rintro ⟨labels, hmem, hne, hbad⟩
    obtain ⟨line, hline, rfl⟩ := List.mem_map.mp hmem
    rw [ne_eq, labelsOf_eq_singleton_nil] at hne
    obtain ⟨hline, -⟩ := (hlines line).mpr ⟨hline, hne⟩
    exact ⟨line, hline, hne, hbad⟩
  · rintro ⟨line, hline, hne, hbad⟩
    refine ⟨labelsOf line, List.mem_map_of_mem ((hlines line).mp ⟨hline, hne⟩).1, ?_, hbad⟩
    rwa [ne_eq, labelsOf_eq_singleton_nil]

/-! ### A newline copied into a label -/

/-- No label of the plain reading has a newline in it. -/
theorem newline_notMem_splitAcc {done : List (List (List UInt8))} {zones : List (List UInt8)}
    {zone : List UInt8} (rest : List UInt8) (hdone : ∀ line ∈ done, ∀ z ∈ line, newline ∉ z)
    (hzones : ∀ z ∈ zones, newline ∉ z) (hzone : newline ∉ zone) :
    ∀ line ∈ splitAcc done zones zone rest, ∀ z ∈ line, newline ∉ z := by
  induction rest generalizing done zones zone with
  | nil =>
    exact List.forall_mem_append.mpr
      ⟨hdone, by simpa [or_imp, forall_and] using ⟨hzones, hzone⟩⟩
  | cons b rest ih =>
    rw [splitAcc]
    split
    · exact ih hdone (by simpa [or_imp, forall_and] using ⟨hzones, hzone⟩) (by simp)
    · split
      · refine ih (List.forall_mem_append.mpr
          ⟨hdone, by simpa [or_imp, forall_and] using ⟨hzones, hzone⟩⟩) (by simp) (by simp)
      · rename_i hnewline
        exact ih hdone hzones (by simp [hzone, Ne.symm hnewline])

theorem newline_notMem_allLabels (content : List UInt8) :
    ∀ line ∈ allLabels content, ∀ z ∈ line, newline ∉ z := by
  rw [← splitAcc_nil_nil_nil]
  exact newline_notMem_splitAcc content (by simp) (by simp) (by simp)

/-- The newlines passed over come first in what is copied. -/
theorem newline_mem_copiedLabel {skipped : ℕ} {zone : List UInt8} (hskipped : skipped ≠ 0)
    (hzone : zone ≠ []) : newline ∈ copiedLabel skipped zone := by
  obtain ⟨n, rfl⟩ := Nat.exists_eq_succ_of_ne_zero hskipped
  obtain ⟨b, zone, rfl⟩ := List.exists_cons_of_ne_nil hzone
  simp [copiedLabel, List.replicate_succ]

/-- Some label has a newline in it. -/
def HasNewline (lines : List (List (List UInt8))) : Prop :=
  ∃ line ∈ lines, ∃ z ∈ line, newline ∈ z

/-- Such a label is one of a name. -/
theorem HasNewline.namesOf {lines : List (List (List UInt8))} (h : HasNewline lines) :
    HasNewline (DnsTools.namesOf lines) := by
  obtain ⟨line, hline, z, hz, hmem⟩ := h
  refine ⟨line, ?_, z, hz, hmem⟩
  rw [DnsTools.namesOf]
  split
  · rename_i hlast
    have hsplit := List.dropLast_append_getLast? _ (Option.mem_def.mpr hlast)
    rw [← hsplit] at hline
    refine (List.mem_append.mp hline).resolve_right fun hblank => ?_
    rw [List.mem_singleton.mp hblank, List.mem_singleton] at hz
    exact List.not_mem_nil (hz ▸ hmem)
  · exact hline

/-- A label that is begun late has a newline in it. -/
theorem hasNewline_label {done : List (List (List UInt8))} {zones : List (List UInt8)}
    {skipped : ℕ} {zone : List UInt8} (hskipped : skipped ≠ 0) (hzone : zone ≠ []) :
    HasNewline (done ++ [zones ++ [copiedLabel skipped zone]]) :=
  ⟨_, List.mem_append_right _ (List.mem_singleton_self _), _,
    List.mem_append_right _ (List.mem_singleton_self _), newline_mem_copiedLabel hskipped hzone⟩

/-- What was copied stays copied. -/
theorem hasNewline_copiedLines {done : List (List (List UInt8))} {zones : List (List UInt8)}
    {skipped : ℕ} {zone : List UInt8} (rest : List UInt8)
    (h : HasNewline (done ++ [zones])) : HasNewline (copiedLines done zones skipped zone rest) := by
  obtain ⟨line, hline, z, hz, hnewline⟩ := h
  rcases List.mem_append.mp hline with hline | hline
  · rw [copiedLines_eq_append]
    exact ⟨line, List.mem_append_left _ hline, z, hz, hnewline⟩
  · rw [List.mem_singleton.mp hline] at hz
    obtain ⟨z', zs, lines, -, heq⟩ := exists_copiedLines_eq done zones skipped zone rest
      fun hnil => List.not_mem_nil (hnil.1 ▸ hz)
    exact ⟨zones ++ z' :: zs, heq ▸ by simp, z, List.mem_append_left _ hz, hnewline⟩

/-- **Out of step.** When every line is a domain name and the file is not copied in step, a newline
is copied into a label. -/
theorem hasNewline_of_not_inStep {done : List (List (List UInt8))} {zones : List (List UInt8)}
    {skipped : ℕ} {zone : List UInt8} (rest : List UInt8) (hzone : newline ∉ zone)
    (hskipped : zones = [] ∨ skipped = 0) (h : ¬InStep zones skipped zone rest)
    (hgood : ¬BadLine (copiedLines done zones skipped zone rest)) :
    HasNewline (copiedLines done zones skipped zone rest) := by
  induction rest generalizing done zones skipped zone with
  | nil =>
    rw [inStep_nil hzone, not_or] at h
    exact hasNewline_label h.2 h.1
  | cons b rest ih =>
    rw [copiedLines] at hgood ⊢
    split at hgood
    · rename_i hdot
      subst hdot
      rw [inStep_dot hzone (copiedLabel skipped zone), not_and] at h
      rw [if_pos rfl]
      by_cases hzero : skipped = 0
      · exact ih (by simp) (by simp) (h hzero) hgood
      · refine hasNewline_copiedLines rest (hasNewline_label hzero ?_)
        rintro rfl
        exact hgood (badLine_of_dot done zones rest)
    · rename_i hdot
      rw [if_neg hdot]
      split at hgood
      · rename_i hnewline
        subst hnewline
        rw [if_pos rfl]
        split at hgood
        · rename_i hstart
          obtain ⟨rfl, rfl⟩ := hstart
          rw [if_pos ⟨rfl, rfl⟩]
          rw [inStep_empty] at h
          exact ih (by simp) (by simp) h hgood
        · rename_i hstart
          rw [inStep_newline hzone hstart hskipped, not_and] at h
          rw [if_neg hstart]
          by_cases hzero : skipped = 0
          · exact ih (by simp) (by simp) (h hzero) hgood
          · have hne : zone ≠ [] := fun hnil =>
              hstart ⟨hskipped.resolve_right hzero, hnil⟩
            refine hasNewline_copiedLines rest ?_
            obtain ⟨line, hline, hlabel⟩ := hasNewline_label hzero hne
            exact ⟨line, List.mem_append_left _ hline, hlabel⟩
      · rename_i hnewline
        rw [inStep_byte hnewline] at h
        rw [if_neg hnewline]
        exact ih (by simp [hzone, Ne.symm hnewline]) hskipped h hgood

/-! ### The two files compared -/

/-- What a caller of `get_domains` learns: nothing if it fails, and else the number of names and
the names themselves. -/
def DomainsOutcome.names : DomainsOutcome → Option (ℕ × Option (List (List (List UInt8))))
  | .loaded domains count => some (count, printDomains domains)
  | _ => none

/-- The file and the file without its empty lines give the same success or failure, the same count
and the same names. -/
def IgnoresEmptyLines (malloc : Malloc) (content : List UInt8) : Prop :=
  (getDomains malloc (.ofContents content)).map DomainsOutcome.names
    = (getDomains malloc (.ofContents (withoutEmptyLines content))).map DomainsOutcome.names

/-- What was scanned without a bad line is loaded. -/
theorem ScanOutcome.names {start : Cursor} {lines : List (List (List UInt8))}
    {r : Option DomainsOutcome} (h : ScanOutcome start lines r) (hstart : start.off = 0)
    (hgood : ¬BadLine lines) :
    r.map DomainsOutcome.names = some (some ((namesOf lines).length, some (namesOf lines))) := by
  cases h with
  | loaded dst names hlines hemitted hnames =>
    have hholds := hemitted.holds
    rw [hstart] at hholds
    rw [namesOf_eq hlines hnames, Option.map_some, DomainsOutcome.names,
      printDomains_of_holds hnames hholds]
  | rejected line hbad => exact absurd hbad hgood

variable {malloc : Malloc} (hmalloc : ∀ n, ∃ block, malloc.alloc n = some block)
  {content : List UInt8}

theorem names_of_limit_lt (h : domainsFileLimit < content.length) :
    (getDomains malloc (.ofContents content)).map DomainsOutcome.names = some none := by
  rw [getDomains_of_limit_lt h]
  rfl

include hmalloc

theorem names_of_nil :
    (getDomains malloc (.ofContents [])).map DomainsOutcome.names = some none := by
  obtain ⟨buffer, hbuffer⟩ := hmalloc 0
  obtain ⟨buffer', hstore⟩ := Block.store_of_le buffer 0 [] (Nat.zero_le _)
  simp [getDomains, DomainFile.ofContents, hbuffer, hstore, DomainsOutcome.names]

/-- A bad line makes `get_domains` fail, however large the file is. -/
theorem names_of_badLine (hbad : BadLine (copiedNames content)) :
    (getDomains malloc (.ofContents content)).map DomainsOutcome.names = some none := by
  by_cases hlimit : domainsFileLimit < content.length
  · exact names_of_limit_lt hlimit
  · have hne : content ≠ [] := by
      rintro rfl
      obtain ⟨line, hline, hblank, -⟩ := hbad
      exact hblank (List.mem_singleton.mp hline)
    obtain ⟨buffer, hbuffer⟩ := hmalloc content.length
    obtain ⟨domains, hdomains⟩ := hmalloc (domainsSize content.length)
    rcases getDomains_scan hne (Nat.not_lt.mp hlimit) hbuffer hdomains with
      hscan | ⟨-, -, hgood⟩
    · revert hscan
      generalize getDomains malloc (.ofContents content) = r
      intro hscan
      cases hscan with
      | loaded dst names hlines hemitted hnames =>
        exact absurd hbad (not_badLine_of_names hlines hnames)
      | rejected line _ => rfl
    · exact absurd hbad hgood

/-- A file within the limit whose lines are domain names is loaded, or overflows. -/
theorem names_of_good (hne : content ≠ []) (hlimit : content.length ≤ domainsFileLimit)
    (hgood : ¬BadLine (copiedNames content)) :
    (getDomains malloc (.ofContents content)).map DomainsOutcome.names
        = some (some ((namesOf (copiedNames content)).length,
            some (namesOf (copiedNames content)))) ∨
      Overflows content ∧ getDomains malloc (.ofContents content) = none := by
  obtain ⟨buffer, hbuffer⟩ := hmalloc content.length
  obtain ⟨domains, hdomains⟩ := hmalloc (domainsSize content.length)
  rcases getDomains_scan hne hlimit hbuffer hdomains with hscan | ⟨hover, hnone, -⟩
  · exact Or.inl (hscan.names rfl hgood)
  · exact Or.inr ⟨hover, hnone⟩

omit hmalloc

/-- After some bytes of a file a line starts at its beginning or behind a newline only. -/
theorem exists_dropEmptyLines_append (start : Bool) (xs : List UInt8) :
    ∃ start', (start' = true → xs = [] ∧ start = true ∨ xs.getLast? = some newline) ∧
      ∀ ys, dropEmptyLines start (xs ++ ys)
        = dropEmptyLines start xs ++ dropEmptyLines start' ys := by
  induction xs generalizing start with
  | nil => exact ⟨start, fun hstart => Or.inl ⟨rfl, hstart⟩, fun ys => rfl⟩
  | cons b xs ih =>
    obtain ⟨start', hstart', happend⟩ := ih (b == newline)
    refine ⟨start', fun htrue => Or.inr ?_, fun ys => ?_⟩
    · rcases hstart' htrue with ⟨rfl, hb⟩ | hlast
      · rw [List.getLast?_singleton, beq_iff_eq.mp hb]
      · rw [List.getLast?_cons, hlast]
        rfl
    · by_cases hb : b = newline
      · subst hb
        rw [beq_self_eq_true] at happend
        cases start <;> simp [dropEmptyLines, happend]
      · rw [beq_false_of_ne hb] at happend
        simp [dropEmptyLines, hb, happend]

/-- Empty lines at the end of a file stand behind a newline. -/
theorem getLast?_withoutEmptyLines (hne : withoutEmptyLines content ≠ [])
    (hlt : withoutEmptyLines content ≠ content) (h : withoutEmptyLines content <+: content) :
    (withoutEmptyLines content).getLast? = some newline := by
  obtain ⟨ys, hys⟩ := h
  obtain ⟨start, hstart, happend⟩ := exists_dropEmptyLines_append true (withoutEmptyLines content)
  have hnil : dropEmptyLines start ys = [] := by
    have hself := withoutEmptyLines_withoutEmptyLines content
    have hwhole := happend ys
    rw [hys, ← withoutEmptyLines, ← withoutEmptyLines, hself] at hwhole
    exact List.self_eq_append_right.mp hwhole
  cases start with
  | true => exact (hstart rfl).resolve_left fun hboth => hne hboth.1
  | false =>
    cases ys with
    | nil => exact absurd (by simpa using hys) hlt
    | cons b ys =>
      rw [dropEmptyLines] at hnil
      split at hnil <;> simp at hnil

/-! ### When the two files are read alike -/

include hmalloc

/-- A file that has an empty line, but no bad one, and is not too big is loaded. -/
theorem names_of_emptyLine (hlimit : content.length ≤ domainsFileLimit)
    (hgood : ¬BadLine (copiedNames content)) (hlt : withoutEmptyLines content ≠ content) :
    (getDomains malloc (.ofContents content)).map DomainsOutcome.names
      = some (some ((namesOf (copiedNames content)).length,
          some (namesOf (copiedNames content)))) := by
  have hne : content ≠ [] := by
    rintro rfl
    exact hlt rfl
  have hlen := length_withoutEmptyLines_lt hlt
  rcases names_of_good hmalloc hne hlimit hgood with hnames | ⟨⟨-, hsame, -⟩, -⟩
  · exact hnames
  · omega

/-- What is left of a file without its empty lines is loaded, or overflows. -/
theorem names_of_withoutEmptyLines (hne : withoutEmptyLines content ≠ [])
    (hlimit : (withoutEmptyLines content).length ≤ domainsFileLimit)
    (hgood : ¬BadLine (copiedNames content)) :
    (getDomains malloc (.ofContents (withoutEmptyLines content))).map DomainsOutcome.names
      = some (some ((namesOf (allLabels (withoutEmptyLines content))).length,
          some (namesOf (allLabels (withoutEmptyLines content))))) ∨
      Overflows (withoutEmptyLines content) ∧
        getDomains malloc (.ofContents (withoutEmptyLines content)) = none := by
  rw [badLine_copiedNames_iff, ← copiedNames_withoutEmptyLines] at hgood
  rw [← copiedNames_withoutEmptyLines]
  exact names_of_good hmalloc hne hlimit hgood

theorem ignoresEmptyLines_of_badLine (hbad : BadLine (copiedNames content)) :
    IgnoresEmptyLines malloc content := by
  have hbad' : BadLine (copiedNames (withoutEmptyLines content)) := by
    rwa [copiedNames_withoutEmptyLines, ← badLine_copiedNames_iff]
  rw [IgnoresEmptyLines, names_of_badLine hmalloc hbad, names_of_badLine hmalloc hbad']

/-- Empty lines at the end do no harm. -/
theorem ignoresEmptyLines_of_isPrefix (hne : withoutEmptyLines content ≠ [])
    (hlimit : content.length ≤ domainsFileLimit) (hgood : ¬BadLine (copiedNames content))
    (hlt : withoutEmptyLines content ≠ content) (h : withoutEmptyLines content <+: content) :
    IgnoresEmptyLines malloc content := by
  have hlen := length_withoutEmptyLines_lt hlt
  rw [IgnoresEmptyLines, names_of_emptyLine hmalloc hlimit hgood hlt, copiedNames_eq_allLabels h]
  rcases names_of_withoutEmptyLines hmalloc hne (by omega) hgood with hnames | ⟨⟨hlast, -, -⟩, -⟩
  · exact hnames.symm
  · refine absurd (getLast?_allLabels_iff.mpr ?_) (copiedNames_withoutEmptyLines content ▸ hlast)
    exact getLast?_splitOn_of_newline (getLast?_withoutEmptyLines hne hlt h)

/-- An empty line in front of a domain name gets a newline into the names. -/
theorem not_ignoresEmptyLines_of_not_isPrefix (hne : withoutEmptyLines content ≠ [])
    (hlimit : content.length ≤ domainsFileLimit) (hgood : ¬BadLine (copiedNames content))
    (h : ¬withoutEmptyLines content <+: content) : ¬IgnoresEmptyLines malloc content := by
  have hlt : withoutEmptyLines content ≠ content := fun hself =>
    h ⟨[], by rw [List.append_nil, hself]⟩
  have hlen := length_withoutEmptyLines_lt hlt
  have hnewline : HasNewline (copiedNames content) := by
    have hstep : ¬InStep [] 0 [] content := h
    exact hasNewline_of_not_inStep content (by simp) (Or.inl rfl) hstep hgood
  rw [IgnoresEmptyLines, names_of_emptyLine hmalloc hlimit hgood hlt]
  intro hsame
  rcases names_of_withoutEmptyLines hmalloc hne (by omega) hgood with hnames | ⟨-, hnone⟩
  · rw [hnames] at hsame
    simp only [Option.some.injEq, Prod.mk.injEq] at hsame
    -- the names of both files are the same, and those of the second have no newline in them
    obtain ⟨line, hline, z, hz, hmem⟩ := hnewline.namesOf
    rw [hsame.2] at hline
    exact newline_notMem_allLabels _ line (mem_of_mem_namesOf hline) z hz hmem
  · rw [hnone] at hsame
    simp at hsame

omit hmalloc

/-- **When empty lines are ignored.** Removing the empty lines of a file makes no difference to
`get_domains` exactly if some line is not a domain name, or there is no empty line, or the file is
too big even without its empty lines, or it is too big and has nothing but empty lines, or it has
a domain, is not too big, and has all its empty lines at its end. -/
theorem ignoresEmptyLines_iff {malloc : Malloc}
    (hmalloc : ∀ n, ∃ block, malloc.alloc n = some block) (content : List UInt8) :
    IgnoresEmptyLines malloc content ↔
      (∃ line ∈ fileLines content, line ≠ [] ∧ ¬IsDomainName line) ∨
      [] ∉ fileLines content ∨
      domainsFileLimit < (withoutEmptyLines content).length ∨
      (withoutEmptyLines content = [] ∧ domainsFileLimit < content.length) ∨
      (withoutEmptyLines content ≠ [] ∧ content.length ≤ domainsFileLimit ∧
        withoutEmptyLines content <+: content) := by
  rw [← badLine_allLabels_iff, ← badLine_copiedNames_iff]
  by_cases hgood : BadLine (copiedNames content)
  · exact iff_of_true (ignoresEmptyLines_of_badLine hmalloc hgood) (Or.inl hgood)
  by_cases hblank : [] ∉ fileLines content
  · have hself := withoutEmptyLines_eq_self hblank
    refine iff_of_true ?_ (Or.inr (Or.inl hblank))
    rw [IgnoresEmptyLines, hself]
  have hlt : withoutEmptyLines content ≠ content := fun hself =>
    hblank (hself ▸ nil_notMem_fileLines content)
  have hlen := length_withoutEmptyLines_lt hlt
  by_cases hbig : domainsFileLimit < (withoutEmptyLines content).length
  · refine iff_of_true ?_ (Or.inr (Or.inr (Or.inl hbig)))
    rw [IgnoresEmptyLines, names_of_limit_lt hbig, names_of_limit_lt (by omega)]
  simp only [hgood, hblank, hbig, false_or]
  by_cases hnil : withoutEmptyLines content = []
  · -- nothing but empty lines: the rest is the empty file, which is not accepted
    rw [IgnoresEmptyLines, hnil, names_of_nil hmalloc]
    by_cases hlimit : domainsFileLimit < content.length
    · rw [names_of_limit_lt hlimit]
      simp [hlimit]
    · rw [names_of_emptyLine hmalloc (Nat.not_lt.mp hlimit) hgood hlt]
      simp [hlimit]
  · simp only [hnil, false_and, false_or, ne_eq, not_false_eq_true, true_and]
    by_cases hlimit : content.length ≤ domainsFileLimit
    · simp only [hlimit, true_and]
      constructor
      · intro hsame
        by_contra hstep
        exact not_ignoresEmptyLines_of_not_isPrefix hmalloc hnil hlimit hgood hstep hsame
      · exact ignoresEmptyLines_of_isPrefix hmalloc hnil hlimit hgood hlt
    · -- the file is too big because of its empty lines
      simp only [hlimit, false_and, iff_false]
      rw [IgnoresEmptyLines, names_of_limit_lt (Nat.not_le.mp hlimit)]
      intro hsame
      rcases names_of_withoutEmptyLines hmalloc hnil (Nat.not_lt.mp hbig) hgood with
        hnames | ⟨-, hnone⟩
      · rw [hnames] at hsame
        simp at hsame
      · rw [hnone] at hsame
        simp at hsame

/-- With an allocator that never fails. -/
theorem ignoresEmptyLines_iff_zeroed :
    IgnoresEmptyLines .zeroed [0x61, newline, newline] ↔
      (∃ line ∈ fileLines [0x61, newline, newline], line ≠ [] ∧ ¬IsDomainName line) ∨
      [] ∉ fileLines [0x61, newline, newline] ∨
      domainsFileLimit < (withoutEmptyLines [0x61, newline, newline]).length ∨
      (withoutEmptyLines [0x61, newline, newline] = [] ∧
        domainsFileLimit < [0x61, newline, newline].length) ∨
      (withoutEmptyLines [0x61, newline, newline] ≠ [] ∧
        [0x61, newline, newline].length ≤ domainsFileLimit ∧
        withoutEmptyLines [0x61, newline, newline] <+: [0x61, newline, newline]) :=
  ignoresEmptyLines_iff (fun n => ⟨⟨List.replicate n 0, []⟩, rfl⟩) _

/-- An empty line in front of `ab` makes the name a newline and an `a`. -/
theorem getDomains_empty_line_first :
    (getDomains .zeroed (.ofContents [newline, 0x61, 0x62, newline])).map DomainsOutcome.names
        = some (some (1, some [[[newline, 0x61]]])) ∧
      (getDomains .zeroed (.ofContents [0x61, 0x62, newline])).map DomainsOutcome.names
        = some (some (1, some [[[0x61, 0x62]]])) ∧
      ¬IgnoresEmptyLines .zeroed [newline, 0x61, 0x62, newline] := by
  have hwith : (getDomains .zeroed (.ofContents [newline, 0x61, 0x62, newline])).map
      DomainsOutcome.names = some (some (1, some [[[newline, 0x61]]])) := rfl
  have hwithout : (getDomains .zeroed (.ofContents [0x61, 0x62, newline])).map
      DomainsOutcome.names = some (some (1, some [[[0x61, 0x62]]])) := rfl
  refine ⟨hwith, hwithout, ?_⟩
  have hdrop : withoutEmptyLines [newline, 0x61, 0x62, newline] = [0x61, 0x62, newline] := by decide
  rw [IgnoresEmptyLines, hdrop, hwith, hwithout]
  simp [newline]

end DnsTools
