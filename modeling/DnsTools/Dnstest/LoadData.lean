import DnsTools.Dnstest.Msg

/-!
# The domains of a file

`loadData` looks at the last byte of every line, so it panics at a line that has none, and `getMsg`
divides by the number of domains. When the scanner gives up, because of an error of the reader or a
line that its buffer does not hold, `loadData` takes that for the end of the file.

## Two files in one

There is what the file holds, `DataFile.lines`, and what the scanner makes of it,
`DataFile.scanned`. `loadData` only sees the second, so what it does depends on that alone: it
panics at an empty line, and otherwise takes every line for a domain (`LoadDataOutcome`). For a file
that is read to its end the two are the same, and of any other one a first part of the lines, or of
the bytes, is all that is seen.

That nothing tells the two cases apart is the point of the last part: `loadData` returns `nil` in
both, since it never asks the scanner for its error.

## Main results

* `loadData_outcome` — what `loadData` does with a file
* `panicFree_iff` — exactly when neither `loadData` nor `getMsg` panics
* `loadData_firstLines` — what is lost is lost at the end
* `allOrError_iff` — exactly when the domains are those of the whole file, or an error is reported
-/

namespace DnsTools

open Scanner

/-- The lines of the whole file. -/
def DataFile.lines (file : DataFile) : List (List UInt8) := linesOf (file.content.splitOn newline)

/-- The whole file can be read, and the scanner's buffer holds each of its lines. -/
structure DataFile.ReadToEnd (file : DataFile) : Prop where
  /-- No read fails. -/
  noError : file.fails = none
  /-- Every line, with its newline, has at most `bufio.MaxScanTokenSize` bytes. -/
  short : ∀ piece ∈ file.content.splitOn newline, piece.length < maxScanTokenSize

/-- A line as a domain: it ends with a dot, and is otherwise unchanged. -/
def asDomain (line : List UInt8) : List Char :=
  if (scannerText line).getLast? = some '.' then scannerText line else scannerText line ++ ['.']

theorem DataFile.ReadToEnd.scanned {file : DataFile} (h : file.ReadToEnd) :
    file.scanned.lines = file.lines := by
  have hread : file.read = file.content := by rw [read, h.noError]
  rw [DataFile.scanned, hread, scan_of_fits h.short, lines]

/-- A line that is too long hides itself and those behind it. -/
theorem DataFile.scanned_lines {file : DataFile} (hfails : file.fails = none) :
    file.scanned.lines <+: file.lines := by
  by_cases hshort : ∀ piece ∈ file.content.splitOn newline, piece.length < maxScanTokenSize
  · rw [ReadToEnd.scanned ⟨hfails, hshort⟩]
  · have hread : file.read = file.content := by rw [read, hfails]
    rw [DataFile.scanned, hread, lines]
    exact (scan_of_not_fits hshort).2

/-! ### The loop -/

theorem loadLine_nil (domains : List (List Char)) : loadLine domains (scannerText []) = none := rfl

theorem loadLine_of_ne_nil {line : List UInt8} (hne : line ≠ []) (domains : List (List Char)) :
    loadLine domains (scannerText line) = some (domains ++ [asDomain line]) := by
  have hne' : scannerText line ≠ [] := fun hnil => hne (List.map_eq_nil_iff.mp hnil)
  have hlast := List.getLast?_eq_some_getLast hne'
  rw [loadLine, asDomain, hlast, Option.bind_eq_bind, Option.bind_some]
  by_cases hdot : (scannerText line).getLast hne' = '.'
  · rw [if_neg (not_not.mpr hdot), if_pos (congrArg some hdot)]
    rfl
  · rw [if_pos hdot, if_neg fun hsome => hdot (Option.some.inj hsome)]
    rfl

theorem loadLines_of_mem {lines : List (List UInt8)} (h : [] ∈ lines)
    (domains : List (List Char)) : (lines.map scannerText).foldlM loadLine domains = none := by
  induction lines generalizing domains with
  | nil => exact absurd h List.not_mem_nil
  | cons line lines ih =>
    rw [List.map_cons, List.foldlM_cons]
    by_cases hline : line = []
    · rw [hline, loadLine_nil]
      rfl
    · rw [loadLine_of_ne_nil hline, Option.bind_eq_bind, Option.bind_some]
      exact ih (List.mem_of_ne_of_mem (Ne.symm hline) h) _

theorem loadLines_of_notMem {lines : List (List UInt8)} (h : [] ∉ lines)
    (domains : List (List Char)) :
    (lines.map scannerText).foldlM loadLine domains = some (domains ++ lines.map asDomain) := by
  induction lines generalizing domains with
  | nil =>
    rw [List.map_nil, List.map_nil, List.append_nil]
    rfl
  | cons line lines ih =>
    rw [List.mem_cons, not_or] at h
    rw [List.map_cons, List.foldlM_cons, loadLine_of_ne_nil (Ne.symm h.1), Option.bind_eq_bind,
      Option.bind_some, ih h.2, List.map_cons, List.append_assoc, List.singleton_append]

/-- What `loadData` does with a file that can be opened. -/
inductive LoadDataOutcome (file : DataFile) : Option (Option String × List (List Char)) → Prop
  /-- It panics at an empty line. -/
  | panics (hblank : [] ∈ file.scanned.lines) : LoadDataOutcome file none
  /-- It returns `nil`. -/
  | loaded (hlines : [] ∉ file.scanned.lines) :
      LoadDataOutcome file (some (none, file.scanned.lines.map asDomain))

variable {osOpen : List Char → Except String DataFile} {filepath : List Char}
  {domains : List (List Char)} {file : DataFile}

theorem loadData_outcome (domains : List (List Char)) (hpath : filepath ≠ [])
    (hopen : osOpen filepath = .ok file) :
    LoadDataOutcome file (loadData osOpen filepath domains) := by
  have hload : loadData osOpen filepath domains
      = ((file.scanned.lines.map scannerText).foldlM loadLine []).bind
        fun domains => some (none, domains) := by
    rw [loadData, if_neg hpath, hopen]
    rfl
  rw [hload]
  by_cases hblank : [] ∈ file.scanned.lines
  · rw [loadLines_of_mem hblank]
    exact .panics hblank
  · rw [loadLines_of_notMem hblank]
    exact .loaded hblank

/-! ### Panics -/

/-- Neither `loadData` nor, after it has returned `nil`, a call of `getMsg` for a seed that is
greater than zero panics. -/
structure PanicFree (osOpen : List Char → Except String DataFile) (filepath : List Char) :
    Prop where
  /-- `loadData` returns. -/
  loads : (loadData osOpen filepath predefinedDomains).isSome
  /-- `getMsg` does. -/
  asks : ∀ domains, loadData osOpen filepath predefinedDomains = some (none, domains) →
    ∀ setQuestion (seed : Int64) uncached ecs id ip, 1 ≤ seed →
      (getMsg setQuestion domains seed uncached ecs id ip).isSome

/-- For a seed that is not negative there is an index if there is a domain. -/
theorem isSome_getMsg {setQuestion : SetQuestion} {seed : Int64} {uncached ecs : Bool} {id : UInt16}
    {ip : Fin 254 × Fin 254 × Fin 254} (hseed : 1 ≤ seed) :
    (getMsg setQuestion domains seed uncached ecs id ip).isSome ↔ domains ≠ [] := by
  constructor
  · intro hsome
    obtain ⟨msg, hmsg⟩ := Option.isSome_iff_exists.mp hsome
    obtain ⟨i, hi⟩ := seedIndex_of_getMsg hmsg
    exact (seedIndex_eq_some hi).1
  · intro hne
    have hpos : 0 < domains.length := List.length_pos_iff.mpr hne
    have hseed' : 1 ≤ seed.toInt := Int64.le_iff_toInt_le.mp hseed
    have hnonneg := Int.tmod_nonneg (domains.length : ℤ) (Int.le_of_lt hseed')
    have hlt := Int.tmod_lt_of_pos seed.toInt (Int.natCast_pos.mpr hpos)
    have hindex : seedIndex seed domains = some (seed.toInt.tmod domains.length).toNat := by
      rw [seedIndex, if_neg (Nat.ne_of_gt hpos)]
      exact if_neg (Int.not_lt.mpr hnonneg)
    have hlt' : (seed.toInt.tmod domains.length).toNat < domains.length := by omega
    have hname : (questionName seed domains uncached).isSome := by
      simp [questionName, hindex, List.getElem?_eq_getElem hlt']
    obtain ⟨name, hname⟩ := Option.isSome_iff_exists.mp hname
    rw [getMsg, hname]
    cases ecs <;> rfl

/-- Nothing panics if `loadData` returns, unless it returns `nil` and has no domains. -/
theorem panicFree_of_loadData {err : Option String}
    (hload : loadData osOpen filepath predefinedDomains = some (err, domains))
    (hne : err = none → domains ≠ []) : PanicFree osOpen filepath where
  loads := by rw [hload, Option.isSome_some]
  asks domains' hdomains setQuestion seed uncached ecs id ip hseed := by
    obtain ⟨herr, rfl⟩ := Prod.mk.inj (Option.some.inj (hload.symm.trans hdomains))
    exact (isSome_getMsg hseed).mpr (hne herr)

/-- **Exactly the files without empty lines.** Nothing panics if and only if the list is the
predefined one, or the file cannot be opened, or the scanner yields lines and none of them is
empty. -/
theorem panicFree_iff (osOpen : List Char → Except String DataFile) (filepath : List Char) :
    PanicFree osOpen filepath ↔ (filepath ≠ [] → ∀ file, osOpen filepath = .ok file →
      file.scanned.lines ≠ [] ∧ [] ∉ file.scanned.lines) := by
  constructor
  · rintro ⟨hloads, hasks⟩ hpath file hopen
    have houtcome := loadData_outcome predefinedDomains hpath hopen
    generalize loadData osOpen filepath predefinedDomains = r at *
    cases houtcome with
    | panics hblank => exact Bool.noConfusion hloads
    | loaded hlines =>
      refine ⟨fun hnil => ?_, hlines⟩
      have hasked := hasks _ rfl plainQuestion 1 false false 0 (0, 0, 0) (Int64.le_refl 1)
      rw [isSome_getMsg (Int64.le_refl 1), hnil] at hasked
      exact hasked rfl
  · intro h
    by_cases hpath : filepath = []
    · exact panicFree_of_loadData (if_pos hpath) fun _ => List.cons_ne_nil _ _
    · cases hopen : osOpen filepath with
      | error err =>
        have hload : loadData osOpen filepath predefinedDomains
            = some (some err, predefinedDomains) := by rw [loadData, if_neg hpath, hopen]
        exact panicFree_of_loadData hload fun hnone => absurd hnone (Option.some_ne_none err)
      | ok file =>
        obtain ⟨hne, hblank⟩ := h hpath file hopen
        have houtcome := loadData_outcome predefinedDomains hpath hopen
        generalize hload : loadData osOpen filepath predefinedDomains = r at houtcome
        cases houtcome with
        | panics hmem => exact absurd hmem hblank
        | loaded hlines =>
          exact panicFree_of_loadData hload fun _ hnil => hne (List.map_eq_nil_iff.mp hnil)

/-- A file that has the given bytes, at any path. -/
def fileOf (content : List UInt8) (_ : List Char) : Except String DataFile :=
  .ok ⟨content, none⟩

/-- `loadData` panics at an empty line. -/
theorem blank_line_not_panicFree : ¬PanicFree (fileOf [0x61, 0x0a, 0x0a]) ['f'] := by
  intro h
  have hnone : loadData (fileOf [0x61, 0x0a, 0x0a]) ['f'] predefinedDomains = none := rfl
  exact absurd h.loads (by rw [hnone]; decide)

/-! ### The end of the file -/

/-- If `loadData` returns `nil`, the domains are the lines of the file that are not empty, and a
file that cannot be read to its end is reported. -/
structure AllOrError (osOpen : List Char → Except String DataFile) (filepath : List Char)
    (domains : List (List Char)) : Prop where
  /-- All lines. -/
  all : ∀ domains', loadData osOpen filepath domains = some (none, domains') →
    ∃ file, osOpen filepath = .ok file ∧ domains' = (file.lines.filter (· ≠ [])).map asDomain
  /-- An error. -/
  reported : ∀ file, osOpen filepath = .ok file → ¬file.ReadToEnd →
    ∃ err domains', loadData osOpen filepath domains = some (some err, domains')

/-- Without an error of the reader, what `loadData` returns `nil` for are the first lines of the
file. -/
theorem loadData_firstLines (hpath : filepath ≠ []) (hopen : osOpen filepath = .ok file)
    (hfails : file.fails = none) (hblank : [] ∉ file.scanned.lines) :
    ∃ domains', loadData osOpen filepath domains = some (none, domains') ∧
      domains' <+: file.lines.map asDomain := by
  have houtcome := loadData_outcome domains hpath hopen
  generalize loadData osOpen filepath domains = r at *
  cases houtcome with
  | panics hmem => exact absurd hmem hblank
  | loaded _ => exact ⟨_, rfl, (DataFile.scanned_lines hfails).map asDomain⟩

/-- **Exactly the files that are read to their end.** -/
theorem allOrError_iff (hpath : filepath ≠ []) :
    AllOrError osOpen filepath domains ↔ ∀ file, osOpen filepath = .ok file → file.ReadToEnd := by
  constructor
  · intro h file hopen
    by_contra hend
    obtain ⟨err, domains', hload⟩ := h.reported file hopen hend
    have houtcome := loadData_outcome domains hpath hopen
    rw [hload] at houtcome
    cases houtcome
  · intro h
    refine ⟨fun domains' hload => ?_, fun file hopen hend => absurd (h file hopen) hend⟩
    cases hopen : osOpen filepath with
    | error err =>
      rw [loadData, if_neg hpath, hopen] at hload
      exact absurd hload (by simp)
    | ok file =>
      have houtcome := loadData_outcome domains hpath hopen
      rw [hload] at houtcome
      cases houtcome with
      | loaded hlines =>
        refine ⟨file, rfl, ?_⟩
        rw [(h file hopen).scanned] at hlines ⊢
        rw [List.filter_eq_self.mpr]
        intro line hline
        exact decide_eq_true fun hnil => hlines (hnil ▸ hline)

/-- A file with the lines `a`, `b.c` and `d`, the last of them without a newline, and the same file
of which the end cannot be read. -/
theorem allOrError_iff_lines :
    AllOrError (fileOf [0x61, 0x0a, 0x62, 0x2e, 0x63, 0x0a, 0x64]) ['f'] predefinedDomains ∧
      ¬AllOrError (fun _ => .ok ⟨[0x61, 0x0a, 0x62, 0x2e, 0x63, 0x0a, 0x64], some (5, "EIO")⟩) ['f']
        predefinedDomains := by
  constructor
  · refine (allOrError_iff (List.cons_ne_nil _ _)).mpr ?_
    rintro file ⟨⟩
    exact ⟨rfl, by decide⟩
  · intro h
    have hend := (allOrError_iff (List.cons_ne_nil _ _)).mp h _ rfl
    exact Option.some_ne_none _ hend.noError

/-- A file with the lines `a` and `b`, the second of which cannot be read. -/
def brokenFile (_ : List Char) : Except String DataFile :=
  .ok ⟨[0x61, 0x0a, 0x62], some (2, "input/output error")⟩

/-- Only the first line is loaded, and no error is reported. -/
theorem loadData_brokenFile :
    loadData brokenFile ['f'] predefinedDomains = some (none, [['a', '.']]) := by
  decide

theorem broken_file_not_reported : ¬AllOrError brokenFile ['f'] predefinedDomains := by
  intro h
  obtain ⟨file, hfile, hdomains⟩ := h.all _ loadData_brokenFile
  obtain rfl := Except.ok.inj hfile
  exact absurd hdomains (by decide)

end DnsTools
