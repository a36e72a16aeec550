import DnsTools.Mig.Domains
import DnsTools.Lib.DnsMessage
import DnsTools.Lib.Table

/-!
# The pass over the domain file

What the loop of `get_domains` does with any file. `copiedLines` is its reading of a file as a
left-to-right recursion over the accumulators the loop keeps: the labels copied for the lines that
are done, those copied for the current line, and the bytes of the current label. `Reading` ties them
to the variables of the loop, and `Reading.loop` is the induction.

Nothing is assumed of the file in this module. What the pass means for files of a certain kind is
the subject of the modules behind it: without empty lines (`DomainsCorrect`), against the same file
without them (`EmptyLines`), for the room (`DomainsRoom`), and line by line (`CopiedLines`).

## The invariant

The loop keeps no list of what it has read, only offsets and counters, and copies from the file when
a label ends. So `Reading` has two sides. On the side of the source it says which bytes lie just in
front of the offset: the newlines passed over and the current label. On the side of the buffer it
says that what has been stored is `storedNames`, and how much that is. The two counts at its end,
`stored` and `lines_le`, are what the room depends on.

## Empty lines

At an empty line the loop counts the line and moves on, but `src_offset` stays where it is. The next
label is then copied from the first of the newlines passed over, so the accumulators include their
number, `skipped`, and what is copied is `copiedLabel`.

## The buffer

While the loop runs, two bytes of the names never take more than three bytes of the file, so the
buffer suffices. The last line, if no newline closes it, is copied after the loop. It still fits,
except in a file of `n` lines, none of them empty, and `2 * n` bytes: `Overflows`.

## Turning a file down

The loop stops at the first line that is no domain name, so it does not know the lines behind it.
The statement that a file is turned down exactly if it has a bad line needs no list of the lines up
to there: what `copiedLines` makes of a rest that begins with such a line has a bad line in it,
however it goes on (`TurnOutcome.reject`).

## Main results

* `Reading.loop` — the loop, by induction on what is left of the file
* `Reading.finish` — what is copied behind the loop
* `getDomains_scan` — how `get_domains` ends on a file that is not empty
-/

namespace DnsTools

open Memory

/-- A label can be stored behind its length byte. -/
def IsLabel (label : List UInt8) : Prop := label ≠ [] ∧ label.length ≤ 255

theorem not_isLabel_nil : ¬IsLabel [] := fun h => h.1 rfl

/-! ### A file without its empty lines -/

/-- The rest of a file without its empty lines, where `start` says that a line starts here. -/
def dropEmptyLines : Bool → List UInt8 → List UInt8
  | _, [] => []
  | start, b :: rest =>
    if b = newline then
      if start then dropEmptyLines true rest else b :: dropEmptyLines true rest
    else b :: dropEmptyLines false rest

/-- The file without its empty lines. -/
def withoutEmptyLines (content : List UInt8) : List UInt8 := dropEmptyLines true content

/-- Whether a line starts here, by the labels and the bytes of the current line. -/
def lineStart (zones : List (List UInt8)) (zone : List UInt8) : Bool :=
  zones.isEmpty && zone.isEmpty

@[simp] theorem lineStart_nil : lineStart [] [] = true := rfl

@[simp] theorem lineStart_concat (zones : List (List UInt8)) (z zone : List UInt8) :
    lineStart (zones ++ [z]) zone = false := by
  simp [lineStart]

@[simp] theorem lineStart_byte (zones : List (List UInt8)) (zone : List UInt8) (b : UInt8) :
    lineStart zones (zone ++ [b]) = false := by
  simp [lineStart]

theorem lineStart_of_ne {zones : List (List UInt8)} {zone : List UInt8}
    (h : ¬(zones = [] ∧ zone = [])) : lineStart zones zone = false := by
  simpa [lineStart] using h

/-! ### What is copied -/

/-- What is copied for a label: as many bytes as the label has, from the first of the newlines
that were passed over in front of it. -/
def copiedLabel (skipped : ℕ) (zone : List UInt8) : List UInt8 :=
  (List.replicate skipped newline ++ zone).take zone.length

/-- What is copied for the rest of a file, given the lines done, the labels of the current line,
the newlines passed over in front of the current label, and its bytes so far. -/
def copiedLines (done : List (List (List UInt8))) (zones : List (List UInt8)) (skipped : ℕ)
    (zone : List UInt8) : List UInt8 → List (List (List UInt8))
  | [] => done ++ [zones ++ [copiedLabel skipped zone]]
  | b :: rest =>
    if b = dot then copiedLines done (zones ++ [copiedLabel skipped zone]) 0 [] rest
    else if b = newline then
      if zones = [] ∧ zone = [] then copiedLines done [] (skipped + 1) [] rest
      else copiedLines (done ++ [zones ++ [copiedLabel skipped zone]]) [] 0 [] rest
    else copiedLines done zones skipped (zone ++ [b]) rest

@[simp] theorem length_copiedLabel (skipped : ℕ) (zone : List UInt8) :
    (copiedLabel skipped zone).length = zone.length := by
  simp [copiedLabel]

@[simp] theorem copiedLabel_zero (zone : List UInt8) : copiedLabel 0 zone = zone := by
  simp [copiedLabel]

@[simp] theorem copiedLabel_nil (skipped : ℕ) : copiedLabel skipped [] = [] := rfl

theorem copiedLabel_ne_nil {skipped : ℕ} {zone : List UInt8} (h : zone ≠ []) :
    copiedLabel skipped zone ≠ [] := by
  rw [ne_eq, ← List.length_eq_zero_iff, length_copiedLabel, List.length_eq_zero_iff]
  exact h

theorem copiedLines_eq_append (done : List (List (List UInt8))) (zones : List (List UInt8))
    (skipped : ℕ) (zone rest : List UInt8) :
    copiedLines done zones skipped zone rest = done ++ copiedLines [] zones skipped zone rest := by
  induction rest generalizing done zones skipped zone with
  | nil => rfl
  | cons b rest ih =>
    rw [copiedLines, copiedLines]
    split
    · exact ih ..
    · split
      · split
        · exact ih ..
        · rw [ih, ih ([] ++ _), List.nil_append, List.append_assoc]
      · exact ih ..

/-- What is copied for a line that has been begun: its labels, and a label at least as long as the
current one is so far. -/
theorem exists_copiedLines_eq (done : List (List (List UInt8))) (zones : List (List UInt8))
    (skipped : ℕ) (zone rest : List UInt8) (hline : ¬(zones = [] ∧ zone = [])) :
    ∃ z zs lines, zone.length ≤ z.length ∧
      copiedLines done zones skipped zone rest = done ++ (zones ++ z :: zs) :: lines := by
  have hcopied := Nat.le_of_eq (length_copiedLabel skipped zone).symm
  induction rest generalizing done zones skipped zone with
  | nil => exact ⟨_, [], [], hcopied, rfl⟩
  | cons b rest ih =>
    rw [copiedLines]
    split
    · obtain ⟨z, zs, lines, -, heq⟩ :=
        ih done (zones ++ [copiedLabel skipped zone]) 0 [] (by simp) (by simp)
      exact ⟨_, z :: zs, lines, hcopied, by rw [heq, List.append_assoc, List.singleton_append]⟩
    · split
      · refine ⟨_, [], copiedLines [] [] 0 [] rest, hcopied, ?_⟩
        rw [copiedLines_eq_append, List.append_assoc, List.singleton_append]
      · obtain ⟨z, zs, lines, hle, heq⟩ :=
          ih done zones skipped (zone ++ [b]) (by simp) (by simp)
        rw [List.length_append] at hle
        exact ⟨z, zs, lines, by omega, heq⟩

/-! ### The loop -/

/-- The names stored so far: the lines that are done and the labels of the current line. -/
def storedNames (done : List (List (List UInt8))) (zones : List (List UInt8)) : List UInt8 :=
  done.flatMap Dns.Name.encode ++ Dns.Name.encodeLabels zones

/-- The variables of the loop, at offset `i`, stand for these accumulators; `empty` lines had
nothing on them. -/
structure Reading (buffer : Block) (start : Cursor) (i : ℕ) (done : List (List (List UInt8)))
    (zones : List (List UInt8)) (skipped empty : ℕ) (zone : List UInt8) (s : DomainsState) :
    Prop where
  /-- What has been copied. -/
  emitted : Cursor.Emitted start (storedNames done zones) s.dst
  /-- The newlines passed over and the current label lie just before the offset. -/
  source : buffer.Holds s.srcOffset (List.replicate skipped newline ++ zone)
  /-- The offset is where they end. -/
  offset : s.srcOffset + skipped + zone.length = i
  /-- The length of the label has been counted. -/
  zoneCount : s.zoneCount = zone.length
  /-- It fits a length byte. -/
  zone_le : zone.length ≤ 255
  /-- The line is empty so far if it has no label and no byte of one. -/
  length : s.length = 0 ↔ zones = [] ∧ zone = []
  /-- The lines have been counted. -/
  count : s.count = done.length
  /-- The labels of the current line are labels. -/
  zones_label : ∀ z ∈ zones, IsLabel z
  /-- So are those of the lines that are done. -/
  done_label : ∀ line ∈ done, line ≠ [] ∧ ∀ z ∈ line, IsLabel z
  /-- Each line that is done takes one byte more stored than read. -/
  stored : (storedNames done zones).length + zone.length + empty = i + done.length
  /-- Each line that is done took at least two bytes of the file. -/
  lines_le : 2 * done.length + zone.length + empty ≤ i

variable {buffer : Block} {start : Cursor} {i : ℕ} {done : List (List (List UInt8))}
  {zones : List (List UInt8)} {skipped empty : ℕ} {zone : List UInt8} {s : DomainsState}

theorem storedNames_zone (done : List (List (List UInt8))) (zones : List (List UInt8))
    (zone : List UInt8) :
    storedNames done (zones ++ [zone])
      = storedNames done zones ++ (UInt8.ofNat zone.length :: zone) := by
  simp [storedNames, Dns.Name.encodeLabels]

theorem storedNames_line (done : List (List (List UInt8))) (zones : List (List UInt8)) :
    storedNames (done ++ [zones]) [] = storedNames done zones ++ [0] := by
  simp [storedNames, Dns.Name.encode]

theorem length_storedNames_zone (done : List (List (List UInt8))) (zones : List (List UInt8))
    (skipped : ℕ) (zone : List UInt8) :
    (storedNames done (zones ++ [copiedLabel skipped zone])).length
      = (storedNames done zones).length + zone.length + 1 := by
  rw [storedNames_zone, List.length_append, List.length_cons, length_copiedLabel]
  omega

/-- What `memcpy` reads for the current label. -/
theorem Reading.load (h : Reading buffer start i done zones skipped empty zone s) :
    buffer.load s.srcOffset s.zoneCount = some (copiedLabel skipped zone) := by
  have hle := h.source.le
  have hload := h.source.load
  rw [List.length_append, List.length_replicate] at hle hload
  rw [Block.load_of_le hle, Option.some.injEq] at hload
  rw [h.zoneCount, Block.load_of_le (by omega), copiedLabel, ← hload, List.take_take,
    Nat.min_eq_left (Nat.le_add_left ..)]

/-- Copying the current label makes it one of the labels of the line. -/
theorem Reading.copyZone (h : Reading buffer start i done zones skipped empty zone s)
    (hroom : start.off + (storedNames done (zones ++ [copiedLabel skipped zone])).length
      ≤ start.block.size) :
    ∃ dst, DnsTools.copyZone buffer s = some dst ∧
      Cursor.Emitted start (storedNames done (zones ++ [copiedLabel skipped zone])) dst := by
  rw [length_storedNames_zone] at hroom
  have hoff := h.emitted.off
  have hsize := h.emitted.size
  obtain ⟨c₁, hc₁, h₁⟩ := Cursor.emit_of_le s.dst [UInt8.ofNat s.zoneCount]
    (by rw [List.length_singleton]; omega)
  have hoff₁ := h₁.off
  have hsize₁ := h₁.size
  rw [List.length_singleton] at hoff₁
  obtain ⟨c₂, hc₂, h₂⟩ := Cursor.emit_of_le c₁ (copiedLabel skipped zone)
    (by rw [length_copiedLabel]; omega)
  refine ⟨c₂, ?_, ?_⟩
  · simp only [DnsTools.copyZone, hc₁, h.load, hc₂, Option.bind_eq_bind, Option.bind_some]
  · rw [storedNames_zone, length_copiedLabel, ← h.zoneCount]
    exact h.emitted.trans (h₁.trans h₂)

/-- The end of the file. -/
theorem Reading.size_eq (h : Reading buffer start i done zones skipped empty zone s)
    (hrest : buffer.bytes.drop i = []) : i = buffer.size := by
  have hle : buffer.size ≤ i := List.drop_eq_nil_iff.mp hrest
  have hsource := h.source.le
  have := h.offset
  rw [List.length_append, List.length_replicate] at hsource
  omega

/-- Two bytes stored for three bytes read. -/
theorem Reading.room (h : Reading buffer start i done zones skipped empty zone s) :
    2 * (storedNames done zones).length + 3 * zone.length ≤ 3 * i := by
  have := h.stored
  have := h.lines_le
  omega

/-- A line that the parser must reject, whatever follows. A blank line is none. -/
def BadLine (lines : List (List (List UInt8))) : Prop :=
  ∃ line ∈ lines, line ≠ [[]] ∧ ¬∀ z ∈ line, IsLabel z

/-- A dot with no label in front of it makes the line bad. -/
theorem badLine_of_dot (done : List (List (List UInt8))) (zones : List (List UInt8))
    (rest : List UInt8) : BadLine (copiedLines done (zones ++ [[]]) 0 [] rest) := by
  obtain ⟨z, zs, lines, -, heq⟩ := exists_copiedLines_eq done (zones ++ [[]]) 0 [] rest (by simp)
  refine ⟨(zones ++ [[]]) ++ z :: zs, ?_, ?_, fun hall => ?_⟩
  · rw [heq]
    simp
  · intro hblank
    have hlen := congrArg List.length hblank
    simp at hlen
    omega
  · exact not_isLabel_nil (hall [] (by simp))

/-- What one turn of the loop may do at the byte `b`: go on with the accumulators of
`copiedLines`, or stop because the file has a bad line. -/
inductive TurnOutcome (buffer : Block) (start : Cursor) (i : ℕ) (done : List (List (List UInt8)))
    (zones : List (List UInt8)) (skipped empty : ℕ) (zone : List UInt8) (b : UInt8) :
    Option (Except ℕ DomainsState) → Prop
  | next (s : DomainsState) (done' : List (List (List UInt8))) (zones' : List (List UInt8))
      (skipped' empty' : ℕ) (zone' : List UInt8)
      (hreading : Reading buffer start (i + 1) done' zones' skipped' empty' zone' s)
      (hcopied : ∀ rest, copiedLines done zones skipped zone (b :: rest)
        = copiedLines done' zones' skipped' zone' rest)
      (hkept : ∀ rest, (dropEmptyLines (lineStart zones zone) (b :: rest)).length + empty'
        = (dropEmptyLines (lineStart zones' zone') rest).length + 1 + empty) :
      TurnOutcome buffer start i done zones skipped empty zone b (some (.ok s))
  | reject (line : ℕ) (hbad : ∀ rest, BadLine (copiedLines done zones skipped zone (b :: rest))) :
      TurnOutcome buffer start i done zones skipped empty zone b (some (.error line))

/-- The labels of the current line with the current label closed. -/
theorem Reading.isLabel_of_mem (h : Reading buffer start i done zones skipped empty zone s)
    (hzone : zone ≠ []) : ∀ z ∈ zones ++ [copiedLabel skipped zone], IsLabel z := by
  intro z hz
  rcases List.mem_append.mp hz with hz | hz
  · exact h.zones_label z hz
  · rw [List.mem_singleton.mp hz]
    exact ⟨copiedLabel_ne_nil hzone, (length_copiedLabel skipped zone).symm ▸ h.zone_le⟩

/-- The room left for closing a label inside the loop. -/
theorem Reading.room_zone (h : Reading buffer start i done zones skipped empty zone s)
    (hi : i < buffer.size) (hstart : start.off = 0)
    (hsize : domainsSize buffer.size ≤ start.block.size) :
    start.off + (storedNames done (zones ++ [copiedLabel skipped zone])).length + 1
      ≤ start.block.size := by
  have hroom := h.room
  rw [domainsSize] at hsize
  rw [hstart, length_storedNames_zone]
  omega

/-- At a dot. -/
theorem Reading.turn_dot (h : Reading buffer start i done zones skipped empty zone s)
    (hb : buffer.bytes[i]? = some dot) (hstart : start.off = 0)
    (hsize : domainsSize buffer.size ≤ start.block.size) :
    TurnOutcome buffer start i done zones skipped empty zone dot (domainsTurn buffer i s) := by
  have hi : i < buffer.size := (List.getElem?_eq_some_iff.mp hb).1
  simp only [domainsTurn, hb, Option.bind_eq_bind, Option.bind_some, if_true]
  by_cases hzone : zone = []
  · -- there is no label in front of the dot
    subst hzone
    have hzero : s.zoneCount = 0 := h.zoneCount
    rw [if_pos hzero]
    refine .reject s.line fun rest => ?_
    rw [copiedLines, if_pos rfl, copiedLabel_nil]
    exact badLine_of_dot done zones rest
  · have hpos : 0 < zone.length := List.length_pos_of_ne_nil hzone
    have hne : s.zoneCount ≠ 0 := by rw [h.zoneCount]; omega
    have hroom := h.room_zone hi hstart hsize
    obtain ⟨dst, hcopy, hemitted⟩ := Reading.copyZone (s := { s with length := s.length + 1 })
      { h with length := by simp [hzone] } (by omega)
    simp only [hne, if_false, hcopy, Option.bind_some]
    have hline : ¬(zones = [] ∧ zone = []) := fun hboth => hzone hboth.2
    refine .next _ done (zones ++ [copiedLabel skipped zone]) 0 empty [] ?_
      (fun rest => by rw [copiedLines, if_pos rfl]) fun rest => ?_
    · exact
        { emitted := hemitted
          source := Block.holds_nil.mpr hi
          offset := rfl
          zoneCount := rfl
          zone_le := by simp
          length := by simp
          count := h.count
          zones_label := h.isLabel_of_mem hzone
          done_label := h.done_label
          stored := by
            have := h.stored
            rw [length_storedNames_zone, List.length_nil]
            omega
          lines_le := by
            have := h.lines_le
            rw [List.length_nil]
            omega }
    · have hdot : dot ≠ newline := by decide
      simp [dropEmptyLines, hdot]

/-- At a newline that ends a line with something on it. -/
theorem Reading.turn_newline (h : Reading buffer start i done zones skipped empty zone s)
    (hb : buffer.bytes[i]? = some newline) (hline : ¬(zones = [] ∧ zone = []))
    (hstart : start.off = 0) (hsize : domainsSize buffer.size ≤ start.block.size) :
    TurnOutcome buffer start i done zones skipped empty zone newline (domainsTurn buffer i s) := by
  have hi : i < buffer.size := (List.getElem?_eq_some_iff.mp hb).1
  have hdot : newline ≠ dot := by decide
  have hlength : s.length ≠ 0 := fun hzero => hline (h.length.mp hzero)
  simp only [domainsTurn, hb, hdot, hlength, Option.bind_eq_bind, Option.bind_some, if_false,
    if_true]
  by_cases hzone : zone = []
  · -- the newline is right behind a dot
    subst hzone
    have hzero : s.zoneCount = 0 := h.zoneCount
    have hzones : zones ≠ [] := fun hzones => hline ⟨hzones, rfl⟩
    rw [if_pos hzero]
    refine .reject s.line fun rest => ⟨zones ++ [[]], ?_, ?_, fun hall => ?_⟩
    · rw [copiedLines, if_neg hdot, if_pos rfl, if_neg hline, copiedLines_eq_append]
      simp
    · intro heq
      have hlen := congrArg List.length heq
      simp [hzones] at hlen
    · exact not_isLabel_nil (hall [] (by simp))
  · have hpos : 0 < zone.length := List.length_pos_of_ne_nil hzone
    have hne : s.zoneCount ≠ 0 := by rw [h.zoneCount]; omega
    have hroom := h.room_zone hi hstart hsize
    obtain ⟨dst, hcopy, hemitted⟩ := h.copyZone (by omega)
    have hoff := hemitted.off
    obtain ⟨dst', hdst', hemitted'⟩ := Cursor.emit_of_le dst [0]
      (by rw [List.length_singleton, hemitted.size]; omega)
    simp only [hne, if_false, hcopy, hdst', Option.bind_some]
    refine .next _ (done ++ [zones ++ [copiedLabel skipped zone]]) [] 0 empty [] ?_
      (fun rest => by rw [copiedLines, if_neg hdot, if_pos rfl, if_neg hline]) fun rest => ?_
    · exact
        { emitted := by
            rw [storedNames_line]
            exact hemitted.trans hemitted'
          source := Block.holds_nil.mpr hi
          offset := rfl
          zoneCount := rfl
          zone_le := by simp
          length := by simp
          count := by simp [h.count]
          zones_label := by simp
          done_label := by
            intro line hmem
            rcases List.mem_append.mp hmem with hmem | hmem
            · exact h.done_label line hmem
            · rw [List.mem_singleton.mp hmem]
              exact ⟨by simp, h.isLabel_of_mem hzone⟩
          stored := by
            have := h.stored
            rw [storedNames_line, List.length_append, length_storedNames_zone, List.length_append,
              List.length_singleton, List.length_singleton, List.length_nil]
            omega
          lines_le := by
            have := h.lines_le
            rw [List.length_append, List.length_singleton, List.length_nil]
            omega }
    · simp [dropEmptyLines, lineStart_of_ne hline]

/-- At a newline with nothing in front of it: `src_offset` stays. -/
theorem Reading.turn_empty (h : Reading buffer start i done [] skipped empty [] s)
    (hb : buffer.bytes[i]? = some newline) :
    TurnOutcome buffer start i done [] skipped empty [] newline (domainsTurn buffer i s) := by
  have hdot : newline ≠ dot := by decide
  have hlength : s.length = 0 := h.length.mpr ⟨rfl, rfl⟩
  have hoffset := h.offset
  have hsource := h.source
  rw [List.length_nil, Nat.add_zero] at hoffset
  simp only [domainsTurn, hb, hdot, hlength, Option.bind_eq_bind, Option.bind_some, if_false,
    if_true]
  refine .next _ done [] (skipped + 1) (empty + 1) [] ?_ (fun rest => ?_) fun rest => ?_
  · exact
      { h with
        source := by
          rw [List.append_nil] at hsource ⊢
          rw [List.replicate_succ', Block.holds_append, List.length_replicate, hoffset,
            Block.holds_singleton]
          exact ⟨hsource, hb⟩
        offset := by
          rw [List.length_nil]
          show s.srcOffset + (skipped + 1) + 0 = i + 1
          omega
        length := by simp
        stored := by
          have := h.stored
          omega
        lines_le := by
          have := h.lines_le
          omega }
  · rw [copiedLines, if_neg hdot, if_pos rfl, if_pos ⟨rfl, rfl⟩]
  · simp only [dropEmptyLines, lineStart_nil, if_true]
    omega

/-- At any other byte. -/
theorem Reading.turn_byte (h : Reading buffer start i done zones skipped empty zone s) {b : UInt8}
    (hb : buffer.bytes[i]? = some b) (hdot : b ≠ dot) (hnewline : b ≠ newline) :
    TurnOutcome buffer start i done zones skipped empty zone b (domainsTurn buffer i s) := by
  have hle := h.zone_le
  have hlen : (zone ++ [b]).length = zone.length + 1 := by simp
  simp only [domainsTurn, hb, hdot, hnewline, Option.bind_eq_bind, Option.bind_some, if_false]
  by_cases hlong : zone.length = 255
  · -- the label no longer fits its length byte
    have hlt : ucharMax < s.zoneCount + 1 := by rw [h.zoneCount, ucharMax]; omega
    rw [if_pos hlt]
    refine .reject s.line fun rest => ?_
    obtain ⟨z, zs, lines, hz, heq⟩ :=
      exists_copiedLines_eq done zones skipped (zone ++ [b]) rest (by simp)
    refine ⟨zones ++ z :: zs, ?_, ?_, fun hall => ?_⟩
    · rw [copiedLines, if_neg hdot, if_neg hnewline, heq]
      simp
    · intro heq'
      have hmem : z ∈ [([] : List UInt8)] := heq' ▸ by simp
      rw [List.mem_singleton.mp hmem, List.length_nil] at hz
      omega
    · have := (hall z (by simp)).2
      omega
  · have hlt : ¬ucharMax < s.zoneCount + 1 := by rw [h.zoneCount, ucharMax]; omega
    rw [if_neg hlt]
    have hoffset := h.offset
    have hstored := h.stored
    have hlines := h.lines_le
    refine .next _ done zones skipped empty (zone ++ [b]) ?_
      (fun rest => by rw [copiedLines, if_neg hdot, if_neg hnewline]) fun rest => ?_
    · exact
        { emitted := h.emitted
          source := by
            rw [← List.append_assoc]
            refine Block.holds_append.mpr ⟨h.source, Block.holds_singleton.mpr ?_⟩
            rw [List.length_append, List.length_replicate, ← Nat.add_assoc, hoffset, hb]
          offset := by
            show s.srcOffset + skipped + (zone ++ [b]).length = i + 1
            omega
          zoneCount := by rw [hlen, h.zoneCount]
          zone_le := by omega
          length := by simp
          count := h.count
          zones_label := h.zones_label
          done_label := h.done_label
          stored := by omega
          lines_le := by omega }
    · simp [dropEmptyLines, hnewline]

/-- **One turn of the loop.** -/
theorem Reading.turn (h : Reading buffer start i done zones skipped empty zone s) {b : UInt8}
    (hb : buffer.bytes[i]? = some b) (hstart : start.off = 0)
    (hsize : domainsSize buffer.size ≤ start.block.size) :
    TurnOutcome buffer start i done zones skipped empty zone b (domainsTurn buffer i s) := by
  by_cases hdot : b = dot
  · subst hdot
    exact h.turn_dot hb hstart hsize
  · by_cases hnewline : b = newline
    · subst hnewline
      by_cases hline : zones = [] ∧ zone = []
      · obtain ⟨rfl, rfl⟩ := hline
        exact h.turn_empty hb
      · exact h.turn_newline hb hline hstart hsize
    · exact h.turn_byte hb hdot hnewline

/-- What the loop may do with the rest of the file, of which `kept` bytes are not those of empty
lines. -/
inductive LoopOutcome (buffer : Block) (start : Cursor) (lines : List (List (List UInt8)))
    (kept : ℕ) : Option (Except ℕ DomainsState) → Prop
  | finished (s : DomainsState) (done : List (List (List UInt8))) (zones : List (List UInt8))
      (skipped empty : ℕ) (zone : List UInt8)
      (hreading : Reading buffer start buffer.size done zones skipped empty zone s)
      (hlines : lines = done ++ [zones ++ [copiedLabel skipped zone]])
      (hkept : kept + empty = buffer.size) : LoopOutcome buffer start lines kept (some (.ok s))
  | rejected (line : ℕ) (hbad : BadLine lines) :
      LoopOutcome buffer start lines kept (some (.error line))

/-- **The loop.** It never leaves its buffers, and it stops early only at a bad line. -/
theorem Reading.loop {rest : List UInt8}
    (h : Reading buffer start i done zones skipped empty zone s)
    (hrest : buffer.bytes.drop i = rest) (hstart : start.off = 0)
    (hsize : domainsSize buffer.size ≤ start.block.size) {kept : ℕ}
    (hkept : (dropEmptyLines (lineStart zones zone) rest).length + i = kept + empty) :
    LoopOutcome buffer start (copiedLines done zones skipped zone rest) kept
      (domainsLoop buffer rest.length i s) := by
  induction rest generalizing i done zones skipped empty zone s with
  | nil =>
    obtain rfl : i = buffer.size := h.size_eq hrest
    rw [dropEmptyLines, List.length_nil, Nat.zero_add] at hkept
    exact .finished s done zones skipped empty zone h rfl hkept.symm
  | cons b rest ih =>
    have hb : buffer.bytes[i]? = some b := Table.getElem?_of_drop hrest
    have hrest' : buffer.bytes.drop (i + 1) = rest := Table.drop_of_drop hrest
    have hturn := h.turn hb hstart hsize
    rw [List.length_cons, domainsLoop]
    revert hturn
    generalize domainsTurn buffer i s = r
    intro hturn
    cases hturn with
    | next s' done' zones' skipped' empty' zone' hreading hcopied hdropped =>
      have := hdropped rest
      rw [hcopied]
      exact ih hreading hrest' (by omega)
    | reject line hbad => exact .rejected line (hbad rest)

/-! ### Behind the loop -/

/-- How `get_domains` ends after its loop: the lines copied are its names, apart from the empty
piece behind a final newline. -/
inductive ScanOutcome (start : Cursor) (lines : List (List (List UInt8))) :
    Option DomainsOutcome → Prop
  | loaded (dst : Cursor) (names : List (List (List UInt8)))
      (hlines : lines = names ++ [[[]]] ∨ lines = names)
      (hemitted : Cursor.Emitted start (names.flatMap Dns.Name.encode ++ [0]) dst)
      (hnames : ∀ line ∈ names, line ≠ [] ∧ ∀ z ∈ line, IsLabel z) :
      ScanOutcome start lines (some (.loaded dst.block names.length))
  | rejected (line : ℕ) (hbad : BadLine lines) : ScanOutcome start lines (some (.invalidName line))

/-- The file ends with a newline. -/
theorem Reading.finish_newline (h : Reading buffer start buffer.size done [] skipped empty [] s)
    (hstart : start.off = 0) (hsize : domainsSize buffer.size ≤ start.block.size) :
    ScanOutcome start (done ++ [[[]]]) (domainsFinish buffer s) := by
  have hoff := h.emitted.off
  have hsize' := h.emitted.size
  have hroom := h.room
  have hlength : ¬0 < s.length := by rw [h.length.mpr ⟨rfl, rfl⟩]; exact Nat.lt_irrefl 0
  have hnames : storedNames done [] = done.flatMap Dns.Name.encode := by
    rw [storedNames, Dns.Name.encodeLabels_nil, List.append_nil]
  rw [domainsSize] at hsize
  obtain ⟨dst, hdst, hemitted⟩ := Cursor.emit_of_le s.dst [0] (by
    rw [hoff, hsize', hstart, List.length_singleton]
    omega)
  have hloaded := ScanOutcome.loaded dst done (Or.inl rfl) (hnames ▸ h.emitted.trans hemitted)
    h.done_label
  rw [← h.count] at hloaded
  simpa only [domainsFinish, hlength, if_false, hdst, Option.bind_eq_bind, Option.bind_some,
    Option.pure_def] using hloaded

/-- A line that ends with a dot is bad. -/
theorem badLine_concat_nil (done : List (List (List UInt8))) {zones : List (List UInt8)}
    (hne : zones ≠ []) : BadLine (done ++ [zones ++ [[]]]) := by
  refine ⟨zones ++ [[]], by simp, fun heq => ?_, fun hall => ?_⟩
  · have hlen := congrArg List.length heq
    simp only [List.length_append, List.length_singleton] at hlen
    exact hne (List.length_eq_zero_iff.mp (by omega))
  · exact not_isLabel_nil (hall [] (by simp))

/-- Names that were stored are not bad. -/
theorem not_badLine_of_names {lines names : List (List (List UInt8))}
    (hlines : lines = names ++ [[[]]] ∨ lines = names)
    (hnames : ∀ line ∈ names, line ≠ [] ∧ ∀ z ∈ line, IsLabel z) : ¬BadLine lines := by
  rintro ⟨line, hline, hblank, hbad⟩
  rcases hlines with rfl | rfl
  · rcases List.mem_append.mp hline with hline | hline
    · exact hbad (hnames line hline).2
    · exact hblank (List.mem_singleton.mp hline)
  · exact hbad (hnames line hline).2

/-- The file ends with a dot. -/
theorem Reading.finish_dot (h : Reading buffer start buffer.size done zones skipped empty [] s)
    (hne : zones ≠ []) :
    ScanOutcome start (done ++ [zones ++ [[]]]) (domainsFinish buffer s) := by
  have hlength : 0 < s.length :=
    Nat.pos_of_ne_zero fun hzero => hne (h.length.mp hzero).1
  have hzero : s.zoneCount = 0 := h.zoneCount
  have hrejected : ScanOutcome start _ _ := .rejected s.line (badLine_concat_nil done hne)
  simpa only [domainsFinish, hlength, if_true, hzero, Option.pure_def] using hrejected

/-- Within a label, what is left is the label, the zero byte of its name and a closing zero byte. -/
theorem Reading.finish_zone
    (h : Reading buffer start buffer.size done zones skipped empty zone s) (hzone : zone ≠ [])
    (hroom : start.off + (storedNames done (zones ++ [copiedLabel skipped zone])).length + 1
      ≤ start.block.size) :
    ∃ dst,
      Cursor.Emitted start (storedNames done (zones ++ [copiedLabel skipped zone]) ++ [0]) dst ∧
      domainsFinish buffer s
        = (dst.emit [0]).map fun dst => .loaded dst.block (s.count + 1) := by
  have hline : ¬(zones = [] ∧ zone = []) := fun hboth => hzone hboth.2
  have hlength : 0 < s.length := Nat.pos_of_ne_zero fun hzero => hline (h.length.mp hzero)
  have hpos : 0 < zone.length := List.length_pos_of_ne_nil hzone
  have hne : s.zoneCount ≠ 0 := by rw [h.zoneCount]; omega
  obtain ⟨dst, hcopy, hemitted⟩ := h.copyZone (by omega)
  have hoff := hemitted.off
  have hsize := hemitted.size
  obtain ⟨dst', hdst', hemitted'⟩ := Cursor.emit_of_le dst [0]
    (by rw [List.length_singleton]; omega)
  refine ⟨dst', hemitted.trans hemitted', ?_⟩
  simp only [domainsFinish, hlength, if_true, hne, if_false, hcopy, hdst', Option.bind_eq_bind,
    Option.bind_some, Option.pure_def, Option.map_eq_bind]
  rfl

/-- The file ends within a label. -/
theorem Reading.finish_label
    (h : Reading buffer start buffer.size done zones skipped empty zone s) (hzone : zone ≠ [])
    (hstart : start.off = 0)
    (hfits : (storedNames done (zones ++ [copiedLabel skipped zone])).length + 2
      ≤ start.block.size) :
    ScanOutcome start (done ++ [zones ++ [copiedLabel skipped zone]])
      (domainsFinish buffer s) := by
  have hnames : storedNames done (zones ++ [copiedLabel skipped zone]) ++ [0]
      = (done ++ [zones ++ [copiedLabel skipped zone]]).flatMap Dns.Name.encode := by
    rw [← storedNames_line, storedNames, Dns.Name.encodeLabels_nil, List.append_nil]
  have hlabels : ∀ line ∈ done ++ [zones ++ [copiedLabel skipped zone]],
      line ≠ [] ∧ ∀ z ∈ line, IsLabel z := by
    intro line hmem
    rcases List.mem_append.mp hmem with hmem | hmem
    · exact h.done_label line hmem
    · rw [List.mem_singleton.mp hmem]
      exact ⟨by simp, h.isLabel_of_mem hzone⟩
  obtain ⟨dst, hemitted, hfinish⟩ := h.finish_zone hzone (by omega)
  have hoff := hemitted.off
  have hsize := hemitted.size
  rw [List.length_append, List.length_singleton] at hoff
  obtain ⟨dst', hdst', hemitted'⟩ := Cursor.emit_of_le dst [0]
    (by rw [List.length_singleton]; omega)
  have hloaded := ScanOutcome.loaded dst' (done ++ [zones ++ [copiedLabel skipped zone]])
    (Or.inr rfl) (hnames ▸ hemitted.trans hemitted') hlabels
  rw [List.length_append, List.length_singleton, ← h.count] at hloaded
  rw [hfinish, hdst']
  exact hloaded

/-- The same without room: the last zero byte goes behind the end of the buffer. -/
theorem Reading.finish_overflow
    (h : Reading buffer start buffer.size done zones skipped empty zone s) (hzone : zone ≠ [])
    (hstart : start.off = 0) (hsize : start.block.size = domainsSize buffer.size)
    (hfull : buffer.size = 2 * (done.length + 1)) (hempty : empty = 0) :
    domainsFinish buffer s = none := by
  have hexact : (storedNames done (zones ++ [copiedLabel skipped zone])).length + 1
      = domainsSize buffer.size := by
    have hpos : 0 < zone.length := List.length_pos_of_ne_nil hzone
    have hstored := h.stored
    rw [length_storedNames_zone, domainsSize]
    omega
  obtain ⟨dst, hemitted, hfinish⟩ := h.finish_zone hzone (by omega)
  have hoff := hemitted.off
  have hsize' := hemitted.size
  rw [List.length_append, List.length_singleton] at hoff
  have hdst : dst.emit [0] = none :=
    Cursor.emit_eq_none (by rw [List.length_singleton]; omega)
  rw [hfinish, hdst]
  rfl

/-- At the end of the file, there may be room for what is left. -/
theorem Reading.finish_of_room
    (h : Reading buffer start buffer.size done zones skipped empty zone s) (hstart : start.off = 0)
    (hsize : domainsSize buffer.size ≤ start.block.size)
    (hroom : zone ≠ [] → (storedNames done (zones ++ [copiedLabel skipped zone])).length + 2
      ≤ start.block.size) :
    ScanOutcome start (done ++ [zones ++ [copiedLabel skipped zone]])
      (domainsFinish buffer s) := by
  by_cases hzone : zone = []
  · subst hzone
    by_cases hzones : zones = []
    · subst hzones
      exact h.finish_newline hstart hsize
    · exact h.finish_dot hzones
  · exact h.finish_label hzone hstart (hroom hzone)

theorem Reading.finish (h : Reading buffer start buffer.size done zones skipped empty zone s)
    (hstart : start.off = 0) (hsize : start.block.size = domainsSize buffer.size) :
    ScanOutcome start (done ++ [zones ++ [copiedLabel skipped zone]]) (domainsFinish buffer s) ∨
      zone ≠ [] ∧ buffer.size = 2 * (done.length + 1) ∧ empty = 0 ∧
        domainsFinish buffer s = none := by
  by_cases hfull : zone ≠ [] ∧ buffer.size = 2 * (done.length + 1) ∧ empty = 0
  · obtain ⟨hzone, hlines, hempty⟩ := hfull
    exact Or.inr ⟨hzone, hlines, hempty, h.finish_overflow hzone hstart hsize hlines hempty⟩
  · refine Or.inl (h.finish_of_room hstart hsize.ge fun hzone => ?_)
    have hpos : 0 < zone.length := List.length_pos_of_ne_nil hzone
    have hstored := h.stored
    have hlines := h.lines_le
    have hroom := not_and.mp hfull hzone
    rw [length_storedNames_zone, hsize, domainsSize]
    omega

/-! ### The whole function -/

/-- If a label has been begun, no line is bad. -/
theorem Reading.not_badLine (h : Reading buffer start i done zones skipped empty zone s)
    (hzone : zone ≠ []) : ¬BadLine (done ++ [zones ++ [copiedLabel skipped zone]]) := by
  rintro ⟨line, hmem, -, hbad⟩
  refine hbad ?_
  rcases List.mem_append.mp hmem with hmem | hmem
  · exact (h.done_label line hmem).2
  · rw [List.mem_singleton.mp hmem]
    exact h.isLabel_of_mem hzone

/-- Storing the file into the buffer allocated for it fills the buffer. -/
theorem bytes_of_store_zero {buffer buffer' : Block} {content : List UInt8}
    (hsize : buffer.size = content.length) (hstore : buffer.store 0 content = some buffer') :
    buffer'.bytes = content := by
  have hdrop : buffer.bytes.drop content.length = [] := List.drop_eq_nil_of_le (Nat.le_of_eq hsize)
  rw [Block.bytes_of_store hstore, List.take_zero, List.nil_append, Nat.zero_add, hdrop,
    List.append_nil]

/-- The variables before the first turn. -/
theorem Reading.initial (buffer domains : Block) :
    Reading buffer ⟨domains, 0⟩ 0 [] [] 0 0 []
      { dst := ⟨domains, 0⟩, srcOffset := 0, zoneCount := 0, length := 0, line := 1
        count := 0 } where
  emitted := .refl (Nat.zero_le _)
  source := Block.holds_nil.mpr (Nat.zero_le _)
  offset := rfl
  zoneCount := rfl
  zone_le := Nat.zero_le _
  length := by simp
  count := rfl
  zones_label := by simp
  done_label := by simp
  stored := by simp [storedNames]
  lines_le := Nat.le_refl _

/-- What a file holds, as far as `get_domains` copies it: line by line, the piece behind the last
newline included. -/
def copiedNames (content : List UInt8) : List (List (List UInt8)) := copiedLines [] [] 0 [] content

/-- The files whose last line does not fit: no newline closes it, no line is empty, and there are
two bytes for each line. -/
def Overflows (content : List UInt8) : Prop :=
  (copiedNames content).getLast? ≠ some [[]] ∧
    (withoutEmptyLines content).length = content.length ∧
      content.length = 2 * (copiedNames content).length

/-- What `get_domains` does once its buffers are there. -/
theorem getDomains_eq_loop {malloc : Malloc} {content : List UInt8} {buffer domains : Block}
    (hne : content ≠ []) (hlimit : content.length ≤ domainsFileLimit)
    (hbuffer : malloc.alloc content.length = some buffer)
    (hdomains : malloc.alloc (domainsSize content.length) = some domains) :
    ∃ buffer' r, buffer'.size = content.length ∧
      LoopOutcome buffer' ⟨domains, 0⟩ (copiedNames content) (withoutEmptyLines content).length r ∧
      getDomains malloc (.ofContents content) = r.bind fun
        | .error line => some (.invalidName line)
        | .ok s => domainsFinish buffer' s := by
  have hsize : buffer.size = content.length := malloc.size_alloc hbuffer
  obtain ⟨buffer', hstore⟩ := Block.store_of_le buffer 0 content (by rw [Nat.zero_add, hsize])
  have hbytes := bytes_of_store_zero hsize hstore
  have hsize' : buffer'.size = content.length := by rw [Block.size, hbytes]
  have hlength : content.length ≠ 0 := fun hzero => hne (List.length_eq_zero_iff.mp hzero)
  have hlimit' : ¬domainsFileLimit < content.length := Nat.not_lt.mpr hlimit
  have hdsize : domainsSize buffer'.size ≤ (Cursor.mk domains 0).block.size := by
    rw [hsize']
    exact (malloc.size_alloc hdomains).ge
  have hloop := (Reading.initial buffer' domains).loop
    (show buffer'.bytes.drop 0 = content by rw [List.drop_zero, hbytes]) rfl hdsize
    (show (withoutEmptyLines content).length = _ from rfl)
  refine ⟨buffer', _, hsize', hloop, ?_⟩
  simp only [getDomains, DomainFile.ofContents, hlimit', hlength, hbuffer, hstore, hdomains,
    Bool.true_eq_false, if_false, Option.bind_eq_bind, Option.bind_some]
  refine congrArg _ (funext fun r => ?_)
  cases r <;> rfl

/-- **How `get_domains` ends on a nonempty file.** It loads the names copied or finds a bad line,
unless the file is one that overflows the buffer of the names. -/
theorem getDomains_scan {malloc : Malloc} {content : List UInt8} {buffer domains : Block}
    (hne : content ≠ []) (hlimit : content.length ≤ domainsFileLimit)
    (hbuffer : malloc.alloc content.length = some buffer)
    (hdomains : malloc.alloc (domainsSize content.length) = some domains) :
    ScanOutcome ⟨domains, 0⟩ (copiedNames content) (getDomains malloc (.ofContents content)) ∨
      Overflows content ∧ getDomains malloc (.ofContents content) = none ∧
        ¬BadLine (copiedNames content) := by
  obtain ⟨buffer', r, hsize, hloop, heq⟩ := getDomains_eq_loop hne hlimit hbuffer hdomains
  have hdsize : (Cursor.mk domains 0).block.size = domainsSize buffer'.size := by
    rw [hsize]
    exact malloc.size_alloc hdomains
  rw [heq, Overflows]
  revert hloop
  generalize copiedNames content = lines
  intro hloop
  cases hloop with
  | finished s done zones skipped empty zone hreading hlines hkept =>
    subst hlines
    rcases hreading.finish rfl hdsize with hscan | ⟨hzone, hfull, hempty, hnone⟩
    · exact Or.inl hscan
    · right
      refine ⟨⟨?_, by omega, ?_⟩, hnone, hreading.not_badLine hzone⟩
      · rw [List.getLast?_concat, ne_eq, Option.some.injEq]
        intro hlast
        have hmem : copiedLabel skipped zone ∈ [([] : List UInt8)] := hlast ▸ by simp
        exact copiedLabel_ne_nil hzone (List.mem_singleton.mp hmem)
      · rw [List.length_append, List.length_singleton]
        omega
  | rejected line hbad => exact Or.inl (.rejected line hbad)

/-- A file without a bad line that overflows the buffer does so. -/
theorem getDomains_eq_none {malloc : Malloc} {content : List UInt8} {buffer domains : Block}
    (hne : content ≠ []) (hlimit : content.length ≤ domainsFileLimit)
    (hbuffer : malloc.alloc content.length = some buffer)
    (hdomains : malloc.alloc (domainsSize content.length) = some domains)
    (hover : Overflows content) (hgood : ¬BadLine (copiedNames content)) :
    getDomains malloc (.ofContents content) = none := by
  obtain ⟨buffer', r, hsize, hloop, heq⟩ := getDomains_eq_loop hne hlimit hbuffer hdomains
  have hdsize : (Cursor.mk domains 0).block.size = domainsSize buffer'.size := by
    rw [hsize]
    exact malloc.size_alloc hdomains
  rw [heq]
  obtain ⟨hlast, hsame, hfull⟩ := hover
  revert hloop hlast hfull hgood
  generalize copiedNames content = lines
  intro hgood hloop hlast hfull
  cases hloop with
  | finished s done zones skipped empty zone hreading hlines hkept =>
    subst hlines
    have hzone : zone ≠ [] := by
      rintro rfl
      by_cases hzones : zones = []
      · exact hlast (by rw [hzones, List.getLast?_concat]; rfl)
      · exact hgood (badLine_concat_nil done hzones)
    rw [List.length_append, List.length_singleton] at hfull
    exact hreading.finish_overflow hzone rfl hdsize (by omega) (by omega)
  | rejected line hbad => exact absurd hbad hgood

end DnsTools
