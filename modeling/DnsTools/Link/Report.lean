import DnsTools.Analyser.Load
import DnsTools.Mig.Bookkeeping
import DnsTools.Mig.Report

/-!
# From the report of mig to the analyser

What mig prints at the end of a run is a JSON text, and the analyser reads from it what the run has
recorded. mig prints with `fprintf`, entry by entry; the analyser decodes the text as a whole. The
two meet here: `reportText` is the text, cut where the decoder cuts it, and `reportSections` is what
the decoder makes of it.

## Which entries are answers

It takes the entries of `receives` that are not zero for the answers; this is right because mig
fills `receives` from the front, with zeros behind, and never credits an answer at time zero. Both
are part of the invariant of `Bookkeeping`, so they hold for any datagrams.

## Times and differences

A time is printed as an unsigned number of nanoseconds, and the difference of two times as a signed
one, computed modulo `2 ^ 64`. So a difference is printed right if both times fit a `long long`.
This is the hypothesis `htimes` of `report_decoded`; it says that the clock is before the year 2262.
The text can be decoded without it (`Mig.Tables.jload`), with the differences as they are printed.

## Reading the text

The decoder of `Json` goes by fuel, of which `decode` gives it the length of the text. Every entry
takes at least a character, so there is enough for the entries, and the rest of the text has enough
for the nesting. The members of the object are read from the front, but their lemmas are put
together from the last one: what follows a member has to be known before it can be read.

## Main results

* `decode_reportText` — the text is JSON, and this is what it says
* `Mig.Tables.filter_receives` — the entries that are not zero are the answers
* `report_decoded` — the report of a run tells what the run has recorded
-/

namespace DnsTools

open Json Memory

/-! ### The entries

`pairInts` is what a pair stands for, and `printedInts` is what mig prints of it. They are the same
for times that fit a `long long`. -/

/-- A time in the report. -/
def timeJson (t : Timespec) : Json := .int t.nsec

/-- A pair, as numbers. -/
def pairInts (pair : PairTimespec) : List ℤ :=
  if 0 < pair.answer then
    [(pair.sent.nsec : ℤ), pair.received.nsec, pair.received.nsec - pair.sent.nsec]
  else [(pair.sent.nsec : ℤ)]

/-- The difference of two times, as it is printed. -/
def printedDelay (received sent : Timespec) : ℤ :=
  Int.bmod ((received.nsec + (sizeModulus - sent.nsec)) % sizeModulus : ℕ) sizeModulus

/-- A pair, as the numbers that are printed. -/
def printedInts (pair : PairTimespec) : List ℤ :=
  if 0 < pair.answer then
    [(pair.sent.nsec : ℤ), pair.received.nsec, printedDelay pair.received pair.sent]
  else [(pair.sent.nsec : ℤ)]

/-- A pair in the report. -/
def pairJson (pair : List ℤ) : Json := .array (pair.map .int)

/-- The difference of two times that fit a `long long` is printed exactly. -/
theorem printedDelay_eq {received sent : Timespec} (hreceived : received.nsec < 2 ^ 63)
    (hsent : sent.nsec < 2 ^ 63) : printedDelay received sent = received.nsec - sent.nsec := by
  -- the subtraction of `unsigned long long`, as an integer modulo `2 ^ 64`
  have hcast : (((received.nsec + (sizeModulus - sent.nsec)) % sizeModulus : ℕ) : ℤ) =
      ((received.nsec - sent.nsec : ℤ) + sizeModulus) % sizeModulus := by
    rw [Int.natCast_emod, Int.natCast_add, Int.natCast_sub (by rw [sizeModulus]; omega)]
    congr 1
    omega
  rw [printedDelay, hcast, Int.emod_bmod, Int.add_bmod_right,
    Int.bmod_eq_of_le (by rw [sizeModulus]; omega) (by rw [sizeModulus]; omega)]

/-- So a pair is printed as what it stands for; a pair without an answer has no difference. -/
theorem printedInts_eq {pair : PairTimespec} (hsent : pair.sent.nsec < 2 ^ 63)
    (hreceived : 0 < pair.answer → pair.received.nsec < 2 ^ 63) :
    printedInts pair = pairInts pair := by
  rw [printedInts, pairInts]
  split_ifs with hanswer
  · rw [printedDelay_eq (hreceived hanswer) hsent]
  · rfl

theorem printDelay_eq (received sent : Timespec) :
    printDelay received sent = Decimal.formatInt (printedDelay received sent) := rfl

theorem printTime_eq (t : Timespec) : printTime t = Decimal.formatInt t.nsec :=
  (Decimal.formatInt_natCast _).symm

/-- A time begins with a digit, so the decoder skips nothing in front of it. -/
theorem skip_printTime (t : Timespec) {cs : List Char} :
    skip (printTime t ++ cs) = printTime t ++ cs := by
  rw [printTime_eq]
  exact skip_formatInt _

/-- A time is read as a number, wherever the numeral ends. -/
theorem value_printTime {fuel : ℕ} (t : Timespec) (hfuel : 1 ≤ fuel) {cs rest : List Char}
    (hskip : skip cs = printTime t ++ rest) (hrest : Ends rest) :
    value fuel cs = some (timeJson t, rest) := by
  obtain ⟨fuel, rfl⟩ := Nat.exists_eq_add_one_of_ne_zero (show fuel ≠ 0 by omega)
  rw [printTime_eq] at hskip
  exact value_int hskip hrest

/-- A pair begins with its bracket. -/
theorem skip_printPair (pair : PairTimespec) {cs : List Char} :
    skip (printPair pair ++ cs) = printPair pair ++ cs := by
  have hopen (cs : List Char) : skip ("[".toList ++ cs) = "[".toList ++ cs := skip_cons (by decide)
  rw [printPair]
  split_ifs
  · simp only [List.append_assoc, hopen]
  · simp only [List.append_assoc, hopen]

/-- The list of a pair without an answer. -/
theorem value_one {fuel : ℕ} {i : ℤ} {cs rest : List Char}
    (hskip : skip cs = "[".toList ++ Decimal.formatInt i ++ "]".toList ++ rest) :
    value (fuel + 5) cs = some (pairJson [i], rest) := by
  refine value_singleton i (hskip.trans ?_)
  simp only [List.append_assoc, String.reduceToList, List.cons_append, List.nil_append]

/-- The list of a pair with an answer. -/
theorem value_three {fuel : ℕ} {i j k : ℤ} {cs rest : List Char}
    (hskip : skip cs = "[".toList ++ Decimal.formatInt i ++ ", ".toList ++ Decimal.formatInt j ++
      ", ".toList ++ Decimal.formatInt k ++ "]".toList ++ rest) :
    value (fuel + 5) cs = some (pairJson [i, j, k], rest) := by
  refine value_triple i j k (hskip.trans ?_)
  simp only [List.append_assoc, String.reduceToList, List.cons_append, List.nil_append]

/-- A pair is read as the list of its times, and of their difference if it is answered. -/
theorem value_printPair {fuel : ℕ} {pair : PairTimespec} (hfuel : 5 ≤ fuel)
    {cs rest : List Char} (hskip : skip cs = printPair pair ++ rest) :
    value fuel cs = some (pairJson (printedInts pair), rest) := by
  obtain ⟨fuel, rfl⟩ : ∃ n, fuel = n + 5 := ⟨fuel - 5, by omega⟩
  rw [printPair] at hskip
  rw [printedInts]
  split_ifs at hskip ⊢ with hanswer
  · rw [printTime_eq, printTime_eq, printDelay_eq] at hskip
    exact value_three hskip
  · rw [printTime_eq] at hskip
    exact value_one hskip

/-! ### The whole text

Three sections of the same shape, each a list of entries between line breaks. -/

/-- What stands before and behind the entries of a list. -/
theorem isSpace_before : ∀ c ∈ "\n\t\t".toList, isSpace c = true := by simp [isSpace]

theorem isSpace_behind : ∀ c ∈ "\n\t".toList, isSpace c = true := by simp [isSpace]

/-- The entries of a list. -/
def printed {α : Type*} (item : α → List Char) (xs : List α) : List Char :=
  separated "\n\t\t".toList "\n\t".toList item xs

/-- A section of times. -/
theorem value_times (stamps : List Timespec) {fuel : ℕ} {cs rest : List Char}
    (hskip : skip cs = '[' :: (printed printTime stamps ++ ']' :: rest))
    (hfuel : 1 + stamps.length ≤ fuel) :
    value (fuel + 1) cs = some (.array (stamps.map timeJson), rest) := by
  have hitem : ∀ t ∈ stamps, ∀ fuel, 1 ≤ fuel → ∀ rest, Ends rest →
      value fuel ("\n\t\t".toList ++ printTime t ++ rest) = some (timeJson t, rest) := by
    intro t _ fuel hfuel rest hrest
    refine value_printTime t hfuel ?_ hrest
    rw [List.append_assoc, skip_append isSpace_before, skip_printTime]
  exact value_separated hskip isSpace_behind hitem hfuel

/-- The section of the pairs. An entry of it needs more fuel, as it is a list itself. -/
theorem value_pairs {pairs : List PairTimespec} {fuel : ℕ} {cs rest : List Char}
    (hskip : skip cs = '[' :: (printed printPair pairs ++ ']' :: rest))
    (hfuel : 5 + pairs.length ≤ fuel) :
    value (fuel + 1) cs = some (.array ((pairs.map printedInts).map pairJson), rest) := by
  have hitem : ∀ pair ∈ pairs, ∀ fuel, 5 ≤ fuel → ∀ rest, Ends rest →
      value fuel ("\n\t\t".toList ++ printPair pair ++ rest) =
        some (pairJson (printedInts pair), rest) := by
    intro pair _ fuel hfuel rest _
    refine value_printPair hfuel ?_
    rw [List.append_assoc, skip_append isSpace_before, skip_printPair]
  rw [List.map_map]
  exact value_separated hskip isSpace_behind hitem hfuel

/-- The text before the entries of a section. -/
def header (key cs : List Char) : List Char :=
  '"' :: key ++ '"' :: ':' :: '\n' :: '\t' :: '[' :: cs

theorem head_header {key cs : List Char} : (skip (header key cs)).head? = some '"' := rfl

theorem open_append {cs : List Char} :
    "\x7b\"sends\":\n\t[".toList ++ cs = '{' :: header "sends".toList cs := by
  simp only [header, String.reduceToList, List.cons_append, List.nil_append]

theorem receives_append {cs : List Char} :
    "],\n \"receives\":\n\t[".toList ++ cs =
      ']' :: ',' :: '\n' :: ' ' :: header "receives".toList cs := by
  simp only [header, String.reduceToList, List.cons_append, List.nil_append]

theorem pairs_append {cs : List Char} :
    "],\n \"pairs\":\n\t[".toList ++ cs =
      ']' :: ',' :: '\n' :: ' ' :: header "pairs".toList cs := by
  simp only [header, String.reduceToList, List.cons_append, List.nil_append]

theorem close_eq : "]\n\x7d\n".toList = [']', '\n', '}', '\n'] := by
  simp only [String.reduceToList]

/-- The report as one text. -/
def reportText (sends receives : List Timespec) (pairs : List PairTimespec) : List Char :=
  '{' :: header "sends".toList (printed printTime sends ++
    ']' :: ',' :: '\n' :: ' ' :: header "receives".toList (printed printTime receives ++
      ']' :: ',' :: '\n' :: ' ' :: header "pairs".toList (printed printPair pairs ++
        [']', '\n', '}', '\n'])))

/-- What `main` prints is this text, if the arrays have as many entries as there are queries. -/
theorem Mig.report_eq {s : Mig} (hsends : s.sends.length = s.count)
    (hreceives : s.receives.length = s.count) (hpairs : s.pairs.length = s.count) :
    s.report = some (reportText s.sends s.receives s.pairs) := by
  rw [Mig.report, printEntries_eq hsends, printEntries_eq hreceives, printEntries_eq hpairs]
  simp only [Option.bind_eq_bind, Option.bind_some, List.append_assoc, open_append,
    receives_append, pairs_append, close_eq]
  rfl

/-- The sections of a report. -/
def reportSections (sends receives : List Timespec) (pairs : List (List ℤ)) :
    List (List Char × Json) :=
  [("sends".toList, .array (sends.map timeJson)),
    ("receives".toList, .array (receives.map timeJson)),
    ("pairs".toList, .array (pairs.map pairJson))]

/-- An entry takes a character at least, so the text is longer than its lists. -/
theorem length_le_printed {α : Type*} {item : α → List Char} {xs : List α} :
    xs.length ≤ (printed item xs).length := by
  rw [printed]
  exact length_le_separated (by simp)

theorem length_le_reportText (sends receives : List Timespec) (pairs : List PairTimespec) :
    sends.length + receives.length + pairs.length + 20 ≤
      (reportText sends receives pairs).length := by
  have hsends : sends.length ≤ (printed printTime sends).length := length_le_printed
  have hreceives : receives.length ≤ (printed printTime receives).length := length_le_printed
  have hpairs : pairs.length ≤ (printed printPair pairs).length := length_le_printed
  simp only [reportText, header, List.length_append, List.length_cons]
  omega

/-- The last member of the object. -/
theorem members_header_last {key cs rest : List Char} {v : Json} {fuel : ℕ} (hplain : PlainKey key)
    (hv : value fuel ('\n' :: '\t' :: '[' :: cs) = some (v, '\n' :: '}' :: rest)) :
    members (fuel + 1) (header key cs) = some ([(key, v)], rest) :=
  members_last rfl hplain rfl hv rfl

/-- A member with another one behind it. -/
theorem members_header_more (key : List Char) {cs cs' rest : List Char} {v : Json}
    {ms : List (List Char × Json)} {fuel : ℕ} (hplain : PlainKey key)
    (hv : value fuel ('\n' :: '\t' :: '[' :: cs) = some (v, ',' :: '\n' :: ' ' :: cs'))
    (hms : members fuel cs' = some (ms, rest)) :
    members (fuel + 1) (header key cs) = some ((key, v) :: ms, rest) := by
  have hskip : members fuel ('\n' :: ' ' :: cs') = members fuel cs' :=
    members_append (show ∀ c ∈ ['\n', ' '], isSpace c = true by simp [isSpace])
  exact members_more rfl hplain rfl hv rfl (hskip.trans hms)

/-- The report is a JSON text, and this is what it says. -/
theorem decode_reportText (sends receives : List Timespec) (pairs : List PairTimespec) :
    decode (reportText sends receives pairs) =
      some (.object (reportSections sends receives (pairs.map printedInts))) := by
  -- The fuel: one for the object, one for each member, and the rest for the longest list.
  have hlength := length_le_reportText sends receives pairs
  obtain ⟨fuel, hfuel⟩ : ∃ fuel, (reportText sends receives pairs).length = fuel + 4 :=
    ⟨(reportText sends receives pairs).length - 4, by omega⟩
  -- The members, from the last one to the first.
  have hpairs : members (fuel + 2)
      (header "pairs".toList (printed printPair pairs ++ [']', '\n', '}', '\n'])) =
        some ([("pairs".toList, .array ((pairs.map printedInts).map pairJson))], ['\n']) :=
    members_header_last (by simp [PlainKey])
      (value_pairs rfl (show 5 + pairs.length ≤ fuel by omega))
  have hreceives := members_header_more "receives".toList (by simp [PlainKey])
    (value_times receives rfl (show 1 + receives.length ≤ fuel + 1 by omega)) hpairs
  have hsends := members_header_more "sends".toList (by simp [PlainKey])
    (value_times sends rfl (show 1 + sends.length ≤ fuel + 2 by omega)) hreceives
  refine decode_eq ?_ (show skip ['\n'] = [] from rfl)
  rw [hfuel]
  refine value_object rfl ?_ hsends
  rw [head_header]
  decide

/-! ### What the analyser reads

`jload` of `preview.py` and `fit.py` and that of `grinder.py` look up the sections by their names,
and take an empty list for one that is missing. A report has all three, and no fits. -/

/-- The times and pairs of a run, as numbers. Of `receives` only the times of the answers count. -/
def Mig.data (s : Mig) : Analyser.Data where
  sends := s.sends.map fun t => (t.nsec : ℤ)
  receives := (s.receives.take s.messagesReceived).map fun t => (t.nsec : ℤ)
  pairs := s.pairs.map pairInts

section Sections

open Analyser

variable {sends receives : List Timespec} {pairs : List (List ℤ)} {default : Json}

theorem get_sends : get (reportSections sends receives pairs) "sends".toList default =
    .array (sends.map timeJson) := rfl

theorem get_receives : get (reportSections sends receives pairs) "receives".toList default =
    .array (receives.map timeJson) := rfl

theorem get_pairs : get (reportSections sends receives pairs) "pairs".toList default =
    .array (pairs.map pairJson) := rfl

/-- There are no fits in a report of mig. -/
theorem get_fits (sends receives : List Timespec) (pairs : List (List ℤ)) :
    get (reportSections sends receives pairs) "fits".toList (.object []) = .object [] := rfl

theorem asInts_times (stamps : List Timespec) :
    asInts (.array (stamps.map timeJson)) = some (stamps.map fun t => (t.nsec : ℤ)) := by
  have h := asInts_ints (stamps.map fun t => (t.nsec : ℤ))
  rwa [List.map_map] at h

theorem sections_report : sections (reportSections sends receives pairs) =
    some { sends := sends.map fun t => (t.nsec : ℤ)
           receives := (receives.map fun t => (t.nsec : ℤ)).filter (0 < ·)
           pairs } := by
  have hpairs : asPairs (.array (pairs.map pairJson)) = some pairs := asPairs_pairs pairs
  rw [sections, get_sends, get_receives, get_pairs, asInts_times, asInts_times, hpairs]
  rfl

/-- What `grinder.py` reads. -/
theorem jload_report {text : List Char} {data : Data}
    (htext : decode text = some (.object (reportSections sends receives pairs)))
    (hdata : sections (reportSections sends receives pairs) = some data) :
    Grinder.jload text = some (data, { sends := [], receives := [] }) := by
  have hfits := get_fits sends receives pairs
  simp only [Grinder.jload, htext, Option.bind_eq_bind, Option.bind_some, asDict, hfits, hdata]
  rfl

end Sections

variable {s : Mig} {messages : List (List UInt8)}

/-- The entries that are not zero are the times of the answers. -/
theorem Mig.Tables.filter_receives
    (h : s.Tables messages) :
    (s.receives.map fun t => (t.nsec : ℤ)).filter (0 < ·) = s.data.receives := by
  have htake : ((s.receives.take s.messagesReceived).map fun t => (t.nsec : ℤ)).filter (0 < ·) =
      s.data.receives := by
    refine List.filter_eq_self.mpr ?_
    simp only [List.forall_mem_map, decide_eq_true_eq]
    -- an answer is credited behind its query, so not at time zero
    intro t ht
    have hpos := h.receives_pos t ht
    omega
  have hdrop :
      ((s.receives.drop s.messagesReceived).map fun t => (t.nsec : ℤ)).filter (0 < ·) = [] := by
    refine List.filter_eq_nil_iff.mpr ?_
    simp only [List.forall_mem_map, decide_eq_true_eq]
    -- behind the answers the array is as `main` has zeroed it
    intro t ht
    rw [h.receives_zero t ht]
    decide
  conv_lhs => rw [← List.take_append_drop s.messagesReceived s.receives]
  rw [List.map_append, List.filter_append, htake, hdrop, List.append_nil]

/-- As many as the run has counted. -/
theorem Mig.Tables.length_data (h : s.Tables messages) :
    s.data.receives.length = s.messagesReceived := by
  have hle := h.received_le
  rw [Mig.data, List.length_map, List.length_take, h.receives_length]
  omega

/-- A report is read by grinder whatever its times are, with the differences as they are printed. -/
theorem Mig.Tables.jload (h : s.Tables messages) :
    ∃ text, s.report = some text ∧ Grinder.jload text =
      some ({ s.data with pairs := s.pairs.map printedInts }, { sends := [], receives := [] }) := by
  refine ⟨reportText s.sends s.receives s.pairs,
    Mig.report_eq h.sends_length h.receives_length h.pairs_length,
    jload_report (decode_reportText ..) ?_⟩
  rw [sections_report, h.filter_receives]
  rfl

/-- The report `text` of a run of `count` queries tells what the run has recorded. -/
structure Mig.Decoded (count : ℕ) (s : Mig) (text : List Char) : Prop where
  /-- It is what `main` prints. -/
  printed : s.report = some text
  /-- It is a JSON text with the times and the pairs. -/
  decoded : decode text = some (.object (reportSections s.sends s.receives (s.pairs.map pairInts)))
  /-- There is a time of sending for each query. -/
  sends_length : s.sends.length = count
  /-- There is room for the time of each answer. -/
  receives_length : s.receives.length = count
  /-- There is a pair for each query. -/
  pairs_length : s.pairs.length = count
  /-- What `preview.py` and `fit.py` read. -/
  jload : Analyser.jload text = some s.data
  /-- What `grinder.py` reads. -/
  grinder : Grinder.jload text = some (s.data, { sends := [], receives := [] })
  /-- They count as many answers as the run. -/
  received : s.data.receives.length = s.messagesReceived
  /-- They count as many lost messages as `main` reports. -/
  lost : (s.data.sends.length : ℤ) - s.data.receives.length = s.lost

/-- Behind the first loop the times of sending of the pairs are those in `sends`. -/
theorem Mig.Tables.sent_mem (h : s.Tables messages) (hsent : s.messagesSent = s.count)
    {pair : PairTimespec} (hpair : pair ∈ s.pairs) : pair.sent ∈ s.sends := by
  obtain ⟨k, hk, rfl⟩ := List.mem_iff_getElem.mp hpair
  rw [h.pairs_length, ← hsent] at hk
  obtain ⟨pair, hget, hsend⟩ := h.sends_eq k hk
  rw [(List.getElem?_eq_some_iff.mp hget).2]
  exact List.mem_of_getElem? hsend

/-- The time of an answer is in `receives`. -/
theorem Mig.Tables.received_mem (h : s.Tables messages) {pair : PairTimespec}
    (hpair : pair ∈ s.pairs) (hanswer : 0 < pair.answer) : pair.received ∈ s.receives := by
  have hle := h.answer_le pair hpair
  have hstamp : answeredStamp pair = some pair.received := if_pos (by omega)
  exact List.mem_of_mem_take
    (h.receives_perm.mem_iff.mpr (List.mem_filterMap.mpr ⟨pair, hpair, hstamp⟩))

/-- **The report is decoded back to the run.** At the end of a run whose times fit a `long long`,
the analyser reads from the printed text what the run has recorded. -/
theorem report_decoded {malloc : Malloc} {names queries : Block} {count queryLimit : ℕ}
    {client : Option ClientId} {sends receives : List Timespec} {pairs : List PairTimespec}
    (hqueries : makeQueries malloc names count client = some (some queries))
    (hsends : sends.length = count) (hreceives : receives.length = count)
    (hpairs : pairs.length = count) {is : List MigInput}
    (hrun : Run migStep (fun _ _ => True)
      (Mig.initial queries count queryLimit sends receives pairs) is s)
    (hfinished : s.point = .finished)
    (htimes : ∀ t ∈ s.sends ++ s.receives, t.nsec < 2 ^ 63) :
    ∃ text, s.Decoded count text := by
  -- the invariant of the run, and the end of it: every query has been sent
  obtain ⟨messages, h, -, hcount⟩ := mig_run hqueries hsends hreceives hpairs hrun
  have hall : s.messagesSent = s.count := h.fits.secondLoop (by rw [hfinished]; rfl)
  -- every time of a pair is in one of the two arrays, so it fits
  have hprinted : s.pairs.map printedInts = s.pairs.map pairInts := by
    refine List.map_congr_left fun pair hpair => ?_
    refine printedInts_eq (htimes _ (List.mem_append_left _ (h.sent_mem hall hpair))) ?_
    exact fun hanswer => htimes _ (List.mem_append_right _ (h.received_mem hpair hanswer))
  have hdecoded := decode_reportText s.sends s.receives s.pairs
  rw [hprinted] at hdecoded
  have hsections : Analyser.sections (reportSections s.sends s.receives (s.pairs.map pairInts)) =
      some s.data := by
    rw [sections_report, h.filter_receives]
    rfl
  have hle := h.received_le
  refine ⟨reportText s.sends s.receives s.pairs, ?_⟩
  constructor
  case printed => exact Mig.report_eq h.sends_length h.receives_length h.pairs_length
  case decoded => exact hdecoded
  case sends_length => exact h.sends_length.trans hcount
  case receives_length => exact h.receives_length.trans hcount
  case pairs_length => exact h.pairs_length.trans hcount
  case jload =>
    rw [Analyser.jload, hdecoded]
    exact hsections
  case grinder => exact jload_report hdecoded hsections
  case received => exact h.length_data
  case lost =>
    rw [h.length_data, Mig.data, List.length_map, h.sends_length, Mig.lost]
    omega

/-- The report of a run in which the second query is answered first and the third not at all. -/
theorem report_decoded_finalMig : ∃ text, finalMig.Decoded 3 text :=
  report_decoded makeQueries_threeQueries rfl rfl rfl run_finalMig rfl (by decide)

end DnsTools
