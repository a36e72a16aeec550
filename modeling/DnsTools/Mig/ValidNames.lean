import DnsTools.Mig.LoadedNames
import Mathlib.Algebra.Order.BigOperators.Group.List

/-!
# Which files yield valid names

The names that `get_domains` accepts against the rules of DNS: labels of at most 63 octets, names of
at most 255. The parser counts the bytes of a label up to 255, and those of a name not at all, and
it lets zero bytes pass, at which `make_queries` takes the name to end.

## What is asked of a file

`YieldsValidNames` is about the buffer, as two readers find it: `print_domains`, which goes by the
length bytes and sees the names that are meant, and a resolver that parses the queries. The names
are valid, and every query is one for the name whose turn it is. The second part is not a
consequence of the first: a zero byte is an octet like any other in a label, so a name with one is
valid, and yet its query is not for that name.

## A name that is cut off

`make_queries` ends such a name within a label, where the length byte promises more. What stands
behind it in the query is a zero byte, the type and the class of the question, five bytes in all.
The label that was cut takes some of them for its own, or there are too few for it. Either way what
is left is not enough for the rest of the name, a type and a class, so no reader of messages accepts
the query (`message_cut`).

## The exact condition

It is a condition on the lines of the file. The lengths of the labels are those of the file, also
where empty lines put `src_offset` out of step, so the sizes can be read off the lines. The zero
bytes cannot: a label that is copied late loses as many bytes at its end as there were empty lines
in front of it, and a zero byte among these is never copied. `NoZeroKept` counts only the bytes that
are.

## Main results

* `cString_cut` — where a name with a zero byte is cut off
* `message_cut` — a query for a name cut off is no DNS message
* `Loaded.forall_valid_iff` — the names are valid if the lines have the size of names
* `validNames_iff` — exactly which of the files accepted yield valid names
-/

namespace DnsTools

open Memory Endian

/-! ### A name cut off -/

/-- **Where a name is cut off**: within its first label with a zero byte. -/
theorem cString_cut {name : List (List UInt8)} (hvalid : Dns.Name.Valid name)
    (hzero : ∃ z ∈ name, 0 ∈ z) :
    ∃ (front : Dns.Name) (z a : List UInt8), front.Valid ∧ 0 < z.length ∧ z.length ≤ 63 ∧
      a.length < z.length ∧
      cString (Dns.Name.encodeLabels name)
        = Dns.Name.encodeLabels front ++ (UInt8.ofNat z.length :: a) := by
  induction name with
  | nil =>
    obtain ⟨z, hz, -⟩ := hzero
    exact absurd hz List.not_mem_nil
  | cons l name ih =>
    obtain ⟨hpos, hle⟩ := hvalid l (List.mem_cons_self ..)
    have hvalid' : Dns.Name.Valid name := fun z hz => hvalid z (List.mem_cons_of_mem l hz)
    have hbyte := (Dns.lengthByte hpos hle).2
    by_cases hl : 0 ∈ l
    · -- the first label has it: this is where the name is cut
      refine ⟨[], l, cString l, fun z hz => absurd hz List.not_mem_nil, hpos, hle,
        length_cString_lt hl, ?_⟩
      have hstop : (l ++ Dns.Name.encodeLabels name).takeWhile (· ≠ 0) = l.takeWhile (· ≠ 0) := by
        rw [List.takeWhile_append, if_neg]
        exact fun heq => absurd (length_cString_lt hl) (by rw [cString, heq]; exact Nat.lt_irrefl _)
      rw [Dns.Name.encodeLabels_cons, cString, cString, List.cons_append,
        List.takeWhile_cons_of_pos (by simpa using hbyte), hstop]
      rfl
    · -- the first label is whole, and the cut is in the rest
      obtain ⟨front, z, a, hfront, hzpos, hzle, hlt, hcut⟩ := ih hvalid' (by
        obtain ⟨z, hz, hmem⟩ := hzero
        refine ⟨z, (List.mem_cons.mp hz).resolve_left ?_, hmem⟩
        rintro rfl
        exact hl hmem)
      refine ⟨l :: front, z, a, ?_, hzpos, hzle, hlt, ?_⟩
      · intro z' hz'
        rcases List.mem_cons.mp hz' with rfl | hz'
        · exact ⟨hpos, hle⟩
        · exact hfront z' hz'
      · have hself : ∀ b ∈ UInt8.ofNat l.length :: l, decide (b ≠ 0) = true := by
          intro b hb
          rw [decide_eq_true_iff]
          rcases List.mem_cons.mp hb with rfl | hb
          · exact hbyte
          · rintro rfl
            exact hl hb
        rw [Dns.Name.encodeLabels_cons, cString, List.takeWhile_append_of_pos hself,
          Dns.Name.encodeLabels_cons, List.append_assoc]
        exact congrArg _ hcut

/-- The header of a query without a client id. -/
def plainHeader (i : ℕ) : Dns.Header :=
  { id := i % ushrtMax, flags := 0x0100, qdcount := 1, ancount := 0, nscount := 0, arcount := 0 }

theorem plainHeader_fits (i : ℕ) : (plainHeader i).Fits := by
  have hid : i % ushrtMax < 65536 := by rw [ushrtMax]; omega
  exact ⟨hid, by simp [plainHeader], by simp [plainHeader], by simp [plainHeader],
    by simp [plainHeader], by simp [plainHeader]⟩

theorem queryMessage_none (i : ℕ) (w : List UInt8) :
    queryMessage none i w = (plainHeader i).encode ++ (w ++ (beBytes 2 1 ++ beBytes 2 1)) := by
  simp [queryMessage, plainHeader, Dns.Header.encode]

/-- A message is read question by question. -/
theorem exists_question_of_message {msg : Block} {h : Dns.Header} {r : Dns.Message × ℕ}
    (hfits : h.Fits) (hqd : h.qdcount = 1) (hheader : msg.Holds 0 h.encode)
    (hmessage : Dns.message msg = some r) : ∃ q next, Dns.question msg 12 = some (q, next) := by
  simp only [Dns.message, Dns.header_of_holds hfits hheader, hqd, Dns.entries,
    Option.bind_eq_bind, Option.bind_some, Option.bind_eq_some_iff] at hmessage
  obtain ⟨-, ⟨p, hquestion, -⟩, -⟩ := hmessage
  exact ⟨p.1, p.2, hquestion⟩

/-- **A query for a name that is cut off is no DNS message**: its last label reaches beyond the
end. -/
theorem message_cut {front : Dns.Name} {z a : List UInt8} (hfront : front.Valid)
    (hpos : 0 < z.length) (hle : z.length ≤ 63) (hlt : a.length < z.length) (i : ℕ) :
    Dns.message ⟨queryMessage none i
      (front.encodeLabels ++ (UInt8.ofNat z.length :: a) ++ [0]), []⟩ = none := by
  rw [queryMessage_none, Option.eq_none_iff_forall_ne_some]
  intro r hmessage
  generalize hbytes : (plainHeader i).encode ++
    (front.encodeLabels ++ (UInt8.ofNat z.length :: a) ++ [0] ++ (beBytes 2 1 ++ beBytes 2 1))
    = bytes at hmessage
  have hholds : Block.Holds ⟨bytes, []⟩ 0 bytes := Block.holds_bytes ⟨bytes, []⟩
  have hsize : (Block.mk bytes []).size = 12 + front.encodeLabels.length + a.length + 6 := by
    simp only [← hbytes, Block.size, List.length_append, Dns.Header.length_encode,
      List.length_cons, length_beBytes, List.length_nil]
    omega
  generalize Block.mk bytes [] = msg at hmessage hholds hsize
  rw [← hbytes] at hholds
  simp only [Block.holds_append, Dns.Header.length_encode, Nat.zero_add] at hholds
  obtain ⟨hheader, ⟨⟨hlabels, hlabel⟩, -⟩, -⟩ := hholds
  obtain ⟨q, next, hquestion⟩ :=
    exists_question_of_message (plainHeader_fits i) rfl hheader hmessage
  obtain ⟨off, hname, hroom⟩ := Dns.name_of_question hquestion
  -- the name goes on behind the labels in front, and behind the label that is cut off
  obtain ⟨fuel, labels, hrest⟩ := Dns.nameFrom_labels hfront hlabels hname
  obtain ⟨hbyte, hne⟩ := Dns.lengthByte hpos hle
  have hfirst : msg.bytes[12 + front.encodeLabels.length]? = some (UInt8.ofNat z.length) :=
    hlabel.getElem? (i := 0) (by simp)
  obtain ⟨fuel', labels', hend⟩ := Dns.nameFrom_label hfirst hne (by omega) hrest
  have hlast := Dns.lt_of_nameFrom hend
  rw [hbyte] at hlast
  omega

/-! ### Valid names -/

/-- What the names of a buffer must be for their queries to be read as they are meant. -/
structure YieldsValidNames (domains : Block) : Prop where
  /-- Each is a valid name. -/
  names : ∃ names, printDomains domains = some names ∧
    ∀ name ∈ names, Dns.Name.Valid name ∧ Dns.Name.WithinLimit name
  /-- Each query asks for the name whose turn it is. -/
  queries : ∀ {malloc : Malloc} {client : Option ClientId} {n off : ℕ} {queries : Block}
    {messages : List (List UInt8)} {names : List (List (List UInt8))},
    makeQueries malloc domains n client = some (some queries) →
    readQueries queries n 0 = some (messages, off) → printDomains domains = some names →
    ∀ i message name, messages[i]? = some message → names[i % names.length]? = some name →
      ∃ m, Dns.message ⟨message, []⟩ = some (m, message.length) ∧
        m.questions = [{ qname := name, qtype := 1, qclass := 1 }]

/-- A line that is not too long for a name, and neither are its labels. -/
def NameSized (line : List UInt8) : Prop :=
  (∀ label ∈ labelsOf line, label.length ≤ 63) ∧ line.length ≤ 253

theorem nameSized_nil : NameSized [] := by
  refine ⟨fun label hlabel => ?_, Nat.zero_le _⟩
  rw [List.mem_singleton.mp hlabel]
  exact Nat.zero_le _

section Loaded

variable {content : List UInt8} {domains : Block} {count : ℕ}

/-- The names are valid if the lines have the size of names. -/
theorem Loaded.forall_valid_iff (h : Loaded content domains count) :
    (∀ name ∈ loadedNames content, Dns.Name.Valid name ∧ Dns.Name.WithinLimit name) ↔
      ∀ line ∈ fileLines content, NameSized line := by
  have hlines := forall_copyLines
    (P := fun name => (∀ n ∈ name.map List.length, n ≤ 63) ∧ Dns.Name.WithinLimit name)
    (Q := NameSized) (fun skipped line _ => by
      have hlen := length_encodeLabels_copiedLine skipped line
      rw [map_length_copiedLine, List.forall_mem_map, NameSized, Dns.Name.WithinLimit,
        Dns.Name.encode, List.length_append, List.length_singleton, hlen]
      exact and_congr_right fun _ => by omega)
    0 (fileLines content)
  have hblank : (∀ line ∈ fileLines content, line ≠ [] → NameSized line) ↔
      ∀ line ∈ fileLines content, NameSized line := by
    refine forall₂_congr fun line _ => ⟨fun hsized => ?_, fun hsized _ => hsized⟩
    by_cases hline : line = []
    · exact hline ▸ nameSized_nil
    · exact hsized hline
  rw [← hblank, ← hlines]
  refine forall₂_congr fun name hname => and_congr_left fun _ => ?_
  rw [List.forall_mem_map]
  refine forall₂_congr fun z hz => and_iff_right ?_
  exact List.length_pos_of_ne_nil ((h.labels name hname).2 z hz).1

/-- A query for a valid name without zero bytes. -/
theorem message_of_name {name : List (List UInt8)} (hne : name ≠ []) (hvalid : Dns.Name.Valid name)
    (hzero : ∀ z ∈ name, 0 ∉ z) (client : Option ClientId) (i : ℕ) :
    ∃ m, Dns.message ⟨queryMessage client i (Dns.Name.encode name), []⟩
        = some (m, (queryMessage client i (Dns.Name.encode name)).length) ∧
      m.questions = [{ qname := name, qtype := 1, qclass := 1 }] :=
  ⟨_, message_queryMessage client i ⟨name, hne, hvalid, fun z hz _ hb hb0 => hzero z hz (hb0 ▸ hb)⟩,
    rfl⟩

/-- What is read of the first names takes no more bytes than the names. -/
theorem sum_length_cString_le {names : List (List (List UInt8))} {n : ℕ} (hn : n ≤ names.length) :
    (((List.range n).map fun t =>
        cString (Dns.Name.encodeLabels (cyclicName names t)) ++ [0]).map List.length).sum
      ≤ (names.flatMap Dns.Name.encode).length := by
  have hcString : ∀ s : List UInt8, (cString s).length ≤ s.length := fun s =>
    (List.takeWhile_sublist _).length_le
  calc
    _ = ((names.take n).map fun name => (cString (Dns.Name.encodeLabels name)).length + 1).sum := by
      rw [← map_cyclicName hn, List.map_map, List.map_map]
      congr 1
      refine List.map_congr_left fun t _ => ?_
      simp
    _ ≤ ((names.take n).map fun name => (Dns.Name.encode name).length).sum := by
      refine List.sum_le_sum fun name _ => ?_
      rw [Dns.Name.encode, List.length_append, List.length_singleton]
      exact Nat.add_le_add_right (hcString _) 1
    _ ≤ (names.map fun name => (Dns.Name.encode name).length).sum :=
      ((List.take_sublist n names).map _).sum_le_sum fun _ _ => Nat.zero_le _
    _ = (names.flatMap Dns.Name.encode).length := by rw [List.length_flatMap]

/-- Some query for names with a zero byte among them is no DNS message. -/
theorem Loaded.exists_message_eq_none (h : Loaded content domains count)
    (hvalid : ∀ name ∈ loadedNames content, Dns.Name.Valid name)
    (hzero : ∃ name ∈ loadedNames content, ∃ z ∈ name, 0 ∈ z) :
    ∃ (n i off : ℕ) (queries : Block) (messages : List (List UInt8)) (message : List UInt8),
      makeQueries .zeroed domains n none = some (some queries) ∧
      readQueries queries n 0 = some (messages, off) ∧ messages[i]? = some message ∧
      Dns.message ⟨message, []⟩ = none := by
  have hne : loadedNames content ≠ [] := List.ne_nil_of_mem hzero.choose_spec.1
  obtain ⟨j, hj, hfirst, hbefore⟩ := exists_first_zero hzero
  have hmem_j : cyclicName (loadedNames content) j ∈ loadedNames content :=
    List.mem_of_getElem? (getElem?_cyclicName hne j)
  have hwalk := h.nameWalk_succ hne j hbefore
  have hlt := h.length_frames_lt none (by simpa using (by omega : j + 1 ≤ _))
    (sum_length_cString_le (by omega : j + 1 ≤ (loadedNames content).length))
  obtain ⟨-, c, -, -, hmake⟩ := makeQueries_of_nameWalk hwalk hlt
    (rfl : Malloc.zeroed.alloc _ = some _)
  obtain ⟨ws, hws, hread⟩ := readQueries_of_makeQueries hmake
  rw [hwalk, Option.some.injEq] at hws
  subst hws
  refine ⟨j + 1, j, _, _, _, queryMessage none j
    (cString (Dns.Name.encodeLabels (cyclicName (loadedNames content) j)) ++ [0]),
    hmake, hread, ?_, ?_⟩
  · rw [getElem?_queryMessages, List.getElem?_map, List.getElem?_range (Nat.lt_succ_self j)]
    rfl
  · obtain ⟨front, z, a, hfront, hpos, hle, hlt, hcut⟩ := cString_cut (hvalid _ hmem_j) hfirst
    rw [hcut]
    exact message_cut hfront hpos hle hlt j

end Loaded

/-- **Which files yield valid names.** For a file that `get_domains` accepts, every name in the
buffer is a valid DNS name, and every query for it is read as one for that name, exactly if no line
has a label of more than 63 bytes or more than 253 bytes in all, and no zero byte is copied. -/
theorem validNames_iff {malloc : Malloc} {content : List UInt8} {domains : Block} {count : ℕ}
    (h : getDomains malloc (.ofContents content) = some (.loaded domains count)) :
    YieldsValidNames domains ↔
      (∀ line ∈ fileLines content, NameSized line) ∧ NoZeroKept 0 (fileLines content) := by
  have hloaded := loaded_spec h
  have hprint := hloaded.printDomains
  have hsized := hloaded.forall_valid_iff
  rw [← zero_notMem_copyLines]
  constructor
  · intro hyields
    obtain ⟨names, hnames, hvalid⟩ := hyields.names
    rw [hprint, Option.some.injEq] at hnames
    subst hnames
    refine ⟨hsized.mp hvalid, ?_⟩
    -- a zero byte would spoil the query for the first name that has one
    by_contra hzero
    push Not at hzero
    obtain ⟨n, i, off, queries, messages, message, hmake, hread, hget, hnone⟩ :=
      hloaded.exists_message_eq_none (fun name hname => (hvalid name hname).1) hzero
    have hne : loadedNames content ≠ [] := List.ne_nil_of_mem hzero.choose_spec.1
    obtain ⟨m, hm, -⟩ := hyields.queries hmake hread hprint i message _ hget
      (getElem?_cyclicName hne i)
    rw [hnone] at hm
    exact absurd hm (by simp)
  · rintro ⟨hlines, hzero⟩
    have hvalid := hsized.mpr hlines
    refine ⟨⟨_, hprint, hvalid⟩, ?_⟩
    intro malloc client n off queries messages names hmake hread hnames i message name hget hname
    rw [hprint, Option.some.injEq] at hnames
    subst hnames
    have hmem := List.mem_of_getElem? hname
    have hne : loadedNames content ≠ [] := List.ne_nil_of_mem hmem
    have hi : i < n := by
      obtain ⟨ws, hws, hread'⟩ := readQueries_of_makeQueries hmake
      rw [hread, Option.some.injEq, Prod.mk.injEq] at hread'
      have hlt := (List.getElem?_eq_some_iff.mp hget).1
      rwa [hread'.1, length_queryMessages, length_of_nameWalk hws] at hlt
    rw [hloaded.getElem?_messages hne hzero hmake hread hi, Option.some.injEq] at hget
    rw [getElem?_cyclicName hne, Option.some.injEq] at hname
    subst hget hname
    exact message_of_name (hloaded.labels _ hmem).1 (hvalid _ hmem).1 (hzero _ hmem) client i

/-- The file with the one line `a`. -/
theorem validNames_iff_closed :
    YieldsValidNames ⟨[1, 0x61, 0, 0], [(3, 1), (2, 1), (1, 1), (0, 1)]⟩ ↔
      (∀ line ∈ fileLines [0x61, newline], NameSized line) ∧
      NoZeroKept 0 (fileLines [0x61, newline]) :=
  validNames_iff (rfl : getDomains .zeroed (.ofContents [0x61, newline]) = some (.loaded _ 1))

/-- A file with one label of 64 bytes is accepted, and yields a length byte that DNS does not
have. -/
theorem names_not_valid :
    ∃ domains,
      getDomains .zeroed (.ofContents (List.replicate 64 0x61)) = some (.loaded domains 1) ∧
      domains.bytes.head? = some 64 ∧ ¬YieldsValidNames domains := by
  refine ⟨⟨64 :: (List.replicate 64 0x61 ++ List.replicate 32 0),
    [(66, 1), (65, 1), (1, 64), (0, 1)]⟩, rfl, rfl, fun hyields => ?_⟩
  obtain ⟨names, hnames, hvalid⟩ := hyields.names
  obtain rfl : [[List.replicate 64 0x61]] = names := Option.some.inj hnames
  have hlabel := (hvalid _ (List.mem_singleton_self _)).1 _ (List.mem_singleton_self _)
  exact absurd hlabel.2 (by simp)

end DnsTools
