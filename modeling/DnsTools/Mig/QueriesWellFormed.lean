import DnsTools.Mig.NamesWalk
import DnsTools.Lib.DnsMessage

/-!
# The queries are well-formed DNS messages

What `make_queries` builds from a proper table of names, read back with the DNS grammar. A proper
table holds the wire encodings of at least one name back to back and closes with an extra zero byte;
the walk over it by `strlen` then visits the names cyclically, and query `i` asks for name `i % k`.

## What is compared

`make_queries` stores bytes: a header, a name that it copies, two half words, and for a client id an
array of constants and sixteen bytes. It knows no grammar. `Dns.message` is a reader of messages
that is written apart from it, and `IsQuery` says what it has to find.

So there are two steps. First the bytes are recognised as the encoding of a message,
`queryContents`, and then the message is read back, by the lemmas of `DnsMessage` on encoding and
reading.

## The size of the buffer

The first pass adds up the sizes modulo `2^64`. The buffer is large enough if the sum does not wrap,
which is assumed (`hwrap`), and then the second pass ends exactly at its end. A sum that wraps needs
more queries than there is memory for.

## Main results

* `NamesTable.nameWalk` — the walk over a table of names
* `message_queryMessage` — a query reads back as what it was built from
* `makeQueries_wellFormed` — the whole buffer, query by query
-/

namespace DnsTools

open Memory Endian

/-! ### Tables of names -/

/-- A name that can be walked over with `strlen`: proper labels, at least one, and no zero octet
in any of them. -/
structure QueryName where
  /-- The labels. -/
  labels : Dns.Name
  /-- The name is not the root. -/
  ne_nil : labels ≠ []
  /-- Labels have 1 to 63 octets. -/
  valid : labels.Valid
  /-- No octet is zero. -/
  octet_ne_zero : ∀ l ∈ labels, ∀ b ∈ l, b ≠ 0

/-- The wire encoding of a name, which is also a NUL-terminated string. -/
def QueryName.encode (n : QueryName) : List UInt8 := n.labels.encode

/-- The buffer starts with the names, back to back, and an extra zero byte. -/
def NamesTable (names : Block) (ns : List QueryName) : Prop :=
  names.Holds 0 (ns.flatMap QueryName.encode ++ [0])

/-- Name number `i`, counted cyclically. -/
def nameOf (ns : List QueryName) (hne : ns ≠ []) (i : ℕ) : QueryName :=
  ns.get ⟨i % ns.length, Nat.mod_lt i (List.length_pos_of_ne_nil hne)⟩

/-- Where name number `j` starts. -/
def nameOffset (ns : List QueryName) (j : ℕ) : ℕ := Block.chunkOffset QueryName.encode ns j

theorem QueryName.encodeLabels_ne_zero (n : QueryName) :
    ∀ b ∈ n.labels.encodeLabels, b ≠ 0 :=
  Dns.Name.encodeLabels_ne_zero n.valid n.octet_ne_zero

/-- An encoding starts with a nonzero byte. -/
theorem QueryName.exists_encode_eq_cons (n : QueryName) :
    ∃ b rest, n.encode = b :: rest ∧ b ≠ 0 := by
  cases hlabels : n.labels with
  | nil => exact absurd hlabels n.ne_nil
  | cons l labels =>
    refine ⟨UInt8.ofNat l.length, l ++ Dns.Name.encodeLabels labels ++ [0],
      by simp [encode, Dns.Name.encode, hlabels], ?_⟩
    refine n.encodeLabels_ne_zero _ ?_
    rw [hlabels]
    simp

/-- The names as strings, without their terminators. -/
def nameStrings (ns : List QueryName) : List (List UInt8) := ns.map fun n => n.labels.encodeLabels

theorem flatMap_nameStrings (ns : List QueryName) :
    (nameStrings ns).flatMap (· ++ [0]) = ns.flatMap QueryName.encode := by
  rw [nameStrings, List.flatMap_map]
  rfl

/-- A table of names is a table of strings. -/
theorem NamesTable.stringTable {names : Block} {ns : List QueryName} (h : NamesTable names ns) :
    StringTable names (nameStrings ns) := by
  refine ⟨by rwa [flatMap_nameStrings], fun s hs => ?_⟩
  obtain ⟨n, -, rfl⟩ := List.mem_map.mp hs
  obtain ⟨b, rest, hcons, hb⟩ := n.exists_encode_eq_cons
  cases hlabels : n.labels.encodeLabels with
  | nil =>
    rw [QueryName.encode, Dns.Name.encode, hlabels] at hcons
    exact absurd (List.cons.inj hcons).1.symm hb
  | cons b' rest' => exact ⟨b', rest', rfl, n.encodeLabels_ne_zero b' (by simp [hlabels])⟩

/-- **The walk is cyclic.** -/
theorem NamesTable.nameWalk {names : Block} {ns : List QueryName} (h : NamesTable names ns)
    (hne : ns ≠ []) (n i : ℕ) :
    nameWalk names n (nameOffset ns (i % ns.length))
      = some ((List.range' i n).map fun t => (nameOf ns hne t).encode) := by
  have hzero : ∀ s ∈ nameStrings ns, 0 ∉ s := by
    intro s hs hmem
    obtain ⟨n, -, rfl⟩ := List.mem_map.mp hs
    exact n.encodeLabels_ne_zero 0 hmem rfl
  have hoffset : ∀ j, nameOffset ns j = stringOffset (nameStrings ns) j := by
    intro j
    rw [nameOffset, stringOffset, Block.chunkOffset, Block.chunkOffset, nameStrings,
      ← List.map_take, ← flatMap_nameStrings]
    rfl
  have hwalk := h.stringTable.nameWalk (by simpa [nameStrings] using hne) hzero n i
  rw [hoffset]
  simpa [nameStrings, stringOf, nameOf, QueryName.encode, Dns.Name.encode] using hwalk

/-! ### A query, read by the grammar -/

/-- The OPT pseudo-record that carries a client id in option `0xffee`. -/
def optRecord (client : ClientId) : Dns.ResourceRecord :=
  { owner := []
    rtype := 41
    rclass := 4096
    ttl := 0x8000
    rdata := Dns.encodeOption (0xffee, client.bytes) }

/-- Query number `i` for a name, as a message. -/
def queryContents (client : Option ClientId) (i : ℕ) (n : QueryName) : Dns.Message :=
  { header :=
      { id := i % ushrtMax, flags := 0x0100, qdcount := 1, ancount := 0, nscount := 0
        arcount := if client.isSome then 1 else 0 }
    questions := [{ qname := n.labels, qtype := 1, qclass := 1 }]
    answers := []
    authorities := []
    additionals := client.toList.map optRecord }

/-- The constant array and the client id spell the OPT record. -/
theorem encode_optRecord (client : ClientId) :
    (optRecord client).encode = additional ++ client.bytes := by
  have hlen : client.bytes.length = 16 := client.length_bytes
  have hrdlen : (optRecord client).rdata.length = 20 := by
    simp [optRecord, Dns.encodeOption, hlen]
  simp only [Dns.ResourceRecord.encode, Dns.ResourceRecord.encodeBody, hrdlen]
  simp only [optRecord, Dns.encodeOption, hlen]
  rfl

theorem optRecord_fits (client : ClientId) : (optRecord client).Fits := by
  have hlen : client.bytes.length = 16 := client.length_bytes
  refine ⟨by simp [optRecord], by simp [optRecord], by simp [optRecord], ?_⟩
  simp [optRecord, Dns.encodeOption, hlen]

theorem queryMessage_eq (client : Option ClientId) (i : ℕ) (n : QueryName) :
    queryMessage client i n.encode = (queryContents client i n).encode := by
  cases client with
  | none =>
    simp [queryMessage, queryContents, Dns.Message.encode, Dns.Header.encode, Dns.Question.encode,
      QueryName.encode]
  | some client =>
    have hopt := encode_optRecord client
    simp [queryMessage, queryContents, Dns.Message.encode, Dns.Header.encode, Dns.Question.encode,
      QueryName.encode, hopt]

theorem queryContents_fits (client : Option ClientId) (i : ℕ) (n : QueryName) :
    (queryContents client i n).Fits where
  header := by
    have hid : i % ushrtMax < 65536 := by rw [ushrtMax]; omega
    refine ⟨hid, ?_, ?_, ?_, ?_, ?_⟩ <;> cases client <;> simp [queryContents]
  qdcount := rfl
  ancount := rfl
  nscount := rfl
  arcount := by cases client <;> rfl
  questions := by
    intro q hq
    rw [List.mem_singleton.mp hq]
    exact ⟨n.valid, by simp, by simp⟩
  answers := fun r hr => absurd hr (List.not_mem_nil)
  authorities := fun r hr => absurd hr (List.not_mem_nil)
  additionals := by
    intro r hr
    obtain ⟨client', -, rfl⟩ := List.mem_map.mp hr
    exact ⟨optRecord_fits client', fun l hl => absurd hl (List.not_mem_nil)⟩

/-- **A query reads back as what it was built from**, and has no bytes left over. -/
theorem message_queryMessage (client : Option ClientId) (i : ℕ) (n : QueryName) :
    Dns.message ⟨queryMessage client i n.encode, []⟩
      = some (queryContents client i n, (queryMessage client i n.encode).length) := by
  have hholds := Block.holds_bytes ⟨queryMessage client i n.encode, []⟩
  rw [queryMessage_eq] at hholds ⊢
  exact Dns.message_of_holds (queryContents_fits client i n) hholds

/-! ### The whole buffer -/

/-- The total size of `count` queries, each with the `size_t` in front of it. -/
def totalQuerySize (client : Option ClientId) (ns : List QueryName) (hne : ns ≠ []) (count : ℕ) :
    ℕ :=
  ((List.range count).map fun i =>
    sizeofSize + querySize client (nameOf ns hne i).encode.length).sum

/-- What a message must be to count as the query number `i` for the name `n`. -/
structure IsQuery (client : Option ClientId) (i : ℕ) (n : QueryName) (m : Dns.Message) : Prop where
  /-- The id is the query number modulo `USHRT_MAX`. -/
  id : m.header.id = i % 65535
  /-- Recursion is desired. -/
  rd : m.header.rd = true
  /-- No other flag is set, and the opcode and response code are zero. -/
  others : m.header.qr = false ∧ m.header.opcode = 0 ∧ m.header.aa = false ∧
    m.header.tc = false ∧ m.header.ra = false ∧ m.header.z = false ∧ m.header.ad = false ∧
    m.header.cd = false ∧ m.header.rcode = 0
  /-- It asks for the address of the name, and for nothing else. -/
  questions : m.questions = [{ qname := n.labels, qtype := 1, qclass := 1 }]
  /-- It carries no answers. -/
  answers : m.answers = []
  /-- It carries no authority records. -/
  authorities : m.authorities = []
  /-- It carries one OPT record with the client id in option `0xffee`, or nothing. -/
  additionals : match client with
    | none => m.additionals = []
    | some client => ∃ r, m.additionals = [r] ∧ r.owner = [] ∧ r.rtype = 41 ∧
        Dns.options r.rdata = some [(0xffee, client.bytes)]

theorem isQuery_queryContents (client : Option ClientId) (i : ℕ) (n : QueryName) :
    IsQuery client i n (queryContents client i n) where
  id := rfl
  rd := by
    have hflags : (queryContents client i n).header.flags = 0x0100 := rfl
    rw [Dns.Header.rd, hflags]
    decide
  others := by
    have hflags : (queryContents client i n).header.flags = 0x0100 := rfl
    simp only [Dns.Header.qr, Dns.Header.opcode, Dns.Header.aa, Dns.Header.tc, Dns.Header.ra,
      Dns.Header.z, Dns.Header.ad, Dns.Header.cd, Dns.Header.rcode, hflags]
    decide
  questions := rfl
  answers := rfl
  authorities := rfl
  additionals := by
    cases client with
    | none => rfl
    | some client =>
      have hlen : client.bytes.length = 16 := client.length_bytes
      exact ⟨optRecord client, rfl, rfl, rfl,
        Dns.options_encodeOption (by decide) (by rw [hlen]; decide)⟩

/-- The queries for the names of a table. -/
def tableQueries (client : Option ClientId) (ns : List QueryName) (hne : ns ≠ []) (count : ℕ) :
    List (List UInt8) :=
  queryMessages client 0 ((List.range' 0 count).map fun t => (nameOf ns hne t).encode)

theorem length_tableQueries (client : Option ClientId) (ns : List QueryName) (hne : ns ≠ [])
    (count : ℕ) : (tableQueries client ns hne count).length = count := by
  simp [tableQueries]

theorem getElem_tableQueries {client : Option ClientId} {ns : List QueryName} {hne : ns ≠ []}
    {count i : ℕ} (hi : i < (tableQueries client ns hne count).length) :
    (tableQueries client ns hne count)[i] = queryMessage client i (nameOf ns hne i).encode := by
  simp [tableQueries, queryMessages]

theorem length_frames_tableQueries (client : Option ClientId) (ns : List QueryName)
    (hne : ns ≠ []) (count : ℕ) :
    ((tableQueries client ns hne count).flatMap frame).length
      = totalQuerySize client ns hne count := by
  rw [tableQueries, length_frames, List.map_map, totalQuerySize, List.range_eq_range']
  rfl

/-- **The queries are well formed and read back exactly.** -/
theorem makeQueries_wellFormed {names buffer : Block} {ns : List QueryName} (hne : ns ≠ [])
    (htable : NamesTable names ns) (count : ℕ) (client : Option ClientId)
    (hwrap : totalQuerySize client ns hne count < sizeModulus) {malloc : Malloc}
    (halloc : malloc.alloc (totalQuerySize client ns hne count) = some buffer) :
    queriesSize names client count 0 0 = some (totalQuerySize client ns hne count) ∧
      ∃ c messages, writeQueries names client count 0 0 ⟨buffer, 0⟩ = some c ∧
        c.off = totalQuerySize client ns hne count ∧
        makeQueries malloc names count client = some (some c.block) ∧
        readQueries c.block count 0 = some (messages, c.block.size) ∧
        messages.length = count ∧
        ∀ i (hi : i < messages.length), ∃ m,
          Dns.message ⟨messages[i], []⟩ = some (m, messages[i].length) ∧
            IsQuery client i (nameOf ns hne i) m := by
  have hwalk : nameWalk names count 0
      = some ((List.range' 0 count).map fun t => (nameOf ns hne t).encode) := by
    simpa [nameOffset] using htable.nameWalk hne count 0
  rw [← length_frames_tableQueries] at hwrap halloc ⊢
  obtain ⟨htotal, c, hwrite, hoff, hmake⟩ := makeQueries_of_nameWalk hwalk hwrap halloc
  obtain ⟨ws, hws, hholds⟩ := makeQueries_spec hmake
  rw [hwalk, Option.some.injEq] at hws
  subst hws
  have hread := hholds.readQueries
  rw [← tableQueries, length_tableQueries] at hread
  refine ⟨htotal, c, tableQueries client ns hne count, hwrite, hoff, hmake, hread,
    length_tableQueries client ns hne count, fun i hi => ?_⟩
  rw [getElem_tableQueries hi]
  exact ⟨_, message_queryMessage client i _, isQuery_queryContents client i _⟩

/-- The name `a`. -/
def nameA : QueryName where
  labels := [[0x61]]
  ne_nil := by decide
  valid := by simp [Dns.Name.Valid]
  octet_ne_zero := by simp

/-- The name `b.c`. -/
def nameBC : QueryName where
  labels := [[0x62], [0x63]]
  ne_nil := by decide
  valid := by simp [Dns.Name.Valid]
  octet_ne_zero := by simp

/-- A client id. -/
def someClient : ClientId := ⟨List.range clientIdLength |>.map UInt8.ofNat, rfl⟩

/-- Their table. -/
def tableABC : Block := ⟨[1, 0x61, 0, 1, 0x62, 1, 0x63, 0, 0], []⟩

/-- Three queries for two names, with a client id. -/
theorem makeQueries_wellFormed_three :
    queriesSize tableABC (some someClient) 3 0 0
        = some (totalQuerySize (some someClient) [nameA, nameBC] (by decide) 3) ∧
      ∃ c messages, writeQueries tableABC (some someClient) 3 0 0
          ⟨⟨List.replicate (totalQuerySize (some someClient) [nameA, nameBC] (by decide) 3) 0,
            []⟩, 0⟩ = some c ∧
        c.off = totalQuerySize (some someClient) [nameA, nameBC] (by decide) 3 ∧
        makeQueries .zeroed tableABC 3 (some someClient) = some (some c.block) ∧
        readQueries c.block 3 0 = some (messages, c.block.size) ∧
        messages.length = 3 ∧
        ∀ i (hi : i < messages.length), ∃ m,
          Dns.message ⟨messages[i], []⟩ = some (m, messages[i].length) ∧
            IsQuery (some someClient) i (nameOf [nameA, nameBC] (by decide) i) m :=
  makeQueries_wellFormed (by decide) (by rw [NamesTable]; decide) 3 (some someClient) (by decide)
    rfl

end DnsTools
