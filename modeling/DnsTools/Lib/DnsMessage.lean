import DnsTools.Lib.Block

/-!
# The DNS message grammar

A reader for DNS messages: a twelve-byte header, then as many questions, answers, authorities and
additional records as it announces. Names are sequences of labels and may end in a compression
pointer, which must point backwards. Numbers are big-endian.

A reader takes the message and an offset into it and returns what it read with the offset of the
first byte after it, or `none` when the bytes are not in the grammar. For each reader there is an
encoder and one lemma `…_of_holds`: where the message holds the encoding, the reader returns the
encoded value and stops right behind it. A caller that assembled a message from pieces reads it
back with one application per piece.

## What is not checked

The readers impose the grammar only. The bound of 255 octets on a name is the predicate
`Dns.Name.WithinLimit`, and opcodes, types and classes are numbers without an interpretation.
-/

namespace Dns

open Memory Endian

/-! ### Numbers -/

/-- A big-endian number of `w` bytes. -/
def number (w : ℕ) (msg : Block) (off : ℕ) : Option (ℕ × ℕ) :=
  (msg.load off w).map fun bs => (beNat bs, off + w)

theorem number_of_holds {w n : ℕ} {msg : Block} {off : ℕ} (hn : n < 256 ^ w)
    (h : msg.Holds off (beBytes w n)) : number w msg off = some (n, off + w) := by
  have hload := h.load
  rw [length_beBytes] at hload
  rw [number, hload, Option.map_some, beNat_beBytes_of_lt hn]

/-! ### Names -/

/-- A domain name as its labels, without the root. -/
abbrev Name := List (List UInt8)

/-- Every label has between one and 63 octets. -/
def Name.Valid (labels : Name) : Prop := ∀ l ∈ labels, 0 < l.length ∧ l.length ≤ 63

/-- The labels of a name with their length bytes. -/
def Name.encodeLabels (labels : Name) : List UInt8 :=
  labels.flatMap fun l => UInt8.ofNat l.length :: l

/-- A name in full, down to the root label. -/
def Name.encode (labels : Name) : List UInt8 := labels.encodeLabels ++ [0]

/-- A name has at most 255 octets, length bytes and root label included. -/
def Name.WithinLimit (labels : Name) : Prop := labels.encode.length ≤ 255

@[simp] theorem Name.encodeLabels_nil : Name.encodeLabels [] = [] := rfl

@[simp] theorem Name.encodeLabels_cons (l : List UInt8) (labels : Name) :
    Name.encodeLabels (l :: labels) = (UInt8.ofNat l.length :: l) ++ Name.encodeLabels labels :=
  rfl

theorem Name.length_le_encodeLabels (labels : Name) :
    labels.length ≤ labels.encodeLabels.length := by
  induction labels with
  | nil => exact Nat.le_refl _
  | cons l labels ih =>
    simp only [encodeLabels_cons, List.length_append, List.length_cons]
    omega

/-- The length byte of a label. -/
theorem lengthByte {l : List UInt8} (hpos : 0 < l.length) (hle : l.length ≤ 63) :
    (UInt8.ofNat l.length).toNat = l.length ∧ UInt8.ofNat l.length ≠ 0 := by
  have hbyte : (UInt8.ofNat l.length).toNat = l.length := by
    rw [UInt8.toNat_ofNat']
    omega
  refine ⟨hbyte, fun hzero => ?_⟩
  have htoNat := congrArg UInt8.toNat hzero
  rw [hbyte, UInt8.toNat_zero] at htoNat
  omega

/-- A name of proper labels without zero octets has no zero byte in front of its root label. -/
theorem Name.encodeLabels_ne_zero {labels : Name} (hv : labels.Valid)
    (hoctet : ∀ l ∈ labels, ∀ b ∈ l, b ≠ 0) : ∀ b ∈ labels.encodeLabels, b ≠ 0 := by
  intro b hb
  obtain ⟨l, hl, hb⟩ := List.mem_flatMap.mp hb
  obtain ⟨hpos, hle⟩ := hv l hl
  rcases List.mem_cons.mp hb with rfl | hb
  · exact (lengthByte hpos hle).2
  · exact hoctet l hl b hb

/-- Read a name. Each label and each pointer costs one unit of fuel; a message of `n` bytes has
no name that needs more than `n + 1`. -/
def nameFrom (msg : Block) : ℕ → ℕ → Option (Name × ℕ)
  | 0, _ => none
  | fuel + 1, off => do
    let b ← msg.bytes[off]?
    if b = 0 then return ([], off + 1)
    else if b.toNat < 64 then
      let label ← msg.load (off + 1) b.toNat
      let (labels, next) ← nameFrom msg fuel (off + 1 + b.toNat)
      return (label :: labels, next)
    else if 192 ≤ b.toNat then
      let (pointer, next) ← number 2 msg off
      if pointer % 16384 < off then
        let (labels, _) ← nameFrom msg fuel (pointer % 16384)
        return (labels, next)
      else none
    else none

/-- Read a name at an offset. -/
def name (msg : Block) (off : ℕ) : Option (Name × ℕ) := nameFrom msg (msg.size + 1) off

theorem nameFrom_of_holds {msg : Block} {labels : Name} (hv : labels.Valid) :
    ∀ {fuel off : ℕ}, labels.length < fuel → msg.Holds off labels.encode →
      nameFrom msg fuel off = some (labels, off + labels.encode.length) := by
  induction labels with
  | nil =>
    intro fuel off hfuel h
    cases fuel with
    | zero => exact absurd hfuel (Nat.not_lt_zero _)
    | succ fuel =>
      have hroot : msg.bytes[off]? = some 0 := h.getElem? (i := 0) (by decide)
      simp only [nameFrom, hroot, Option.bind_eq_bind, Option.bind_some, if_true]
      rfl
  | cons l labels ih =>
    intro fuel off hfuel h
    cases fuel with
    | zero => exact absurd hfuel (Nat.not_lt_zero _)
    | succ fuel =>
      obtain ⟨hpos, hle⟩ := hv l (List.mem_cons_self ..)
      obtain ⟨hbyte, hne⟩ := lengthByte hpos hle
      rw [Name.encode, Name.encodeLabels_cons, List.append_assoc, Block.holds_append] at h
      obtain ⟨hlabel, hrest⟩ := h
      have hfirst : msg.bytes[off]? = some (UInt8.ofNat l.length) :=
        hlabel.getElem? (i := 0) (by simp)
      have hbody : msg.Holds (off + 1) l :=
        (Block.holds_cons.mp hlabel).2
      rw [List.length_cons, show off + (l.length + 1) = off + 1 + l.length by omega] at hrest
      have hnext := ih (fun l' hl' => hv l' (List.mem_cons_of_mem l hl'))
        (Nat.lt_of_succ_lt_succ hfuel) hrest
      simp only [nameFrom, hfirst, Option.bind_eq_bind, Option.bind_some, hne, if_false, hbyte,
        show l.length < 64 by omega, if_true, hbody.load, hnext]
      simp only [Option.pure_def, Option.some.injEq, Prod.mk.injEq, true_and, Name.encode,
        Name.encodeLabels_cons, List.length_append, List.length_cons]
      omega

theorem name_of_holds {msg : Block} {labels : Name} {off : ℕ} (hv : labels.Valid)
    (h : msg.Holds off labels.encode) :
    name msg off = some (labels, off + labels.encode.length) := by
  refine nameFrom_of_holds hv ?_ h
  have hle := h.le
  have := labels.length_le_encodeLabels
  rw [Name.encode, List.length_append] at hle
  omega

/-- A pointer back to a name in full reads as that name. -/
theorem name_of_pointer {msg : Block} {labels : Name} {off p : ℕ} (hv : labels.Valid)
    (hback : p < off) (hp : p < 16384) (hpointer : msg.Holds off (beBytes 2 (49152 + p)))
    (h : msg.Holds p labels.encode) : name msg off = some (labels, off + 2) := by
  have hnumber : number 2 msg off = some (49152 + p, off + 2) :=
    number_of_holds (by omega) hpointer
  have hfirst : msg.bytes[off]? = some (UInt8.ofNat ((49152 + p) / 256)) :=
    hpointer.getElem? (i := 0) (by simp)
  have hbyte : (UInt8.ofNat ((49152 + p) / 256)).toNat = 192 + p / 256 := by
    rw [UInt8.toNat_ofNat']
    omega
  have hne : UInt8.ofNat ((49152 + p) / 256) ≠ 0 := by
    intro hzero
    have htoNat := congrArg UInt8.toNat hzero
    rw [hbyte, UInt8.toNat_zero] at htoNat
    omega
  have hmod : (49152 + p) % 16384 = p := by omega
  have hfuel : labels.length < msg.size := by
    have hle := h.le
    have := labels.length_le_encodeLabels
    rw [Name.encode, List.length_append, List.length_singleton] at hle
    omega
  rw [name, nameFrom]
  simp only [hfirst, Option.bind_eq_bind, Option.bind_some, hne, if_false, hbyte,
    show ¬192 + p / 256 < 64 by omega, show 192 ≤ 192 + p / 256 by omega, if_true, hnumber, hmod,
    hback, nameFrom_of_holds hv hfuel h]
  rfl

/-! A name that was read, from its first bytes on. -/

section Read

variable {msg : Block} {fuel off next : ℕ} {labels : Name}

/-- A name that begins with a label goes on behind it. -/
theorem nameFrom_label {b : UInt8} (hb : msg.bytes[off]? = some b) (hne : b ≠ 0)
    (hlt : b.toNat < 64) (h : nameFrom msg fuel off = some (labels, next)) :
    ∃ fuel' labels', nameFrom msg fuel' (off + 1 + b.toNat) = some (labels', next) := by
  cases fuel with
  | zero => simp [nameFrom] at h
  | succ fuel =>
    simp only [nameFrom, hb, Option.bind_eq_bind, Option.bind_some, hne, if_false, hlt, if_true,
      Option.bind_eq_some_iff] at h
    obtain ⟨label, -, p, hrest, h⟩ := h
    obtain ⟨-, rfl⟩ := Prod.mk.inj (Option.some.inj h)
    exact ⟨fuel, p.1, hrest⟩

/-- A name that begins with these labels goes on behind them. -/
theorem nameFrom_labels {front : Name} (hv : front.Valid)
    (hfront : msg.Holds off front.encodeLabels)
    (h : nameFrom msg fuel off = some (labels, next)) :
    ∃ fuel' labels', nameFrom msg fuel' (off + front.encodeLabels.length)
      = some (labels', next) := by
  induction front generalizing fuel off labels with
  | nil => exact ⟨fuel, labels, h⟩
  | cons l front ih =>
    obtain ⟨hpos, hle⟩ := hv l (List.mem_cons_self ..)
    obtain ⟨hbyte, hne⟩ := lengthByte hpos hle
    rw [Name.encodeLabels_cons, Block.holds_append] at hfront
    obtain ⟨hlabel, hrest⟩ := hfront
    have hfirst : msg.bytes[off]? = some (UInt8.ofNat l.length) :=
      hlabel.getElem? (i := 0) (by simp)
    obtain ⟨fuel', labels', hnext⟩ := nameFrom_label hfirst hne (by omega) h
    have hoff : off + 1 + l.length = off + (UInt8.ofNat l.length :: l).length := by
      rw [List.length_cons]
      omega
    rw [hbyte, hoff] at hnext
    obtain ⟨fuel'', labels'', hend⟩ :=
      ih (fun l' hl' => hv l' (List.mem_cons_of_mem l hl')) hrest hnext
    refine ⟨fuel'', labels'', ?_⟩
    rw [Name.encodeLabels_cons, List.length_append, ← Nat.add_assoc]
    exact hend

/-- A name takes at least a byte. -/
theorem lt_of_nameFrom (h : nameFrom msg fuel off = some (labels, next)) : off < next := by
  induction fuel generalizing off labels with
  | zero => simp [nameFrom] at h
  | succ fuel ih =>
    simp only [nameFrom, Option.bind_eq_bind, Option.bind_eq_some_iff] at h
    obtain ⟨b, -, h⟩ := h
    split at h
    · obtain ⟨-, rfl⟩ := Prod.mk.inj (Option.some.inj h)
      exact Nat.lt_succ_self off
    · split at h
      · obtain ⟨label, -, h⟩ := Option.bind_eq_some_iff.mp h
        obtain ⟨p, hrest, h⟩ := Option.bind_eq_some_iff.mp h
        obtain ⟨-, rfl⟩ := Prod.mk.inj (Option.some.inj h)
        have := ih hrest
        omega
      · split at h
        · obtain ⟨p, hp, h⟩ := Option.bind_eq_some_iff.mp h
          obtain ⟨bs, -, rfl⟩ := Option.map_eq_some_iff.mp hp
          split at h
          · obtain ⟨q, -, h⟩ := Option.bind_eq_some_iff.mp h
            obtain ⟨-, rfl⟩ := Prod.mk.inj (Option.some.inj h)
            exact Nat.lt_add_of_pos_right Nat.two_pos
          · simp at h
        · simp at h

end Read

/-! ### The header -/

/-- The fields of the header. The flag word is kept whole; its fields are read off it below. -/
structure Header where
  /-- The transaction identifier. -/
  id : ℕ
  /-- The flag word. -/
  flags : ℕ
  /-- The number of questions. -/
  qdcount : ℕ
  /-- The number of answers. -/
  ancount : ℕ
  /-- The number of authority records. -/
  nscount : ℕ
  /-- The number of additional records. -/
  arcount : ℕ
deriving DecidableEq, Repr

namespace Header

/-- The message is a response. -/
def qr (h : Header) : Bool := h.flags.testBit 15
/-- The kind of query. -/
def opcode (h : Header) : ℕ := h.flags / 2 ^ 11 % 16
/-- The answer is authoritative. -/
def aa (h : Header) : Bool := h.flags.testBit 10
/-- The message was truncated. -/
def tc (h : Header) : Bool := h.flags.testBit 9
/-- Recursion is desired. -/
def rd (h : Header) : Bool := h.flags.testBit 8
/-- Recursion is available. -/
def ra (h : Header) : Bool := h.flags.testBit 7
/-- The reserved bit. -/
def z (h : Header) : Bool := h.flags.testBit 6
/-- The data are authenticated. -/
def ad (h : Header) : Bool := h.flags.testBit 5
/-- Checking is disabled. -/
def cd (h : Header) : Bool := h.flags.testBit 4
/-- The response code. -/
def rcode (h : Header) : ℕ := h.flags % 16

/-- The six half words of the header. -/
def encode (h : Header) : List UInt8 :=
  beBytes 2 h.id ++ (beBytes 2 h.flags ++ (beBytes 2 h.qdcount ++
    (beBytes 2 h.ancount ++ (beBytes 2 h.nscount ++ beBytes 2 h.arcount))))

/-- Every field fits its half word. -/
structure Fits (h : Header) : Prop where
  /-- The identifier fits. -/
  id : h.id < 65536
  /-- The flag word fits. -/
  flags : h.flags < 65536
  /-- The number of questions fits. -/
  qdcount : h.qdcount < 65536
  /-- The number of answers fits. -/
  ancount : h.ancount < 65536
  /-- The number of authority records fits. -/
  nscount : h.nscount < 65536
  /-- The number of additional records fits. -/
  arcount : h.arcount < 65536

@[simp] theorem length_encode (h : Header) : h.encode.length = 12 := by simp [encode]

end Header

/-- Read the header. -/
def header (msg : Block) (off : ℕ) : Option (Header × ℕ) := do
  let (id, off) ← number 2 msg off
  let (flags, off) ← number 2 msg off
  let (qdcount, off) ← number 2 msg off
  let (ancount, off) ← number 2 msg off
  let (nscount, off) ← number 2 msg off
  let (arcount, off) ← number 2 msg off
  return ({ id, flags, qdcount, ancount, nscount, arcount }, off)

theorem header_of_holds {msg : Block} {off : ℕ} {h : Header} (hfits : h.Fits)
    (hh : msg.Holds off h.encode) : header msg off = some (h, off + 12) := by
  simp only [Header.encode, Block.holds_append, length_beBytes] at hh
  obtain ⟨hid, hflags, hqd, han, hns, har⟩ := hh
  simp only [header, number_of_holds hfits.id hid, number_of_holds hfits.flags hflags,
    number_of_holds hfits.qdcount hqd, number_of_holds hfits.ancount han,
    number_of_holds hfits.nscount hns, number_of_holds hfits.arcount har, Option.bind_eq_bind,
    Option.bind_some]
  rfl

/-- A message has one header only. -/
theorem Header.eq_of_append_eq {h h' : Header} {tail tail' : List UInt8} (hfits : h.Fits)
    (hfits' : h'.Fits) (heq : h.encode ++ tail = h'.encode ++ tail') : h = h' := by
  have hheader : ∀ {h : Header} {tail : List UInt8}, h.Fits →
      header ⟨h.encode ++ tail, []⟩ 0 = some (h, 0 + 12) := fun hfits =>
    header_of_holds hfits (Block.holds_append.mp (Block.holds_bytes _)).1
  have hsame : header ⟨h.encode ++ tail, []⟩ 0 = some (h, 0 + 12) := hheader hfits
  rw [heq, hheader hfits', Option.some.injEq, Prod.mk.injEq] at hsame
  exact hsame.1.symm

/-- Twelve bytes are a header. -/
theorem exists_header_of_le {bs : List UInt8} (h : 12 ≤ bs.length) :
    ∃ h : Header, h.Fits ∧ bs = h.encode ++ bs.drop 12 := by
  have hpiece : ∀ k, k + 2 ≤ bs.length →
      ∃ n < 65536, bs.drop k = beBytes 2 n ++ bs.drop (k + 2) := by
    intro k hk
    have hlen : ((bs.drop k).take 2).length = 2 := by
      rw [List.length_take, List.length_drop]
      omega
    have hbytes := beBytes_beNat ((bs.drop k).take 2)
    have hlt := beNat_lt ((bs.drop k).take 2)
    rw [hlen] at hbytes hlt
    refine ⟨_, hlt, ?_⟩
    rw [hbytes, ← List.drop_drop, List.take_append_drop]
  obtain ⟨id, hid, h₀⟩ := hpiece 0 (by omega)
  obtain ⟨flags, hflags, h₂⟩ := hpiece 2 (by omega)
  obtain ⟨qdcount, hqdcount, h₄⟩ := hpiece 4 (by omega)
  obtain ⟨ancount, hancount, h₆⟩ := hpiece 6 (by omega)
  obtain ⟨nscount, hnscount, h₈⟩ := hpiece 8 (by omega)
  obtain ⟨arcount, harcount, h₁₀⟩ := hpiece 10 (by omega)
  refine ⟨⟨id, flags, qdcount, ancount, nscount, arcount⟩,
    ⟨hid, hflags, hqdcount, hancount, hnscount, harcount⟩, ?_⟩
  rw [List.drop_zero] at h₀
  simp only [Header.encode, List.append_assoc]
  rw [← h₁₀, ← h₈, ← h₆, ← h₄, ← h₂, ← h₀]

/-! ### Questions -/

/-- An entry of the question section. -/
structure Question where
  /-- The name asked for. -/
  qname : Name
  /-- The type asked for. -/
  qtype : ℕ
  /-- The class asked for. -/
  qclass : ℕ
deriving DecidableEq, Repr

/-- A question with its name in full. -/
def Question.encode (q : Question) : List UInt8 :=
  q.qname.encode ++ (beBytes 2 q.qtype ++ beBytes 2 q.qclass)

/-- Every part of the question can be encoded. -/
structure Question.Fits (q : Question) : Prop where
  /-- The labels have a proper length. -/
  qname : q.qname.Valid
  /-- The type fits its half word. -/
  qtype : q.qtype < 65536
  /-- The class fits its half word. -/
  qclass : q.qclass < 65536

/-- Read a question. -/
def question (msg : Block) (off : ℕ) : Option (Question × ℕ) := do
  let (qname, off) ← name msg off
  let (qtype, off) ← number 2 msg off
  let (qclass, off) ← number 2 msg off
  return ({ qname, qtype, qclass }, off)

theorem question_of_holds {msg : Block} {off : ℕ} {q : Question} (hfits : q.Fits)
    (h : msg.Holds off q.encode) : question msg off = some (q, off + q.encode.length) := by
  simp only [Question.encode, Block.holds_append, length_beBytes] at h
  obtain ⟨hname, htype, hclass⟩ := h
  simp only [question, name_of_holds hfits.qname hname, number_of_holds hfits.qtype htype,
    number_of_holds hfits.qclass hclass, Option.bind_eq_bind, Option.bind_some, Question.encode,
    List.length_append, length_beBytes]
  simp only [Option.pure_def, Nat.add_assoc]

/-- The question behind a header. -/
theorem question_of_append (h : Header) {q : Question} (hfits : q.Fits) (rest : List UInt8) :
    question ⟨h.encode ++ (q.encode ++ rest), []⟩ 12 = some (q, 12 + q.encode.length) := by
  have hholds := Block.holds_bytes ⟨h.encode ++ (q.encode ++ rest), []⟩
  simp only [Block.holds_append, Header.length_encode, Nat.zero_add] at hholds
  exact question_of_holds hfits hholds.2.1

/-- Behind the name of a question that was read are four more bytes. -/
theorem name_of_question {msg : Block} {off next : ℕ} {q : Question}
    (h : question msg off = some (q, next)) :
    ∃ next', name msg off = some (q.qname, next') ∧ next' + 4 ≤ msg.size := by
  simp only [question, number, Option.bind_eq_bind, Option.bind_eq_some_iff,
    Option.map_eq_some_iff] at h
  obtain ⟨⟨qname, off₁⟩, hname, ⟨qtype, off₂⟩, ⟨bs, -, hqtype⟩, ⟨qclass, off₃⟩, ⟨bs', hbs', -⟩,
    h⟩ := h
  obtain ⟨rfl, -⟩ := Prod.mk.inj (Option.some.inj h)
  obtain ⟨-, rfl⟩ := Prod.mk.inj hqtype
  have hle : off₁ + 2 + 2 ≤ msg.size := Block.le_of_load hbs'
  exact ⟨off₁, hname, hle⟩

/-! ### Resource records -/

/-- An entry of one of the three record sections. -/
structure ResourceRecord where
  /-- The name the record is about. -/
  owner : Name
  /-- The type of the data. -/
  rtype : ℕ
  /-- The class of the data. -/
  rclass : ℕ
  /-- The time to live. -/
  ttl : ℕ
  /-- The data. -/
  rdata : List UInt8
deriving DecidableEq, Repr

/-- What follows the owner's name in a record. -/
def ResourceRecord.encodeBody (r : ResourceRecord) : List UInt8 :=
  beBytes 2 r.rtype ++ (beBytes 2 r.rclass ++ (beBytes 4 r.ttl ++
    (beBytes 2 r.rdata.length ++ r.rdata)))

/-- A record with its owner's name in full. -/
def ResourceRecord.encode (r : ResourceRecord) : List UInt8 := r.owner.encode ++ r.encodeBody

/-- Every part of the record behind the owner's name can be encoded. -/
structure ResourceRecord.Fits (r : ResourceRecord) : Prop where
  /-- The type fits its half word. -/
  rtype : r.rtype < 65536
  /-- The class fits its half word. -/
  rclass : r.rclass < 65536
  /-- The time to live fits its word. -/
  ttl : r.ttl < 4294967296
  /-- The length of the data fits its half word. -/
  rdata : r.rdata.length < 65536

/-- Read a resource record. -/
def resourceRecord (msg : Block) (off : ℕ) : Option (ResourceRecord × ℕ) := do
  let (owner, off) ← name msg off
  let (rtype, off) ← number 2 msg off
  let (rclass, off) ← number 2 msg off
  let (ttl, off) ← number 4 msg off
  let (rdlength, off) ← number 2 msg off
  let rdata ← msg.load off rdlength
  return ({ owner, rtype, rclass, ttl, rdata }, off + rdlength)

/-- The owner's name may be written in any way, so long as it reads as that name. -/
theorem resourceRecord_of_holds {msg : Block} {off next : ℕ} {r : ResourceRecord}
    (hfits : r.Fits) (hname : name msg off = some (r.owner, next))
    (h : msg.Holds next r.encodeBody) :
    resourceRecord msg off = some (r, next + r.encodeBody.length) := by
  simp only [ResourceRecord.encodeBody, Block.holds_append, length_beBytes] at h
  obtain ⟨htype, hclass, httl, hlen, hdata⟩ := h
  simp only [resourceRecord, hname, number_of_holds hfits.rtype htype,
    number_of_holds hfits.rclass hclass, number_of_holds hfits.ttl httl,
    number_of_holds hfits.rdata hlen, hdata.load, Option.bind_eq_bind, Option.bind_some,
    ResourceRecord.encodeBody, List.length_append, length_beBytes]
  simp only [Option.pure_def, Nat.add_assoc]

/-! ### Sections -/

/-- Read `n` entries of a section. -/
def entries {α : Type*} (entry : ℕ → Option (α × ℕ)) : ℕ → ℕ → Option (List α × ℕ)
  | 0, off => some ([], off)
  | n + 1, off => do
    let (x, off) ← entry off
    let (xs, off) ← entries entry n off
    return (x :: xs, off)

/-- A section whose entries are encoded back to back is read back. -/
theorem entries_of_holds {α : Type*} {entry : ℕ → Option (α × ℕ)} {encode : α → List UInt8}
    {msg : Block} {xs : List α}
    (hentry : ∀ x ∈ xs, ∀ off, msg.Holds off (encode x) →
      entry off = some (x, off + (encode x).length))
    {off : ℕ} (h : msg.Holds off (xs.flatMap encode)) :
    entries entry xs.length off = some (xs, off + (xs.flatMap encode).length) := by
  induction xs generalizing off with
  | nil => rfl
  | cons x xs ih =>
    rw [List.flatMap_cons, Block.holds_append] at h
    obtain ⟨hx, hxs⟩ := h
    simp only [List.length_cons, entries, hentry x (List.mem_cons_self ..) off hx,
      ih (fun y hy => hentry y (List.mem_cons_of_mem x hy)) hxs, Option.bind_eq_bind,
      Option.bind_some, List.flatMap_cons, List.length_append]
    simp only [Option.pure_def, Nat.add_assoc]

/-! ### Messages -/

/-- A message. -/
structure Message where
  /-- The header. -/
  header : Header
  /-- The question section. -/
  questions : List Question
  /-- The answer section. -/
  answers : List ResourceRecord
  /-- The authority section. -/
  authorities : List ResourceRecord
  /-- The additional section. -/
  additionals : List ResourceRecord
deriving DecidableEq, Repr

/-- Read a message from its first byte on. The offset returned is where it ends. -/
def message (msg : Block) : Option (Message × ℕ) := do
  let (h, off) ← header msg 0
  let (questions, off) ← entries (question msg) h.qdcount off
  let (answers, off) ← entries (resourceRecord msg) h.ancount off
  let (authorities, off) ← entries (resourceRecord msg) h.nscount off
  let (additionals, off) ← entries (resourceRecord msg) h.arcount off
  return ({ header := h, questions, answers, authorities, additionals }, off)

/-- Read a message up to its additional section: the header, the questions, the answers and the
authority records, and the offset at which the additional records begin. -/
def beforeAdditionals (msg : Block) :
    Option (Header × List Question × List ResourceRecord × List ResourceRecord × ℕ) := do
  let (h, off) ← header msg 0
  let (questions, off) ← entries (question msg) h.qdcount off
  let (answers, off) ← entries (resourceRecord msg) h.ancount off
  let (authorities, off) ← entries (resourceRecord msg) h.nscount off
  return (h, questions, answers, authorities, off)

/-- A message with every name in full. -/
def Message.encode (m : Message) : List UInt8 :=
  m.header.encode ++ (m.questions.flatMap Question.encode ++
    (m.answers.flatMap ResourceRecord.encode ++ (m.authorities.flatMap ResourceRecord.encode ++
      m.additionals.flatMap ResourceRecord.encode)))

/-- A record whose owner's name can be encoded as well. -/
structure ResourceRecord.FitsInFull (r : ResourceRecord) : Prop extends r.Fits where
  /-- The labels have a proper length. -/
  owner : r.owner.Valid

/-- Every part of the message can be encoded, and the header announces the sections. -/
structure Message.Fits (m : Message) : Prop where
  /-- The header fits. -/
  header : m.header.Fits
  /-- The number of questions is right. -/
  qdcount : m.header.qdcount = m.questions.length
  /-- The number of answers is right. -/
  ancount : m.header.ancount = m.answers.length
  /-- The number of authority records is right. -/
  nscount : m.header.nscount = m.authorities.length
  /-- The number of additional records is right. -/
  arcount : m.header.arcount = m.additionals.length
  /-- The questions fit. -/
  questions : ∀ q ∈ m.questions, q.Fits
  /-- The answers fit. -/
  answers : ∀ r ∈ m.answers, r.FitsInFull
  /-- The authority records fit. -/
  authorities : ∀ r ∈ m.authorities, r.FitsInFull
  /-- The additional records fit. -/
  additionals : ∀ r ∈ m.additionals, r.FitsInFull

theorem resourceRecord_of_holds_encode {msg : Block} {off : ℕ} {r : ResourceRecord}
    (hfits : r.FitsInFull) (h : msg.Holds off r.encode) :
    resourceRecord msg off = some (r, off + r.encode.length) := by
  rw [ResourceRecord.encode, Block.holds_append] at h
  rw [resourceRecord_of_holds hfits.toFits (name_of_holds hfits.owner h.1) h.2,
    ResourceRecord.encode, List.length_append, Nat.add_assoc]

/-- **Read after write.** An encoded message reads back as itself, up to its last byte. -/
theorem message_of_holds {msg : Block} {m : Message} (hfits : m.Fits)
    (h : msg.Holds 0 m.encode) : message msg = some (m, m.encode.length) := by
  simp only [Message.encode, Block.holds_append, Header.length_encode, Nat.zero_add] at h
  obtain ⟨hheader, hquestions, hanswers, hauthorities, hadditionals⟩ := h
  have hq := entries_of_holds
    (fun q hq _ h => question_of_holds (hfits.questions q hq) h) hquestions
  have han := entries_of_holds
    (fun r hr _ h => resourceRecord_of_holds_encode (hfits.answers r hr) h) hanswers
  have hau := entries_of_holds
    (fun r hr _ h => resourceRecord_of_holds_encode (hfits.authorities r hr) h)
    hauthorities
  have had := entries_of_holds
    (fun r hr _ h => resourceRecord_of_holds_encode (hfits.additionals r hr) h)
    hadditionals
  simp only [message, header_of_holds hfits.header hheader, hfits.qdcount, hfits.ancount,
    hfits.nscount, hfits.arcount, Nat.zero_add, hq, han, hau, had, Option.bind_eq_bind,
    Option.bind_some, Message.encode, List.length_append, Header.length_encode]
  simp only [Option.pure_def, Nat.add_assoc]

/-! ### Options of the OPT pseudo-record -/

/-- Read options, each a code, a length and that many bytes, up to the end of the data. Every
option takes at least one unit of fuel. -/
def optionsFrom (rdata : Block) : ℕ → ℕ → Option (List (ℕ × List UInt8))
  | 0, _ => none
  | fuel + 1, off =>
    if off = rdata.size then some []
    else do
      let (code, off) ← number 2 rdata off
      let (len, off) ← number 2 rdata off
      let value ← rdata.load off len
      let rest ← optionsFrom rdata fuel (off + len)
      return (code, value) :: rest

/-- The options in the data of an OPT record. -/
def options (rdata : List UInt8) : Option (List (ℕ × List UInt8)) :=
  optionsFrom ⟨rdata, []⟩ (rdata.length + 1) 0

/-- An option with its code and length. -/
def encodeOption (option : ℕ × List UInt8) : List UInt8 :=
  beBytes 2 option.1 ++ (beBytes 2 option.2.length ++ option.2)

theorem options_encodeOption {code : ℕ} {value : List UInt8} (hcode : code < 65536)
    (hvalue : value.length < 65536) :
    options (encodeOption (code, value)) = some [(code, value)] := by
  have hholds : Block.Holds ⟨encodeOption (code, value), []⟩ 0 (encodeOption (code, value)) := by
    rw [Block.Holds, Block.load_of_le (by simp [Block.size])]
    simp
  have hsize : Block.size ⟨encodeOption (code, value), []⟩ = 4 + value.length := by
    simp only [Block.size, encodeOption, List.length_append, length_beBytes]
    omega
  simp only [encodeOption, Block.holds_append, length_beBytes] at hholds
  obtain ⟨hc, hl, hv⟩ := hholds
  rw [options, show (encodeOption (code, value)).length = (value.length + 3) + 1 by
    simp only [encodeOption, List.length_append, length_beBytes]; omega]
  simp only [optionsFrom, hsize]
  rw [if_neg (by omega)]
  simp only [encodeOption, number_of_holds hcode hc, number_of_holds hvalue hl, hv.load,
    Option.bind_eq_bind, Option.bind_some]
  simp

end Dns
