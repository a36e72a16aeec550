import DnsTools.Lib.DnsMessage
import DnsTools.Server.Answer

/-!
# The answers are DNS responses

What `make_answer` assembles from masks, offsets and a literal of sixteen bytes, read back by the
DNS message grammar. The masks are applied to a half word in the byte order of the machine, so the
first step is to move them to the byte order of the message, where the bits have their names.

## The masks

The bits of the query that are under the mask `0x7970` are kept: the opcode, RD, Z, AD and CD. All
others are the server's own, QR and AA for an answer, QR and the response code for a refusal. So a
bit of the reply is looked up in one of two places (`testBit_replyFlags_kept`,
`testBit_replyFlags_own`), and each field of the header is one case of these.

## The record

The record is put between the question and what follows it, and its owner is a pointer to offset 12.
There the name of the question begins, whatever the datagram has behind it. What follows is copied
and not read, so it can be anything: the reader is asked for the sections in front of the additional
records only, and where they end.

## Main results

* `beforeAdditionals_answer` — the positive answer of a well-formed query, read back
* `refuses_refusalHeader` — a refusal against its query
* `makeAnswer_correct` — both, for the function on its buffers
-/

namespace DnsTools

open Memory Endian

/-! ### The flags -/

/-- The flag word of a reply in network byte order: the opcode and the bits RD, Z, AD and CD of the
query, and some bits of the server's own. -/
def replyFlags (own flags : ℕ) : ℕ := flags &&& 0x7970 ||| own

/-- The mask the server applies to the half word in memory. -/
theorem leBytes_replyFlags {flags : ℕ} (h : flags < 65536) (own : UInt16) :
    leBytes 2 (0x7079 &&& swap16 (UInt16.ofNat flags) ||| swap16 own).toNat
      = beBytes 2 (replyFlags own.toNat flags) := by
  have hmask : (0x7079 : UInt16) = swap16 0x7970 := by decide
  have hnat : (UInt16.ofNat flags).toNat = flags := by
    rw [UInt16.toNat_ofNat']
    exact Nat.mod_eq_of_lt h
  have hconst : (0x7970 : UInt16).toNat = 0x7970 := rfl
  rw [hmask, ← swap16_and, ← swap16_or, leBytes_swap16, UInt16.toNat_or, UInt16.toNat_and, hnat,
    hconst, Nat.and_comm, replyFlags]

theorem testBit_replyFlags (own flags i : ℕ) :
    (replyFlags own flags).testBit i
      = (flags.testBit i && Nat.testBit 0x7970 i || own.testBit i) := by
  rw [replyFlags, Nat.testBit_or, Nat.testBit_and]

/-- A bit under the mask is kept, if the server does not set it. -/
theorem testBit_replyFlags_kept {own flags i : ℕ} (hmask : Nat.testBit 0x7970 i = true)
    (hown : own.testBit i = false) : (replyFlags own flags).testBit i = flags.testBit i := by
  rw [testBit_replyFlags, hmask, hown, Bool.and_true, Bool.or_false]

/-- Any other bit is the server's own. -/
theorem testBit_replyFlags_own {own flags i : ℕ} (hmask : Nat.testBit 0x7970 i = false) :
    (replyFlags own flags).testBit i = own.testBit i := by
  rw [testBit_replyFlags, hmask, Bool.and_false, Bool.false_or]

theorem replyFlags_lt {own flags : ℕ} (h : flags < 65536) (hown : own < 65536) :
    replyFlags own flags < 65536 :=
  Nat.or_lt_two_pow (n := 16) (Nat.lt_of_le_of_lt Nat.and_le_left h) hown

/-- The opcode of the query is kept. -/
theorem opcode_replyFlags {own : ℕ} (flags : ℕ) (hown : ∀ i < 4, own.testBit (i + 11) = false) :
    replyFlags own flags / 2 ^ 11 % 2 ^ 4 = flags / 2 ^ 11 % 2 ^ 4 := by
  have hmask : ∀ i < 4, Nat.testBit 0x7970 (i + 11) = true := by decide
  refine Nat.eq_of_testBit_eq fun i => ?_
  rw [Nat.testBit_mod_two_pow, Nat.testBit_div_two_pow, Nat.testBit_mod_two_pow,
    Nat.testBit_div_two_pow]
  by_cases hi : i < 4
  · rw [testBit_replyFlags_kept (hmask i hi) (hown i hi)]
  · rw [decide_eq_false hi, Bool.false_and, Bool.false_and]

/-- The response code is the server's own. -/
theorem rcode_replyFlags (own flags : ℕ) : replyFlags own flags % 2 ^ 4 = own % 2 ^ 4 := by
  have hmask : ∀ i < 4, Nat.testBit 0x7970 i = false := by decide
  refine Nat.eq_of_testBit_eq fun i => ?_
  rw [Nat.testBit_mod_two_pow, Nat.testBit_mod_two_pow]
  by_cases hi : i < 4
  · rw [testBit_replyFlags_own (hmask i hi)]
  · rw [decide_eq_false hi, Bool.false_and, Bool.false_and]

/-- The header of a positive answer to a query with the header `h`. -/
structure Answers (h h' : Dns.Header) : Prop where
  /-- The identifier is kept. -/
  id : h'.id = h.id
  /-- So is the opcode, -/
  opcode : h'.opcode = h.opcode
  /-- and whether recursion is desired. -/
  rd : h'.rd = h.rd
  /-- The message is a response, -/
  qr : h'.qr = true
  /-- and authoritative. -/
  aa : h'.aa = true
  /-- It is not truncated. -/
  tc : h'.tc = false
  /-- There is no recursion. -/
  ra : h'.ra = false
  /-- There is no error. -/
  rcode : h'.rcode = 0
  /-- As many additional records are announced. -/
  arcount : h'.arcount = h.arcount

/-- The header of a refusal of a query with the header `h`. -/
structure Refuses (h h' : Dns.Header) : Prop where
  /-- The identifier is kept. -/
  id : h'.id = h.id
  /-- So are the opcode -/
  opcode : h'.opcode = h.opcode
  /-- and the bits RD, -/
  rd : h'.rd = h.rd
  /-- Z, -/
  z : h'.z = h.z
  /-- AD -/
  ad : h'.ad = h.ad
  /-- and CD. -/
  cd : h'.cd = h.cd
  /-- The message is a response, -/
  qr : h'.qr = true
  /-- and not authoritative. -/
  aa : h'.aa = false
  /-- It is not truncated. -/
  tc : h'.tc = false
  /-- There is no recursion. -/
  ra : h'.ra = false
  /-- The query is refused. -/
  rcode : h'.rcode = 5
  /-- All four counts are kept, that of the questions, -/
  qdcount : h'.qdcount = h.qdcount
  /-- of the answers, -/
  ancount : h'.ancount = h.ancount
  /-- of the authority records -/
  nscount : h'.nscount = h.nscount
  /-- and of the additional records. -/
  arcount : h'.arcount = h.arcount

/-- The header of the positive answer: QR and AA are set, and there is one answer. -/
def answerHeader (h : Dns.Header) : Dns.Header :=
  { h with flags := replyFlags 0x8400 h.flags, ancount := 1 }

/-- The header of a refusal: QR is set, and the response code is 5. -/
def refusalHeader (h : Dns.Header) : Dns.Header :=
  { h with flags := replyFlags 0x8005 h.flags }

theorem answers_answerHeader (h : Dns.Header) : Answers h (answerHeader h) where
  id := rfl
  opcode := opcode_replyFlags h.flags (by decide)
  rd := testBit_replyFlags_kept rfl rfl
  qr := testBit_replyFlags_own rfl
  aa := testBit_replyFlags_own rfl
  tc := testBit_replyFlags_own rfl
  ra := testBit_replyFlags_own rfl
  rcode := rcode_replyFlags 0x8400 h.flags
  arcount := rfl

theorem refuses_refusalHeader (h : Dns.Header) : Refuses h (refusalHeader h) where
  id := rfl
  opcode := opcode_replyFlags h.flags (by decide)
  rd := testBit_replyFlags_kept rfl rfl
  z := testBit_replyFlags_kept rfl rfl
  ad := testBit_replyFlags_kept rfl rfl
  cd := testBit_replyFlags_kept rfl rfl
  qr := testBit_replyFlags_own rfl
  aa := testBit_replyFlags_own rfl
  tc := testBit_replyFlags_own rfl
  ra := testBit_replyFlags_own rfl
  rcode := rcode_replyFlags 0x8005 h.flags
  qdcount := rfl
  ancount := rfl
  nscount := rfl
  arcount := rfl

/-! ### The replies as messages -/

/-- The flag word, with the pieces of the message around it. -/
theorem encode_append_flags (h : Dns.Header) (tail : List UInt8) :
    h.encode ++ tail = beBytes 2 h.id ++ (beBytes 2 h.flags ++ (beBytes 2 h.qdcount ++
      (beBytes 2 h.ancount ++ (beBytes 2 h.nscount ++ (beBytes 2 h.arcount ++ tail))))) := by
  simp only [Dns.Header.encode, List.append_assoc]

/-- The number of answers, with the pieces of the message around it. -/
theorem encode_append_ancount (h : Dns.Header) (tail : List UInt8) :
    h.encode ++ tail = (beBytes 2 h.id ++ beBytes 2 h.flags ++ beBytes 2 h.qdcount) ++
      (beBytes 2 h.ancount ++ (beBytes 2 h.nscount ++ (beBytes 2 h.arcount ++ tail))) := by
  simp only [Dns.Header.encode, List.append_assoc]

theorem halfWord_flags {h : Dns.Header} (hfits : h.Fits) (tail : List UInt8) :
    Block.halfWord (h.encode ++ tail) DnsQuery.flags = swap16 (UInt16.ofNat h.flags) := by
  rw [encode_append_flags]
  exact Block.halfWord_append rfl hfits.flags

/-- Other flags stored over those of a header. -/
theorem overwrite_flags {h : Dns.Header} (hfits : h.Fits) (tail : List UInt8) (own : UInt16) :
    Block.overwrite (h.encode ++ tail) DnsQuery.flags
        (leBytes 2 (0x7079 &&& swap16 (UInt16.ofNat h.flags) ||| swap16 own).toNat)
      = ({ h with flags := replyFlags own.toNat h.flags } : Dns.Header).encode ++ tail := by
  rw [leBytes_replyFlags hfits.flags, encode_append_flags, encode_append_flags]
  exact Block.overwrite_append rfl (by rw [length_beBytes, length_beBytes])

/-- The number of answers stored over that of a header. -/
theorem overwrite_ancount (h : Dns.Header) (tail : List UInt8) :
    Block.overwrite (h.encode ++ tail) DnsQuery.answers (leBytes 2 (htons 1).toNat)
      = ({ h with ancount := 1 } : Dns.Header).encode ++ tail := by
  have hone : leBytes 2 (htons 1).toNat = beBytes 2 1 := leBytes_htons 1
  rw [hone, encode_append_ancount, encode_append_ancount]
  exact Block.overwrite_append rfl (by rw [length_beBytes, length_beBytes])

theorem refusal_encode {h : Dns.Header} (hfits : h.Fits) (tail : List UInt8) :
    refusal (h.encode ++ tail)
      = (refusalHeader h).encode ++ tail := by
  have hown : (0x0580 : UInt16) = swap16 0x8005 := by decide
  rw [refusal, halfWord_flags hfits, hown, overwrite_flags hfits]
  rfl

/-- What the server takes for a question ends where the question ends. -/
theorem questionEnd_eq (q : Dns.Question) :
    questionEnd q.qname.encodeLabels.length = 12 + q.encode.length := by
  simp only [questionEnd, sizeofDnsQuery, sizeofShort, Dns.Question.encode, Dns.Name.encode,
    List.length_append, length_beBytes, List.length_singleton]

/-- The positive answer: the header with other flags and one answer, the question, the record, and
the rest of the query. -/
theorem positiveAnswer_eq {h : Dns.Header} (hfits : h.Fits) {n : ℕ} {question : List UInt8}
    (hend : questionEnd n = 12 + question.length) (rest : List UInt8) :
    positiveAnswer (h.encode ++ (question ++ rest)) n
      = (answerHeader h).encode ++ (question ++ (answerRecord ++ rest)) := by
  have hown : (0x0084 : UInt16) = swap16 0x8400 := by decide
  have hlen : (h.encode ++ question).length = 12 + question.length := by
    rw [List.length_append, Dns.Header.length_encode]
  have htake : (h.encode ++ (question ++ rest)).take (12 + question.length)
      = h.encode ++ question := by
    rw [← hlen, ← List.append_assoc, List.take_left]
  have hdrop : (h.encode ++ (question ++ rest)).drop (12 + question.length) = rest := by
    rw [← hlen, ← List.append_assoc, List.drop_left]
  rw [positiveAnswer, answerHead, hend, htake, hdrop, halfWord_flags hfits, hown,
    overwrite_flags hfits, overwrite_ancount]
  simp only [List.append_assoc]
  rfl

theorem positiveAnswer_encode {h : Dns.Header} (hfits : h.Fits) (q : Dns.Question)
    (rest : List UInt8) :
    positiveAnswer (h.encode ++ (q.encode ++ rest)) q.qname.encodeLabels.length
      = (answerHeader h).encode ++
          (q.encode ++ (answerRecord ++ rest)) :=
  positiveAnswer_eq hfits (questionEnd_eq q) rest

/-- The record that `make_answer` appends. -/
def answerOf (q : Dns.Question) : Dns.ResourceRecord :=
  { owner := q.qname, rtype := 1, rclass := 1, ttl := 3600, rdata := [1, 2, 3, 4] }

theorem answerRecord_eq (q : Dns.Question) :
    answerRecord = beBytes 2 (49152 + 12) ++ (answerOf q).encodeBody := by
  simp only [Dns.ResourceRecord.encodeBody, answerOf]
  decide

/-- **The positive answer, read back.** It has the question, one record for the same name, and no
authority records; the additional records begin behind the record. -/
theorem beforeAdditionals_answer {h : Dns.Header} (hfits : h.Fits) (hqd : h.qdcount = 1)
    (han : h.ancount = 1) (hns : h.nscount = 0) {q : Dns.Question} (hq : q.Fits)
    (rest : List UInt8) :
    Dns.beforeAdditionals ⟨h.encode ++ (q.encode ++ (answerRecord ++ rest)), []⟩
      = some (h, [q], [answerOf q], [], 12 + q.encode.length + 16) := by
  have hholds : Block.Holds ⟨h.encode ++ (q.encode ++ (answerRecord ++ rest)), []⟩ 0
      (h.encode ++ (q.encode ++ (answerRecord ++ rest))) := Block.holds_bytes _
  generalize (⟨h.encode ++ (q.encode ++ (answerRecord ++ rest)), []⟩ : Block) = msg at hholds ⊢
  simp only [Block.holds_append, Dns.Header.length_encode, Nat.zero_add] at hholds
  obtain ⟨hheader, hquestion, hrecord, -⟩ := hholds
  have hname : msg.Holds 12 q.qname.encode := by
    rw [Dns.Question.encode, Block.holds_append] at hquestion
    exact hquestion.1
  rw [answerRecord_eq q, Block.holds_append, length_beBytes] at hrecord
  have howner : Dns.name msg (12 + q.encode.length) = _ := Dns.name_of_pointer hq.qname
    (by rw [Dns.Question.encode, Dns.Name.encode]; simp) (by omega) hrecord.1 hname
  have hfits' : (answerOf q).Fits := ⟨show 1 < 65536 by decide, show 1 < 65536 by decide,
    show 3600 < 4294967296 by decide, show 4 < 65536 by decide⟩
  have hbody : (answerOf q).encodeBody.length = 14 := by
    simp only [Dns.ResourceRecord.encodeBody, answerOf]
    decide
  have hanswer := Dns.resourceRecord_of_holds hfits' howner hrecord.2
  rw [hbody] at hanswer
  simp only [Dns.beforeAdditionals, Dns.header_of_holds hfits hheader, hqd, han, hns, Dns.entries,
    Nat.zero_add, Dns.question_of_holds hq hquestion, hanswer, Option.bind_eq_bind,
    Option.bind_some, Option.pure_def]

/-! ### The function -/

/-- The queries that are answered positively: one question for an address, in a header without
other records, an error or the bit that disables checking. -/
structure WellFormedQuery (h : Dns.Header) (q : Dns.Question) : Prop where
  /-- The fields of the header are half words. -/
  header : h.Fits
  /-- There is one question, -/
  qdcount : h.qdcount = 1
  /-- no answer, -/
  ancount : h.ancount = 0
  /-- and no authority record. -/
  nscount : h.nscount = 0
  /-- Checking is not disabled. -/
  cd : h.cd = false
  /-- There is no response code. -/
  rcode : h.rcode = 0
  /-- The labels have one to 63 octets, and the type and the class are half words. -/
  question : q.Fits
  /-- No octet is zero. -/
  octet_ne_zero : ∀ l ∈ q.qname, ∀ b ∈ l, b ≠ 0
  /-- The question is for an address. -/
  qtype : q.qtype = 1

variable {h : Dns.Header} {q : Dns.Question}

/-- The other half words of the header, as the server reads them. -/
theorem halfWord_counts (hfits : h.Fits) (tail : List UInt8) :
    Block.halfWord (h.encode ++ tail) DnsQuery.questions = swap16 (UInt16.ofNat h.qdcount) ∧
      Block.halfWord (h.encode ++ tail) DnsQuery.answers = swap16 (UInt16.ofNat h.ancount) ∧
      Block.halfWord (h.encode ++ tail) DnsQuery.authorities
        = swap16 (UInt16.ofNat h.nscount) := by
  simp only [Dns.Header.encode, List.append_assoc]
  refine ⟨?_, ?_, ?_⟩
  · rw [← List.append_assoc (beBytes 2 h.id)]
    exact Block.halfWord_append (by simp [DnsQuery.questions]) hfits.qdcount
  · rw [← List.append_assoc (beBytes 2 h.id), ← List.append_assoc (beBytes 2 h.id ++ _)]
    exact Block.halfWord_append (by simp [DnsQuery.answers]) hfits.ancount
  · rw [← List.append_assoc (beBytes 2 h.id), ← List.append_assoc (beBytes 2 h.id ++ _),
      ← List.append_assoc (beBytes 2 h.id ++ _ ++ _)]
    exact Block.halfWord_append (by simp [DnsQuery.authorities]) hfits.nscount

/-- Numbers that fit a half word are compared as half words. -/
theorem swap16_eq_iff {n m : ℕ} (hn : n < 65536) (hm : m < 65536) :
    swap16 (UInt16.ofNat n) = swap16 (UInt16.ofNat m) ↔ n = m := by
  constructor
  · intro h
    have heq : UInt16.ofNat n = UInt16.ofNat m := by
      rw [← swap16_swap16 (UInt16.ofNat n), h, swap16_swap16]
    have hnat := congrArg UInt16.toNat heq
    rw [UInt16.toNat_ofNat', UInt16.toNat_ofNat'] at hnat
    omega
  · rintro rfl
    rfl

/-- The flags are tested for the response code and the bit that disables checking. -/
theorem flags_test_iff (hfits : h.Fits) (tail : List UInt8) :
    Block.halfWord (h.encode ++ tail) DnsQuery.flags &&& 0x1f00 = 0 ↔
      h.cd = false ∧ h.rcode = 0 := by
  have hmask : (0x1f00 : UInt16) = swap16 0x001f := by decide
  have hzero : (0 : UInt16) = swap16 (UInt16.ofNat 0) := by decide
  have hlt := hfits.flags
  have hand : UInt16.ofNat h.flags &&& 0x001f = UInt16.ofNat (h.flags % 32) := by
    refine UInt16.toNat_inj.mp ?_
    rw [UInt16.toNat_and, UInt16.toNat_ofNat', UInt16.toNat_ofNat']
    show h.flags % 2 ^ 16 &&& 2 ^ 5 - 1 = _
    rw [Nat.and_two_pow_sub_one_eq_mod]
    omega
  rw [halfWord_flags hfits, hmask, ← swap16_and, hand, hzero,
    swap16_eq_iff (by omega) (by omega), Dns.Header.cd, Dns.Header.rcode,
    Nat.testBit_eq_decide_div_mod_eq, decide_eq_false_iff_not]
  omega

/-- What the server tests in the header. -/
theorem not_headerRefused_iff (hfits : h.Fits) (tail : List UInt8) :
    ¬headerRefused (h.encode ++ tail) ↔
      (h.cd = false ∧ h.rcode = 0) ∧ h.qdcount = 1 ∧ h.ancount = 0 ∧ h.nscount = 0 := by
  have hone : (0x100 : UInt16) = swap16 (UInt16.ofNat 1) := by decide
  have hzero : (0 : UInt16) = swap16 (UInt16.ofNat 0) := by decide
  obtain ⟨hquestions, hanswers, hauthorities⟩ := halfWord_counts hfits tail
  simp only [headerRefused, not_or, ne_eq, not_not, flags_test_iff hfits, hquestions, hanswers,
    hauthorities]
  rw [hone, hzero, swap16_eq_iff hfits.qdcount (by decide), swap16_eq_iff hfits.ancount (by decide),
    swap16_eq_iff hfits.nscount (by decide)]

/-- The header of such a query passes the tests of the server. -/
theorem WellFormedQuery.not_headerRefused (hquery : WellFormedQuery h q) (tail : List UInt8) :
    ¬headerRefused (h.encode ++ tail) :=
  (not_headerRefused_iff hquery.header tail).mpr
    ⟨⟨hquery.cd, hquery.rcode⟩, hquery.qdcount, hquery.ancount, hquery.nscount⟩

/-- The server finds the end of the name. -/
theorem WellFormedQuery.nameLength_eq (hquery : WellFormedQuery h q) (rest : List UInt8) :
    nameLength (h.encode ++ (q.encode ++ rest)) = some q.qname.encodeLabels.length := by
  have hdrop : (h.encode ++ (q.encode ++ rest)).drop sizeofDnsQuery
      = q.qname.encodeLabels ++ [0] ++ (beBytes 2 q.qtype ++ beBytes 2 q.qclass ++ rest) := by
    rw [sizeofDnsQuery, ← h.length_encode, List.drop_left, Dns.Question.encode, Dns.Name.encode,
      List.append_assoc]
  have hholds := Block.holds_bytes
    ⟨q.qname.encodeLabels ++ [0] ++ (beBytes 2 q.qtype ++ beBytes 2 q.qclass ++ rest), []⟩
  rw [nameLength, hdrop]
  exact Block.strlen_of_holds (Block.holds_append.mp hholds).1
    (Dns.Name.encodeLabels_ne_zero hquery.question.qname hquery.octet_ne_zero)

/-- The server finds the type behind it. -/
theorem WellFormedQuery.type_eq (hquery : WellFormedQuery h q) (rest : List UInt8) :
    Block.halfWord (h.encode ++ (q.encode ++ rest))
      (sizeofDnsQuery + (q.qname.encodeLabels.length + 1)) = 0x100 := by
  have hsplit : h.encode ++ (q.encode ++ rest)
      = (h.encode ++ q.qname.encode) ++ (beBytes 2 q.qtype ++ (beBytes 2 q.qclass ++ rest)) := by
    simp only [Dns.Question.encode, List.append_assoc]
  rw [hsplit, Block.halfWord_append _ hquery.question.qtype, hquery.qtype]
  · decide
  · rw [List.length_append, Dns.Header.length_encode, Dns.Name.encode, List.length_append,
      List.length_singleton, sizeofDnsQuery]

/-- What a well-formed query is answered with. -/
theorem WellFormedQuery.answerFor_eq (hquery : WellFormedQuery h q) (rest : List UInt8) :
    answerFor (h.encode ++ (q.encode ++ rest))
      = some ((answerHeader h).encode ++
          (q.encode ++ (answerRecord ++ rest))) := by
  have hlen : (h.encode ++ (q.encode ++ rest)).length = 12 + q.encode.length + rest.length := by
    rw [List.length_append, List.length_append, Dns.Header.length_encode]
    omega
  rw [answerFor_of_nameLength (by rw [hlen, sizeofDnsQuery]; omega)
    (hquery.not_headerRefused _) (hquery.nameLength_eq rest), questionEnd_eq,
    if_neg (by omega), hquery.type_eq rest, if_neg (by decide),
    positiveAnswer_encode hquery.header]

/-- The answer of a well-formed query, on the buffers of the server. -/
theorem makeAnswer_of_wellFormedQuery {query answer : Block} (hquery : WellFormedQuery h q)
    {rest : List UInt8} (hholds : query.Holds 0 (h.encode ++ (q.encode ++ rest)))
    (hroom : (h.encode ++ (q.encode ++ rest)).length + 16 ≤ answer.size) :
    ∃ answer' m h',
      makeAnswer query (h.encode ++ (q.encode ++ rest)).length answer
        = some (some (answer', (h.encode ++ (q.encode ++ rest)).length + 16)) ∧
      answer'.load 0 ((h.encode ++ (q.encode ++ rest)).length + 16) = some m ∧
      Dns.beforeAdditionals ⟨m, []⟩
        = some (h', [q], [answerOf q], [], 12 + q.encode.length + 16) ∧
      m.drop (12 + q.encode.length + 16) = rest ∧ Answers h h' := by
  have hanswer := hquery.answerFor_eq rest
  have houtcome := makeAnswer_outcome hholds hroom
  revert houtcome
  generalize makeAnswer query _ answer = r
  intro houtcome
  cases houtcome with
  | failed hnone => simp [hnone] at hanswer
  | undefined hnone => simp [hnone] at hanswer
  | @answered m hsome answer' hholds' _ =>
    obtain rfl := Option.some.inj (hanswer.symm.trans hsome)
    have hfits : (answerHeader h).Fits :=
      { hquery.header with
        flags := replyFlags_lt hquery.header.flags (by decide)
        ancount := show 1 < 65536 by decide }
    have hrecord : answerRecord.length = 16 := rfl
    have hlen : ((answerHeader h).encode
        ++ (q.encode ++ (answerRecord ++ rest))).length
        = (h.encode ++ (q.encode ++ rest)).length + 16 := by
      simp only [List.length_append, Dns.Header.length_encode, hrecord]
      omega
    refine ⟨answer', _, _, by rw [hlen], ?_,
      beforeAdditionals_answer hfits hquery.qdcount rfl hquery.nscount hquery.question rest, ?_,
      answers_answerHeader h⟩
    · rw [← hlen]
      exact hholds'.load
    · have hend : 12 + q.encode.length + 16
          = ((answerHeader h).encode
            ++ (q.encode ++ answerRecord)).length := by
        simp only [List.length_append, Dns.Header.length_encode, hrecord]
        omega
      rw [hend, ← List.append_assoc q.encode, ← List.append_assoc]
      exact List.drop_left

/-- A refusal, on the buffers of the server. -/
theorem makeAnswer_of_refused {query answer : Block} {d : List UInt8} (hholds : query.Holds 0 d)
    (hroom : d.length + 16 ≤ answer.size)
    (hrefused : makeAnswer query d.length answer
      = some <$> makeRefusedAnswer query d.length answer) :
    ∃ answer' m h h', makeAnswer query d.length answer = some (some (answer', d.length)) ∧
      answer'.load 0 d.length = some m ∧ Dns.header ⟨d, []⟩ 0 = some (h, 12) ∧
      Dns.header ⟨m, []⟩ 0 = some (h', 12) ∧ m.drop 12 = d.drop 12 ∧ Refuses h h' := by
  have hlong : sizeofDnsQuery ≤ d.length := by
    by_contra hshort
    rw [makeAnswer, if_pos (Nat.lt_of_not_le hshort)] at hrefused
    cases hmake : makeRefusedAnswer query d.length answer with
    | none => simp [hmake] at hrefused
    | some result => simp [hmake] at hrefused
  obtain ⟨answer', hmake, hholds', -⟩ := makeRefusedAnswer_of_holds hholds hlong
    (show d.length ≤ answer.size by omega)
  obtain ⟨h, hfits, hd⟩ := Dns.exists_header_of_le hlong
  have hfits' : (refusalHeader h).Fits :=
    { hfits with flags := replyFlags_lt hfits.flags (by decide) }
  have hlen := length_refusal hlong
  have hrefusal : refusal d
      = (refusalHeader h).encode ++ d.drop 12 := by
    rw [hd, refusal_encode hfits, ← hd]
  have hheader : ∀ {h : Dns.Header} {bs tail : List UInt8}, h.Fits → bs = h.encode ++ tail →
      Dns.header ⟨bs, []⟩ 0 = some (h, 12) := by
    rintro h bs tail hfits rfl
    exact Dns.header_of_holds hfits (Block.holds_append.mp (Block.holds_bytes _)).1
  refine ⟨answer', refusal d, h, _, ?_, ?_, hheader hfits hd, hheader hfits' hrefusal, ?_,
    refuses_refusalHeader h⟩
  · rw [hrefused, hmake, hlen]
    rfl
  · rw [← hlen]
    exact hholds'.load
  · rw [hrefusal]
    exact List.drop_left' (Dns.Header.length_encode _)

/-- **The stub server's answers are correct.** For a well-formed query, whatever follows its
question, `make_answer` returns `0` with a message sixteen bytes longer that reads as a positive
answer and ends with what followed the question. Whenever it refuses instead, the message is the
query with the flags of a refusal. -/
theorem makeAnswer_correct :
    (∀ (query answer : Block) (h : Dns.Header) (q : Dns.Question) (rest : List UInt8),
      WellFormedQuery h q → query.Holds 0 (h.encode ++ (q.encode ++ rest)) →
      (h.encode ++ (q.encode ++ rest)).length + 16 ≤ answer.size →
      ∃ answer' m h',
        makeAnswer query (h.encode ++ (q.encode ++ rest)).length answer
          = some (some (answer', (h.encode ++ (q.encode ++ rest)).length + 16)) ∧
        answer'.load 0 ((h.encode ++ (q.encode ++ rest)).length + 16) = some m ∧
        Dns.beforeAdditionals ⟨m, []⟩
          = some (h', [q], [answerOf q], [], 12 + q.encode.length + 16) ∧
        m.drop (12 + q.encode.length + 16) = rest ∧ Answers h h') ∧
    ∀ (query answer : Block) (d : List UInt8), query.Holds 0 d →
      d.length + 16 ≤ answer.size →
      makeAnswer query d.length answer = some <$> makeRefusedAnswer query d.length answer →
      ∃ answer' m h h', makeAnswer query d.length answer = some (some (answer', d.length)) ∧
        answer'.load 0 d.length = some m ∧ Dns.header ⟨d, []⟩ 0 = some (h, 12) ∧
        Dns.header ⟨m, []⟩ 0 = some (h', 12) ∧ m.drop 12 = d.drop 12 ∧ Refuses h h' :=
  ⟨fun _ _ _ _ _ hquery hholds hroom => makeAnswer_of_wellFormedQuery hquery hholds hroom,
    fun _ _ _ hholds hroom hrefused => makeAnswer_of_refused hholds hroom hrefused⟩

/-- A query for the address of `a.b`, with an OPT record. -/
def optQuery : List UInt8 :=
  [0, 7, 1, 32, 0, 1, 0, 0, 0, 0, 0, 1, 1, 97, 1, 98, 0, 0, 1, 0, 1, 0, 0, 41, 16, 0, 0, 0, 0, 0, 0,
    0]

/-- A message with two questions. -/
def twoQuestions : List UInt8 :=
  [0, 9, 1, 0, 0, 2, 0, 0, 0, 0, 0, 0, 1, 97, 0, 0, 1, 0, 1, 1, 98, 0, 0, 1, 0, 1]

/-- The first is answered, with its OPT record behind the answer, and the second is refused. -/
theorem makeAnswer_correct_two :
    (∃ answer' m h',
      makeAnswer ⟨optQuery, []⟩ 32 ⟨List.replicate 48 0, []⟩ = some (some (answer', 48)) ∧
      answer'.load 0 48 = some m ∧
      Dns.beforeAdditionals ⟨m, []⟩
        = some (h', [⟨[[97], [98]], 1, 1⟩], [answerOf ⟨[[97], [98]], 1, 1⟩], [], 37) ∧
      m.drop 37 = [0, 0, 41, 16, 0, 0, 0, 0, 0, 0, 0] ∧ Answers ⟨7, 288, 1, 0, 0, 1⟩ h') ∧
    ∃ answer' m h h',
      makeAnswer ⟨twoQuestions, []⟩ 26 ⟨List.replicate 42 0, []⟩ = some (some (answer', 26)) ∧
      answer'.load 0 26 = some m ∧ Dns.header ⟨twoQuestions, []⟩ 0 = some (h, 12) ∧
      Dns.header ⟨m, []⟩ 0 = some (h', 12) ∧ m.drop 12 = twoQuestions.drop 12 ∧
      Refuses h h' :=
  ⟨makeAnswer_correct.1 ⟨optQuery, []⟩ _
      ⟨7, 288, 1, 0, 0, 1⟩ ⟨[[97], [98]], 1, 1⟩ [0, 0, 41, 16, 0, 0, 0, 0, 0, 0, 0]
      { header := ⟨by decide, by decide, by decide, by decide, by decide, by decide⟩
        qdcount := rfl
        ancount := rfl
        nscount := rfl
        cd := rfl
        rcode := rfl
        question := ⟨by simp [Dns.Name.Valid], by decide, by decide⟩
        octet_ne_zero := by simp
        qtype := rfl }
      rfl (by decide),
    makeAnswer_correct.2 ⟨twoQuestions, []⟩ _ twoQuestions rfl (by decide) rfl⟩

end DnsTools
