import DnsTools.Server.AnswerCorrect

/-!
# Which datagrams get a positive answer

The server is to answer standard queries for an IPv4 address, and nothing else, with its record.
What it tests are the response code, the bit CD and three of the counts of the header, and the
type behind the first zero byte. It tests neither QR nor the opcode, so that a response or an
update is answered as a query is, nor the class and the labels of the name.

## What counts as an answer

What it should do is stated with two notions. A datagram that is no standard query should not get a
reply that is `Positive`, whatever else is in it; a standard query should get one that
`CarriesRecord`, which can be read as an answer to its question. With the name ending at the first
zero byte the record may come to lie inside the question, and such a reply is positive and carries
nothing. Both notions are about the bytes of the messages, and not about how the reply was made.

## Main results

* `positive_of_answerFor` — which replies are positive
* `CarriesRecord.read` — what a reader finds in a reply that carries the record
* `not_carriesRecord_of_zero` — no reply does if a label has a zero byte
* `positive_iff_standard_iff` — the datagrams that are answered as they should be
-/

namespace DnsTools

open Memory Endian

/-! ### Standard queries -/

/-- A query for an IPv4 address, apart from the parts of the header that the server tests. -/
structure AsksForAddress (h : Dns.Header) (q : Dns.Question) : Prop where
  /-- The fields of the header are half words. -/
  header : h.Fits
  /-- The message is a query, -/
  qr : h.qr = false
  /-- and a standard one. -/
  opcode : h.opcode = 0
  /-- The labels have one to 63 octets, and the type and the class are half words. -/
  question : q.Fits
  /-- The name has at most 255 octets. -/
  limit : q.qname.WithinLimit
  /-- The question is for an address -/
  qtype : q.qtype = 1
  /-- in the Internet. -/
  qclass : q.qclass = 1

/-- A standard query for an IPv4 address. -/
structure StandardQuery (h : Dns.Header) (q : Dns.Question) : Prop extends AsksForAddress h q where
  /-- There is no response code. -/
  rcode : h.rcode = 0
  /-- Checking is not disabled. -/
  cd : h.cd = false
  /-- There is one question, -/
  qdcount : h.qdcount = 1
  /-- no answer, -/
  ancount : h.ancount = 0
  /-- and no authority record. -/
  nscount : h.nscount = 0

/-- The datagram begins with a header and a question such that this holds. -/
def Begins (P : Dns.Header → Dns.Question → Prop) (d : List UInt8) : Prop :=
  ∃ h q rest, P h q ∧ d = h.encode ++ (q.encode ++ rest)

/-- With a header that passes the tests of the server, such a query is a standard one. -/
theorem AsksForAddress.standardQuery {h : Dns.Header} {q : Dns.Question} {tail : List UInt8}
    (hasks : AsksForAddress h q) (hheader : ¬headerRefused (h.encode ++ tail)) :
    StandardQuery h q := by
  obtain ⟨⟨hcd, hrcode⟩, hqdcount, hancount, hnscount⟩ :=
    (not_headerRefused_iff hasks.header _).mp hheader
  exact ⟨hasks, hrcode, hcd, hqdcount, hancount, hnscount⟩

theorem begins_standardQuery_iff {d : List UInt8} (hheader : ¬headerRefused d) :
    Begins StandardQuery d ↔ Begins AsksForAddress d := by
  constructor
  · rintro ⟨h, q, rest, hquery, rfl⟩
    exact ⟨h, q, rest, hquery.toAsksForAddress, rfl⟩
  · rintro ⟨h, q, rest, hasks, rfl⟩
    exact ⟨h, q, rest, hasks.standardQuery hheader, rfl⟩

/-- A standard query passes the tests of the header. -/
theorem not_headerRefused_of_begins {d : List UInt8} (h : Begins StandardQuery d) :
    ¬headerRefused d := by
  obtain ⟨h, q, rest, hquery, rfl⟩ := h
  exact (not_headerRefused_iff hquery.header _).mpr
    ⟨⟨hquery.cd, hquery.rcode⟩, hquery.qdcount, hquery.ancount, hquery.nscount⟩

theorem StandardQuery.wellFormedQuery {h : Dns.Header} {q : Dns.Question}
    (hquery : StandardQuery h q) (hzero : ∀ l ∈ q.qname, 0 ∉ l) : WellFormedQuery h q where
  header := hquery.header
  qdcount := hquery.qdcount
  ancount := hquery.ancount
  nscount := hquery.nscount
  cd := hquery.cd
  rcode := hquery.rcode
  question := hquery.question
  octet_ne_zero := fun l hl _ hb hb0 => hzero l hl (hb0 ▸ hb)
  qtype := hquery.qtype

/-! ### Positive replies

`Positive` is what a resolver sees in the header. `CarriesRecord` asks for the record as well, where
a reader of the message looks for it: behind the question, which has to be the whole question of the
datagram. The two differ where the server takes a zero byte in a label for the end of the name and
puts the record into the middle of it. -/

/-- The reply reports no error and announces an answer. -/
def Positive (reply : List UInt8) : Prop :=
  ∃ (h : Dns.Header) (tail : List UInt8), h.Fits ∧ h.rcode = 0 ∧ h.ancount ≠ 0 ∧
    reply = h.encode ++ tail

/-- The reply reports no error, repeats the question of the datagram, and has the record behind the
whole of it as its one answer. -/
def CarriesRecord (d reply : List UInt8) : Prop :=
  ∃ (h h' : Dns.Header) (q : Dns.Question) (rest rest' : List UInt8), h.Fits ∧ h'.Fits ∧ q.Fits ∧
    d = h.encode ++ (q.encode ++ rest) ∧ h'.rcode = 0 ∧ h'.qdcount = 1 ∧ h'.ancount = 1 ∧
    h'.nscount = 0 ∧ reply = h'.encode ++ (q.encode ++ (answerRecord ++ rest'))

theorem CarriesRecord.positive {d reply : List UInt8} (h : CarriesRecord d reply) :
    Positive reply := by
  obtain ⟨-, h', -, -, -, -, hfits, -, -, hrcode, -, hancount, -, rfl⟩ := h
  exact ⟨h', _, hfits, hrcode, by omega, rfl⟩

/-- **A reply that carries the record, read back**: it has the question that is read in the
datagram, and the record for the name asked for. -/
theorem CarriesRecord.read {d reply : List UInt8} (h : CarriesRecord d reply) :
    ∃ h' q next off, Dns.question ⟨d, []⟩ 12 = some (q, next) ∧
      Dns.beforeAdditionals ⟨reply, []⟩ = some (h', [q], [answerOf q], [], off) ∧
      h'.rcode = 0 := by
  obtain ⟨h, h', q, rest, rest', -, hfits', hq, rfl, hrcode, hqdcount, hancount, hnscount, rfl⟩ := h
  exact ⟨h', q, _, _, Dns.question_of_append h hq rest,
    beforeAdditionals_answer hfits' hqdcount hancount hnscount hq rest', hrcode⟩

/-- A refusal is not positive. -/
theorem not_positive_refusal {d : List UInt8} (hlong : sizeofDnsQuery ≤ d.length) :
    ¬Positive (refusal d) := by
  obtain ⟨h, hfits, hd⟩ := Dns.exists_header_of_le hlong
  have hfits' : (refusalHeader h).Fits :=
    { hfits with flags := replyFlags_lt hfits.flags (by decide) }
  rintro ⟨h', tail, hfits'', hrcode, -, hreply⟩
  rw [hd, refusal_encode hfits] at hreply
  obtain rfl := Dns.Header.eq_of_append_eq hfits' hfits'' hreply
  rw [(refuses_refusalHeader h).rcode] at hrcode
  exact absurd hrcode (by decide)

theorem fits_answerHeader {h : Dns.Header} (hfits : h.Fits) : (answerHeader h).Fits :=
  { hfits with
    flags := replyFlags_lt hfits.flags (by decide)
    ancount := show 1 < 65536 by decide }

/-- A positive answer, piece by piece: another header, what was taken for the question, the record,
and the rest of the datagram. -/
theorem exists_positiveAnswer_eq {d : List UInt8} {n : ℕ} (hend : questionEnd n ≤ d.length) :
    ∃ (h : Dns.Header) (question rest : List UInt8), h.Fits ∧
      d.drop sizeofDnsQuery = question ++ rest ∧ question.length = n + 5 ∧
      positiveAnswer d n = (answerHeader h).encode ++ (question ++ (answerRecord ++ rest)) := by
  rw [questionEnd, sizeofDnsQuery, sizeofShort] at hend
  obtain ⟨h, hfits, hd⟩ := Dns.exists_header_of_le (show 12 ≤ d.length by omega)
  have hlen : ((d.drop 12).take (n + 5)).length = n + 5 := by
    rw [List.length_take, List.length_drop]
    omega
  refine ⟨h, (d.drop 12).take (n + 5), (d.drop 12).drop (n + 5), hfits,
    (List.take_append_drop ..).symm, hlen, ?_⟩
  have hquestion : questionEnd n = 12 + ((d.drop 12).take (n + 5)).length := by
    rw [hlen]
    rfl
  have hanswer := positiveAnswer_eq hfits hquestion ((d.drop 12).drop (n + 5))
  rw [List.take_append_drop, ← hd] at hanswer
  exact hanswer

theorem positive_positiveAnswer {d : List UInt8} {n : ℕ} (hend : questionEnd n ≤ d.length) :
    Positive (positiveAnswer d n) := by
  obtain ⟨h, question, rest, hfits, -, -, hanswer⟩ := exists_positiveAnswer_eq hend
  exact ⟨_, _, fits_answerHeader hfits, (answers_answerHeader h).rcode, Nat.one_ne_zero, hanswer⟩

/-! ### A zero byte in a label -/

/-- The end of the name is not behind any zero byte. -/
theorem nameLength_le {d xs ys : List UInt8} {n : ℕ}
    (hd : d.drop sizeofDnsQuery = xs ++ 0 :: ys) (hname : nameLength d = some n) :
    n ≤ xs.length := by
  rw [nameLength, hd, List.findIdx?_eq_some_iff_getElem] at hname
  obtain ⟨_, _, hfirst⟩ := hname
  by_contra hlt
  have hzero := hfirst xs.length (Nat.lt_of_not_le hlt)
  simp at hzero

/-- A record whose first byte occurs in it only once is moved past some bytes, and the whole is the
same: then there are none, or they end with the record. -/
theorem suffix_of_moved {b : UInt8} {bs : List UInt8} (hb : b ∉ bs) {xs ys : List UInt8} :
    ∀ {cs : List UInt8}, cs ++ (b :: bs ++ xs) = b :: bs ++ (cs ++ ys) →
      cs = [] ∨ b :: bs <:+ cs := by
  intro cs
  induction hn : cs.length using Nat.strong_induction_on generalizing cs with
  | h n ih =>
    intro h
    rcases List.append_eq_append_iff.mp h with ⟨as, has, hrest⟩ | ⟨as, rfl, hrest⟩
    · -- the bytes are a first part of the record
      rcases cs with _ | ⟨c, cs⟩
      · exact Or.inl rfl
      rcases as with _ | ⟨a, as⟩
      · exact Or.inr ⟨[], by rw [has, List.append_nil, List.nil_append]⟩
      · -- its first byte would occur in it again
        obtain ⟨rfl, hbs⟩ := List.cons_eq_cons.mp has
        obtain ⟨rfl, -⟩ := List.cons_eq_cons.mp hrest
        exact absurd (hbs ▸ List.mem_append_right _ List.mem_cons_self) hb
    · -- the record is a first part of the bytes
      rw [List.append_assoc] at hrest
      have hless : as.length < n := by
        rw [← hn, List.length_append, List.length_cons]
        omega
      rcases ih as.length hless rfl hrest.symm with rfl | hsuffix
      · exact Or.inr ⟨[], by simp⟩
      · exact Or.inr (hsuffix.trans (List.suffix_append ..))

/-- No question ends with the record: in front of its last four bytes is a zero. -/
theorem not_answerRecord_suffix (q : Dns.Question) : ¬answerRecord <:+ q.encode := by
  rintro ⟨front, h⟩
  have hsplit : (front ++ [0xc0, 0x0c, 0, 1, 0, 1, 0, 0, 14, 16, 0]) ++ [4, 1, 2, 3, 4]
      = q.qname.encodeLabels ++ ([0] ++ (beBytes 2 q.qtype ++ beBytes 2 q.qclass)) := by
    rw [List.append_assoc, ← List.append_assoc q.qname.encodeLabels]
    exact h
  obtain ⟨-, hend⟩ := List.append_inj' hsplit (by simp)
  simp at hend

/-- If the reply carries the record, the name ends where the server saw it end. -/
theorem CarriesRecord.length_eq {d : List UInt8} {n : ℕ} (hend : questionEnd n ≤ d.length)
    (hname : nameLength d = some n) (h : CarriesRecord d (positiveAnswer d n)) :
    ∃ (h : Dns.Header) (q : Dns.Question) (rest : List UInt8), q.Fits ∧
      d = h.encode ++ (q.encode ++ rest) ∧ q.qname.encodeLabels.length = n := by
  obtain ⟨h₁, question, tail, hfits₁, hdrop, hlen, hanswer⟩ := exists_positiveAnswer_eq hend
  obtain ⟨h, h', q, rest, rest', hfits, hfits', hq, hd, -, -, -, -, hreply⟩ := h
  refine ⟨h, q, rest, hq, hd, ?_⟩
  rw [hanswer] at hreply
  obtain rfl := Dns.Header.eq_of_append_eq (fits_answerHeader hfits₁) hfits' hreply
  replace hreply := List.append_cancel_left hreply
  have hdrop' : d.drop sizeofDnsQuery = q.encode ++ rest := by
    rw [hd, sizeofDnsQuery]
    exact List.drop_left' h.length_encode
  have hlength : q.encode.length = q.qname.encodeLabels.length + 5 := by
    simp [Dns.Question.encode, Dns.Name.encode]
  have hle : n ≤ q.qname.encodeLabels.length := by
    have hzero : d.drop sizeofDnsQuery =
        q.qname.encodeLabels ++ 0 :: (beBytes 2 q.qtype ++ beBytes 2 q.qclass ++ rest) := by
      rw [hdrop', Dns.Question.encode, Dns.Name.encode]
      simp
    exact nameLength_le hzero hname
  -- what the server took for the question is a first part of it
  obtain ⟨more, hmore⟩ : question <+: q.encode := by
    have hfirst : question <+: d.drop sizeofDnsQuery := hdrop ▸ List.prefix_append ..
    have hwhole : q.encode <+: d.drop sizeofDnsQuery := hdrop' ▸ List.prefix_append ..
    exact List.prefix_of_prefix_length_le hfirst hwhole (by omega)
  have htail : tail = more ++ rest := by
    rw [hdrop, ← hmore, List.append_assoc] at hdrop'
    exact List.append_cancel_left hdrop'
  rw [← hmore, List.append_assoc, htail] at hreply
  have hmoved := (List.append_cancel_left hreply).symm
  rcases suffix_of_moved (by decide) hmoved with rfl | hsuffix
  · rw [List.append_nil] at hmore
    rw [← hmore] at hlength
    omega
  · exact absurd (hsuffix.trans ⟨question, hmore⟩) (not_answerRecord_suffix q)

/-- A name that has a zero byte in a label does not end where the server sees it end. -/
theorem nameLength_lt_of_zero {h : Dns.Header} {q : Dns.Question} {rest : List UInt8} {n : ℕ}
    (hzero : ∃ l ∈ q.qname, 0 ∈ l)
    (hname : nameLength (h.encode ++ (q.encode ++ rest)) = some n) :
    n < q.qname.encodeLabels.length := by
  obtain ⟨l, hl, hzero⟩ := hzero
  have hmem : (0 : UInt8) ∈ q.qname.encodeLabels :=
    List.mem_flatMap.mpr ⟨l, hl, List.mem_cons_of_mem _ hzero⟩
  obtain ⟨xs, ys, hsplit⟩ := List.mem_iff_append.mp hmem
  have hle : n ≤ xs.length := by
    have hfirst : (h.encode ++ (q.encode ++ rest)).drop sizeofDnsQuery =
        xs ++ 0 :: (ys ++ [0] ++ (beBytes 2 q.qtype ++ beBytes 2 q.qclass ++ rest)) := by
      rw [sizeofDnsQuery, List.drop_left' h.length_encode, Dns.Question.encode, Dns.Name.encode,
        hsplit]
      simp
    exact nameLength_le hfirst hname
  rw [hsplit, List.length_append, List.length_cons]
  omega

/-- So the reply to such a query does not carry the record. -/
theorem not_carriesRecord_of_zero {h : Dns.Header} {q : Dns.Question} {rest : List UInt8} {n : ℕ}
    (hq : q.Fits) (hzero : ∃ l ∈ q.qname, 0 ∈ l)
    (hend : questionEnd n ≤ (h.encode ++ (q.encode ++ rest)).length)
    (hname : nameLength (h.encode ++ (q.encode ++ rest)) = some n) :
    ¬CarriesRecord (h.encode ++ (q.encode ++ rest))
      (positiveAnswer (h.encode ++ (q.encode ++ rest)) n) := by
  intro hcarries
  obtain ⟨h', q', rest', hq', hd, hlen⟩ := hcarries.length_eq hend hname
  have hread := Dns.question_of_append h hq rest
  rw [hd, Dns.question_of_append h' hq' rest', Option.some.injEq, Prod.mk.injEq] at hread
  obtain ⟨rfl, -⟩ := hread
  have hlt := nameLength_lt_of_zero hzero hname
  omega

/-! ### What the server looks at -/

/-- The type behind the first zero byte behind the header is A. -/
def TypeIsA (d : List UInt8) : Prop :=
  ∃ n, nameLength d = some n ∧ Block.halfWord d (sizeofDnsQuery + (n + 1)) = 0x100

/-- **Which replies are positive**: those to datagrams whose header passes the tests and whose type
is A. -/
theorem positive_of_answerFor {d m : List UInt8} (h : answerFor d = some m) :
    Positive m ↔ ¬headerRefused d ∧ TypeIsA d := by
  rw [answerFor] at h
  split at h
  · simp at h
  rename_i hshort
  have hlong := Nat.not_lt.mp hshort
  split at h
  · rename_i hheader
    rw [← Option.some.inj h]
    exact iff_of_false (not_positive_refusal hlong) fun hnot => hnot.1 hheader
  rename_i hheader
  split at h
  · simp at h
  rename_i n hname
  split at h
  · simp at h
  rename_i hend
  split at h
  · rename_i htype
    rw [← Option.some.inj h]
    refine iff_of_false (not_positive_refusal hlong) ?_
    rintro ⟨-, n', hname', htype'⟩
    obtain rfl := Option.some.inj (hname.symm.trans hname')
    exact htype htype'
  · rename_i htype
    rw [← Option.some.inj h]
    exact iff_of_true (positive_positiveAnswer (Nat.not_lt.mp hend))
      ⟨hheader, n, hname, not_not.mp htype⟩

/-- A positive reply is the datagram with another header and the record put in. -/
theorem exists_of_positive {d m : List UInt8} (h : answerFor d = some m) (hpositive : Positive m) :
    ∃ n, nameLength d = some n ∧ questionEnd n ≤ d.length ∧ m = positiveAnswer d n := by
  obtain ⟨hheader, n, hname, htype⟩ := (positive_of_answerFor h).mp hpositive
  have hlong : sizeofDnsQuery ≤ d.length := by
    by_contra hshort
    rw [answerFor, if_pos (Nat.lt_of_not_le hshort)] at h
    simp at h
  rw [answerFor_of_nameLength hlong hheader hname, if_neg (not_not.mpr htype)] at h
  split at h
  · simp at h
  · rename_i hend
    exact ⟨n, hname, Nat.not_lt.mp hend, (Option.some.inj h).symm⟩

/-- A standard query without a zero byte in its name gets a reply that carries the record. -/
theorem WellFormedQuery.carriesRecord {h : Dns.Header} {q : Dns.Question} {rest m : List UInt8}
    (hquery : WellFormedQuery h q) (hanswer : answerFor (h.encode ++ (q.encode ++ rest)) = some m) :
    CarriesRecord (h.encode ++ (q.encode ++ rest)) m := by
  rw [hquery.answerFor_eq rest, Option.some.injEq] at hanswer
  exact ⟨h, answerHeader h, q, rest, rest, hquery.header, fits_answerHeader hquery.header,
    hquery.question, rfl, (answers_answerHeader h).rcode, hquery.qdcount, rfl, hquery.nscount,
    hanswer.symm⟩

/-- The reply that `make_answer` has assembled. -/
theorem answerFor_of_makeAnswer {query answer answer' : Block} {d m : List UInt8} {size : ℕ}
    (hquery : query.Holds 0 d) (hroom : d.length + 16 ≤ answer.size)
    (hmake : makeAnswer query d.length answer = some (some (answer', size)))
    (hload : answer'.load 0 size = some m) : answerFor d = some m := by
  have houtcome := makeAnswer_outcome hquery hroom
  rw [hmake] at houtcome
  cases houtcome with
  | answered hanswer hholds _ =>
    rw [hanswer, ← hload, hholds.load]

/-! ### The exact condition -/

/-- A query for an IPv4 address in which no label has a zero byte. -/
def AsksWithoutZero (h : Dns.Header) (q : Dns.Question) : Prop :=
  AsksForAddress h q ∧ ∀ l ∈ q.qname, 0 ∉ l

/-- A query for an IPv4 address in which a label has a zero byte. -/
def AsksWithZero (h : Dns.Header) (q : Dns.Question) : Prop :=
  AsksForAddress h q ∧ ∃ l ∈ q.qname, 0 ∈ l

theorem begins_asksForAddress_iff {d : List UInt8} :
    Begins AsksForAddress d ↔ Begins AsksWithoutZero d ∨ Begins AsksWithZero d := by
  constructor
  · rintro ⟨h, q, rest, hasks, hd⟩
    by_cases hzero : ∀ l ∈ q.qname, 0 ∉ l
    · exact Or.inl ⟨h, q, rest, ⟨hasks, hzero⟩, hd⟩
    · push Not at hzero
      exact Or.inr ⟨h, q, rest, ⟨hasks, hzero⟩, hd⟩
  · rintro (⟨h, q, rest, hasks, hd⟩ | ⟨h, q, rest, hasks, hd⟩)
    · exact ⟨h, q, rest, hasks.1, hd⟩
    · exact ⟨h, q, rest, hasks.1, hd⟩

/-- **Which datagrams are answered as they should be.** When `make_answer` returns `0`: that the
reply carries the record exactly if the datagram is a standard query for an IPv4 address, and is
not positive for any other, is true exactly of the datagrams that are refused on account of their
header, of the standard queries for an IPv4 address without a zero byte in a label, and of those
that have another type than A behind the first zero byte and are not such queries with a zero byte
in a label. -/
theorem positive_iff_standard_iff {query answer answer' : Block} {d m : List UInt8} {size : ℕ}
    (hquery : query.Holds 0 d) (hroom : d.length + 16 ≤ answer.size)
    (hmake : makeAnswer query d.length answer = some (some (answer', size)))
    (hload : answer'.load 0 size = some m) :
    ((CarriesRecord d m ↔ Begins StandardQuery d) ∧ (Positive m → Begins StandardQuery d)) ↔
      headerRefused d ∨ Begins AsksWithoutZero d ∨ (¬TypeIsA d ∧ ¬Begins AsksWithZero d) := by
  have hanswer := answerFor_of_makeAnswer hquery hroom hmake hload
  have hpositive := positive_of_answerFor hanswer
  by_cases hheader : headerRefused d
  · have hnot : ¬Positive m := fun h => (hpositive.mp h).1 hheader
    refine iff_of_true ⟨iff_of_false (fun h => hnot h.positive) fun hstandard => ?_,
      fun h => absurd h hnot⟩ (Or.inl hheader)
    exact not_headerRefused_of_begins hstandard hheader
  rw [begins_standardQuery_iff hheader, begins_asksForAddress_iff]
  by_cases hstandard : Begins AsksWithoutZero d
  · -- the name ends at the first zero byte, and the record is behind the question
    refine iff_of_true ⟨iff_of_true ?_ (Or.inl hstandard), fun _ => Or.inl hstandard⟩
      (Or.inr (Or.inl hstandard))
    obtain ⟨h, q, rest, ⟨hasks, hzero⟩, rfl⟩ := hstandard
    exact ((hasks.standardQuery hheader).wellFormedQuery hzero).carriesRecord hanswer
  by_cases hbroken : Begins AsksWithZero d
  · refine iff_of_false ?_ ?_
    · rintro ⟨hcarries, -⟩
      have hcarried := hcarries.mpr (Or.inr hbroken)
      obtain ⟨n, hname, hend, rfl⟩ := exists_of_positive hanswer hcarried.positive
      obtain ⟨h, q, rest, ⟨hasks, hzero⟩, rfl⟩ := hbroken
      exact not_carriesRecord_of_zero hasks.question hzero hend hname hcarried
    · rintro (hrefused | hasks | ⟨-, hnot⟩)
      · exact hheader hrefused
      · exact hstandard hasks
      · exact hnot hbroken
  · by_cases htype : TypeIsA d
    · refine iff_of_false ?_ ?_
      · rintro ⟨-, honly⟩
        exact (honly (hpositive.mpr ⟨hheader, htype⟩)).elim hstandard hbroken
      · rintro (hrefused | hasks | ⟨hnot, -⟩)
        · exact hheader hrefused
        · exact hstandard hasks
        · exact hnot htype
    · have hnot : ¬Positive m := fun h => htype (hpositive.mp h).2
      refine iff_of_true ⟨iff_of_false (fun h => hnot h.positive) ?_, fun h => absurd h hnot⟩
        (Or.inr (Or.inr ⟨htype, hbroken⟩))
      exact not_or.mpr ⟨hstandard, hbroken⟩

/-- A query for the address of `a.b`, with an OPT record behind the question. -/
def addressQuery : List UInt8 :=
  [0, 7, 1, 0, 0, 1, 0, 0, 0, 0, 0, 1, 1, 97, 1, 98, 0, 0, 1, 0, 1, 0, 0, 41, 16, 0, 0, 0, 0, 0, 0,
    0]

/-- Its answer. -/
def addressAnswer : List UInt8 :=
  [0, 7, 0x85, 0, 0, 1, 0, 1, 0, 0, 0, 1, 1, 97, 1, 98, 0, 0, 1, 0, 1] ++
    (answerRecord ++ [0, 0, 41, 16, 0, 0, 0, 0, 0, 0, 0])

theorem positive_iff_standard_iff_query :
    ((CarriesRecord addressQuery addressAnswer ↔ Begins StandardQuery addressQuery) ∧
        (Positive addressAnswer → Begins StandardQuery addressQuery)) ↔
      headerRefused addressQuery ∨ Begins AsksWithoutZero addressQuery ∨
        (¬TypeIsA addressQuery ∧ ¬Begins AsksWithZero addressQuery) :=
  positive_iff_standard_iff (show Block.Holds ⟨addressQuery, []⟩ 0 addressQuery from rfl)
    (show _ ≤ Block.size ⟨List.replicate 48 0, []⟩ by decide) rfl rfl

/-- A response to a query for the address of `a`, with QR set, is answered with the record. -/
theorem response_answered :
    ∃ answer' m, makeAnswer ⟨[0, 7, 0x81, 0, 0, 1, 0, 0, 0, 0, 0, 0, 1, 97, 0, 0, 1, 0, 1], []⟩ 19
        ⟨List.replicate 35 0, []⟩ = some (some (answer', 35)) ∧
      answer'.load 0 35 = some m ∧
      CarriesRecord [0, 7, 0x81, 0, 0, 1, 0, 0, 0, 0, 0, 0, 1, 97, 0, 0, 1, 0, 1] m ∧
      ¬Begins StandardQuery [0, 7, 0x81, 0, 0, 1, 0, 0, 0, 0, 0, 0, 1, 97, 0, 0, 1, 0, 1] := by
  have hfits : Dns.Header.Fits ⟨7, 0x8100, 1, 0, 0, 0⟩ :=
    ⟨by decide, by decide, by decide, by decide, by decide, by decide⟩
  refine ⟨_, _, rfl, rfl, ?_, ?_⟩
  · refine ⟨⟨7, 0x8100, 1, 0, 0, 0⟩, ⟨7, 0x8500, 1, 1, 0, 0⟩, ⟨[[97]], 1, 1⟩, [], [], hfits,
      ⟨by decide, by decide, by decide, by decide, by decide, by decide⟩,
      ⟨by simp [Dns.Name.Valid], by decide, by decide⟩, rfl, rfl, rfl, rfl, rfl, rfl⟩
  · rintro ⟨h, q, rest, hquery, hd⟩
    have hd' : Dns.Header.encode ⟨7, 0x8100, 1, 0, 0, 0⟩ ++ [1, 97, 0, 0, 1, 0, 1]
        = h.encode ++ (q.encode ++ rest) := hd
    have hsame := Dns.Header.eq_of_append_eq hfits hquery.header hd'
    have hqr := hquery.qr
    rw [← hsame] at hqr
    exact absurd hqr (by decide)

end DnsTools
