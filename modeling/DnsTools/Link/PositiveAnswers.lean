import DnsTools.Mig.Attribution
import DnsTools.Mig.QueriesWellFormed
import DnsTools.Server.ServeSurvives

/-!
# Every query of mig is answered positively

What `make_answer` returns for the queries that `make_queries` builds. Both functions spell out the
layout of a query for themselves; here they meet. The answer has the id of its query, and if the
name keeps to the limit of 255 octets, it is small enough for everything it has to pass through.

## Two descriptions of a query

mig writes a query with the DNS grammar in mind: header, name, type and class, and a record with the
client id. The server looks at single half words of the header, looks for a zero byte, and reads the
type behind it. `queryMessage_layout` cuts a query where the server cuts it. That the first zero
byte is the end of the name is because a `QueryName` has no zero in its labels; for names with one
nothing is said here.

The client id is in a record behind the question. The server copies it behind its own record, and
does not look at it.

## Main results

* `answerFor_queryMessage` — the server answers every query positively
* `answersQuery_answerMessage` — with the id of the query, in a payload of UDP
-/

namespace DnsTools

open Memory Endian

/-! ### The layout of a query -/

/-- A query in the order in which the server looks at it: the id, the fixed part of the header, the
name, the type and the class, and the rest. -/
theorem queryMessage_layout (client : Option ClientId) (i : ℕ) (w : List UInt8) :
    ∃ b₀ b₁ c rest, queryMessage client i w
      = [b₀, b₁, 1, 0, 0, 1, 0, 0, 0, 0, 0, c] ++ (w ++ ([0, 1, 0, 1] ++ rest)) := by
  refine ⟨UInt8.ofNat (i % ushrtMax / 256), UInt8.ofNat (i % ushrtMax),
    if client.isSome then 1 else 0, client.elim [] fun client => additional ++ client.bytes, ?_⟩
  cases client <;> simp [queryMessage, beBytes, leBytes]

section Layout

variable (b₀ b₁ c : UInt8) {cs rest : List UInt8}

/-- The server refuses no query on account of its header. -/
theorem not_headerRefused_layout (tail : List UInt8) :
    ¬headerRefused ([b₀, b₁, 1, 0, 0, 1, 0, 0, 0, 0, 0, c] ++ tail) := by
  have hflags : Block.halfWord ([b₀, b₁, 1, 0, 0, 1, 0, 0, 0, 0, 0, c] ++ tail) DnsQuery.flags
      = 0x0001 := rfl
  have hquestions : Block.halfWord ([b₀, b₁, 1, 0, 0, 1, 0, 0, 0, 0, 0, c] ++ tail)
      DnsQuery.questions = 0x0100 := rfl
  have hanswers : Block.halfWord ([b₀, b₁, 1, 0, 0, 1, 0, 0, 0, 0, 0, c] ++ tail)
      DnsQuery.answers = 0 := rfl
  have hauthorities : Block.halfWord ([b₀, b₁, 1, 0, 0, 1, 0, 0, 0, 0, 0, c] ++ tail)
      DnsQuery.authorities = 0 := rfl
  rw [headerRefused, hflags, hquestions, hanswers, hauthorities]
  decide

/-- It finds the end of the name. -/
theorem nameLength_layout (hcs : ∀ b ∈ cs, b ≠ 0) (tail : List UInt8) :
    nameLength ([b₀, b₁, 1, 0, 0, 1, 0, 0, 0, 0, 0, c] ++ (cs ++ [0] ++ tail))
      = some cs.length := by
  have hholds := Block.holds_bytes ⟨cs ++ [0] ++ tail, []⟩
  exact Block.strlen_of_holds (Block.holds_append.mp hholds).1 hcs

/-- What it sends back. -/
theorem answerFor_layout (hcs : ∀ b ∈ cs, b ≠ 0) :
    answerFor ([b₀, b₁, 1, 0, 0, 1, 0, 0, 0, 0, 0, c] ++ (cs ++ [0] ++ ([0, 1, 0, 1] ++ rest)))
      = some (positiveAnswer
          ([b₀, b₁, 1, 0, 0, 1, 0, 0, 0, 0, 0, c] ++ (cs ++ [0] ++ ([0, 1, 0, 1] ++ rest)))
          cs.length) := by
  have hname := nameLength_layout b₀ b₁ c hcs ([0, 1, 0, 1] ++ rest)
  have hheader := not_headerRefused_layout b₀ b₁ c (cs ++ [0] ++ ([0, 1, 0, 1] ++ rest))
  have hqtype : Block.halfWord
      ([b₀, b₁, 1, 0, 0, 1, 0, 0, 0, 0, 0, c] ++ (cs ++ [0] ++ ([0, 1, 0, 1] ++ rest)))
      (sizeofDnsQuery + (cs.length + 1)) = 0x100 := by
    have hdrop : ([b₀, b₁, 1, 0, 0, 1, 0, 0, 0, 0, 0, c] ++
        (cs ++ [0] ++ ([0, 1, 0, 1] ++ rest))).drop (sizeofDnsQuery + (cs.length + 1))
        = [0, 1, 0, 1] ++ rest := by
      rw [← List.append_assoc]
      exact List.drop_left' (by simp [sizeofDnsQuery]; omega)
    rw [Block.halfWord, hdrop]
    rfl
  rw [answerFor_of_nameLength (by simp [sizeofDnsQuery]) hheader hname, if_neg, if_neg]
  · rw [hqtype]
    simp
  · simp [questionEnd, sizeofDnsQuery, sizeofShort]
    omega

end Layout

/-- An answer keeps the id. -/
theorem transactionId_positiveAnswer {d : List UInt8} {n : ℕ} (h : questionEnd n ≤ d.length) :
    transactionId (positiveAnswer d n) = transactionId d := by
  have hend : 12 ≤ questionEnd n := by simp only [questionEnd, sizeofDnsQuery]; omega
  have hlength : (d.take (questionEnd n)).length = questionEnd n := by
    rw [List.length_take]
    omega
  have hinner : (Block.overwrite (d.take (questionEnd n)) DnsQuery.flags
      (leBytes 2 ((0x7079 &&& Block.halfWord d DnsQuery.flags) ||| 0x0084).toNat)).length
      = questionEnd n := by
    rw [Block.length_overwrite, hlength]
    rw [hlength, length_leBytes, DnsQuery.flags]
    omega
  have htake : (positiveAnswer d n).take 2 = d.take 2 := by
    rw [positiveAnswer, List.take_append_of_le_length (by rw [length_answerHead h]; omega),
      answerHead, Block.take_overwrite (by decide) (by rw [hinner, DnsQuery.answers]; omega),
      Block.take_overwrite (by decide) (by rw [hlength, DnsQuery.flags]; omega), List.take_take,
      Nat.min_eq_left (by omega)]
  rw [transactionId, transactionId, Block.halfWord, Block.halfWord, DnsQuery.transactionId,
    List.drop_zero, List.drop_zero, htake]

/-- **Every query is answered positively.** -/
theorem answerFor_queryMessage (client : Option ClientId) (i : ℕ) (n : QueryName) :
    answerFor (queryMessage client i n.encode)
      = some (positiveAnswer (queryMessage client i n.encode) n.labels.encodeLabels.length) := by
  obtain ⟨b₀, b₁, c, rest, hlayout⟩ := queryMessage_layout client i n.encode
  rw [hlayout, QueryName.encode, Dns.Name.encode]
  exact answerFor_layout b₀ b₁ c n.encodeLabels_ne_zero

/-- The positive answer to query number `i` for a name. -/
def answerMessage (client : Option ClientId) (i : ℕ) (n : QueryName) : List UInt8 :=
  positiveAnswer (queryMessage client i n.encode) n.labels.encodeLabels.length

/-- The query is long enough for its question. -/
theorem questionEnd_le_queryMessage (client : Option ClientId) (i : ℕ) (n : QueryName) :
    questionEnd n.labels.encodeLabels.length ≤ (queryMessage client i n.encode).length := by
  rw [length_queryMessage, querySize, QueryName.encode, Dns.Name.encode, List.length_append,
    List.length_singleton, questionEnd]
  omega

/-- The answer to a message is right for query number `k`, and small enough to be sent. -/
structure AnswersQuery (k : ℕ) (message answer : List UInt8) : Prop where
  /-- It is what `make_answer` returns. -/
  made : answerFor message = some answer
  /-- It carries the id of the query. -/
  id : transactionId answer = k % ushrtMax
  /-- It has room for a header. -/
  long : sizeofDnsQuery ≤ answer.length
  /-- It is a payload of UDP. -/
  small : answer.length ≤ maxUdpPayload

/-- **The two encoders agree.** -/
theorem answersQuery_answerMessage (client : Option ClientId) (i : ℕ) {n : QueryName}
    (hlimit : n.labels.WithinLimit) :
    AnswersQuery i (queryMessage client i n.encode) (answerMessage client i n) := by
  have hend := questionEnd_le_queryMessage client i n
  have hlength := length_positiveAnswer hend
  have hquery : (queryMessage client i n.encode).length ≤ 302 := by
    have hname : n.encode.length ≤ 255 := hlimit
    have hadditional : additional.length = 15 := rfl
    rw [length_queryMessage, querySize, sizeofDnsQuery, sizeofShort, hadditional, clientIdLength]
    split <;> omega
  constructor
  · exact answerFor_queryMessage client i n
  · rw [answerMessage, transactionId_positiveAnswer hend, transactionId_queryMessage]
  · rw [answerMessage, hlength]
    simp only [questionEnd] at hend
    omega
  · rw [answerMessage, hlength, maxUdpPayload]
    omega

end DnsTools
