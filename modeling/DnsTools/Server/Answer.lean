import DnsTools.Lib.Block
import DnsTools.Platform

/-!
# Answering a query

`make_answer` and `make_refused_answer` of `server.c`. The query lies at the start of a receive
buffer that is used again and again, so behind it there may be anything; the answer is assembled in
a send buffer. The header is read and written through a `struct dns_query` in the byte order of the
machine, which is why the constants look swapped.

`makeAnswer` returns `none` where the C function has no defined behaviour: it scans for the end of
the name with `strlen`, which may run through the whole receive buffer. Its inner `none` is the
return value `-1`.

## The order of the checks

They are the function's own, and the order matters. The header is looked at first, so a datagram is
refused for its header however its question looks. Then the name is measured, and only then is the
length of the datagram compared with where the question would end. So the one access that the
function has not made sure of is the scan, and `StaleBuffer` is about what it may find behind the
datagram. The type of the question is the last check; the class is not looked at.

## What the answer depends on

`answerFor` says what a datagram is answered with, in terms of the datagram alone. It is `none` for
the datagrams that get no answer. `makeAnswer_outcome` connects the two: the bytes behind the
datagram decide at most which way the function fails. If the name ends in the datagram, the scan
ends there too; if it does not, then wherever the scan ends, the question would reach beyond the
datagram, and the function fails after all.

The proof cuts the function in two at the header, into `makeAnswer_of_headerRefused` and
`makeAnswer_of_not_headerRefused`, and the assembly of the positive answer, whose six stores and
loads are followed once, is a lemma of its own.

## What is assumed

That the send buffer has room for the datagram and the sixteen bytes of the record. `serve` sees to
that with the sizes of its two buffers.

## Main results

* `length_of_answerFor` — an answer is at most sixteen bytes longer than the query
* `positiveAnswer_of_holds` — assembling the positive answer
* `makeAnswer_outcome` — what `make_answer` returns, for a datagram and any bytes behind it
-/

namespace DnsTools

open Memory Endian

/-- `make_refused_answer`: the answer buffer and the size of the answer. -/
def makeRefusedAnswer (query : Block) (querySize : ℕ) (answer : Block) : Option (Block × ℕ) := do
  let bytes ← query.load 0 querySize
  let answer ← answer.store 0 bytes
  let flags ← answer.load16 DnsQuery.flags
  let answer ← answer.store16 DnsQuery.flags ((0x7079 &&& flags) ||| 0x0580)
  return (answer, querySize)

/-- The record `make_answer` puts behind the question: it points back to the name, and the address
is `1.2.3.4`. -/
def answerRecord : List UInt8 :=
  [0xc0, 0x0c, 0x00, 0x01, 0x00, 0x01, 0x00, 0x00, 0x0e, 0x10, 0x00, 0x04, 0x01, 0x02, 0x03, 0x04]

/-- `make_answer`: the answer buffer and the size of the answer. -/
def makeAnswer (query : Block) (querySize : ℕ) (answer : Block) :
    Option (Option (Block × ℕ)) := do
  if querySize < sizeofDnsQuery then return none
  else
    let flags ← query.load16 DnsQuery.flags
    if flags &&& 0x1f00 ≠ 0 then
      some <$> makeRefusedAnswer query querySize answer
    else if (← query.load16 DnsQuery.questions) ≠ 0x100 then
      some <$> makeRefusedAnswer query querySize answer
    else if (← query.load16 DnsQuery.answers) ≠ 0 then
      some <$> makeRefusedAnswer query querySize answer
    else if (← query.load16 DnsQuery.authorities) ≠ 0 then
      some <$> makeRefusedAnswer query querySize answer
    else
      let nameSize := (← query.strlen sizeofDnsQuery) + 1
      let questionSize := nameSize + 2 * sizeofShort
      let beforeAnswerSize := sizeofDnsQuery + questionSize
      if querySize < beforeAnswerSize then return none
      else if (← query.load16 (sizeofDnsQuery + nameSize)) ≠ 0x100 then
        some <$> makeRefusedAnswer query querySize answer
      else
        let answer ← answer.store 0 (← query.load 0 beforeAnswerSize)
        let flags ← answer.load16 DnsQuery.flags
        let answer ← answer.store16 DnsQuery.flags ((0x7079 &&& flags) ||| 0x0084)
        let answer ← answer.store16 DnsQuery.answers (htons 1)
        let answer ← answer.store beforeAnswerSize answerRecord
        let rest ← query.load beforeAnswerSize (querySize - beforeAnswerSize)
        let answer ← answer.store (beforeAnswerSize + 16) rest
        return some (answer, querySize + 16)

/-! ### The answer as a function of the datagram -/

/-- The header alone gets the datagram refused: it has a response code or the bit that disables
checking, or it does not announce one question, no answers and no authority records. -/
def headerRefused (d : List UInt8) : Prop :=
  Block.halfWord d DnsQuery.flags &&& 0x1f00 ≠ 0 ∨ Block.halfWord d DnsQuery.questions ≠ 0x100 ∨
    Block.halfWord d DnsQuery.answers ≠ 0 ∨ Block.halfWord d DnsQuery.authorities ≠ 0

instance (d : List UInt8) : Decidable (headerRefused d) :=
  inferInstanceAs (Decidable (_ ∨ _))

/-- The refusal of a datagram: the same bytes with other flags. -/
def refusal (d : List UInt8) : List UInt8 :=
  Block.overwrite d DnsQuery.flags
    (leBytes 2 ((0x7079 &&& Block.halfWord d DnsQuery.flags) ||| 0x0580).toNat)

/-- The length of the name behind the header, up to its terminator. -/
def nameLength (d : List UInt8) : Option ℕ := (d.drop sizeofDnsQuery).findIdx? (· == 0)

/-- Where the question ends that has a name of this length. -/
def questionEnd (n : ℕ) : ℕ := sizeofDnsQuery + (n + 1 + 2 * sizeofShort)

/-- The header and the question of a positive answer. -/
def answerHead (d : List UInt8) (n : ℕ) : List UInt8 :=
  Block.overwrite
    (Block.overwrite (d.take (questionEnd n)) DnsQuery.flags
      (leBytes 2 ((0x7079 &&& Block.halfWord d DnsQuery.flags) ||| 0x0084).toNat))
    DnsQuery.answers (leBytes 2 (htons 1).toNat)

/-- The positive answer to a datagram whose question has a name of this length. -/
def positiveAnswer (d : List UInt8) (n : ℕ) : List UInt8 :=
  answerHead d n ++ (answerRecord ++ d.drop (questionEnd n))

/-- What a datagram is answered with. -/
def answerFor (d : List UInt8) : Option (List UInt8) :=
  if d.length < sizeofDnsQuery then none
  else if headerRefused d then some (refusal d)
  else match nameLength d with
    | none => none
    | some n =>
      if d.length < questionEnd n then none
      else if Block.halfWord d (sizeofDnsQuery + (n + 1)) ≠ 0x100 then some (refusal d)
      else some (positiveAnswer d n)

theorem answerFor_of_nameLength {d : List UInt8} (hlong : sizeofDnsQuery ≤ d.length)
    (hheader : ¬headerRefused d) {n : ℕ} (hname : nameLength d = some n) :
    answerFor d = if d.length < questionEnd n then none
      else if Block.halfWord d (sizeofDnsQuery + (n + 1)) ≠ 0x100 then some (refusal d)
      else some (positiveAnswer d n) := by
  rw [answerFor, if_neg (Nat.not_lt.mpr hlong), if_neg hheader, hname]

/-- How `make_answer` ends for the datagram `d`, when the answer goes to this buffer. -/
inductive AnswerOutcome (d : List UInt8) (buffer : Block) :
    Option (Option (Block × ℕ)) → Prop
  | answered {m : List UInt8} (hanswer : answerFor d = some m) {buffer' : Block}
      (hholds : buffer'.Holds 0 m) (hsize : buffer'.size = buffer.size) :
      AnswerOutcome d buffer (some (some (buffer', m.length)))
  | failed (hanswer : answerFor d = none) : AnswerOutcome d buffer (some none)
  | undefined (hanswer : answerFor d = none) : AnswerOutcome d buffer none

variable {d : List UInt8} {query answer : Block}

theorem length_refusal (h : sizeofDnsQuery ≤ d.length) : (refusal d).length = d.length := by
  rw [sizeofDnsQuery] at h
  refine Block.length_overwrite ?_
  rw [length_leBytes, DnsQuery.flags]
  omega

theorem length_answerHead {n : ℕ} (h : questionEnd n ≤ d.length) :
    (answerHead d n).length = questionEnd n := by
  have htake : (d.take (questionEnd n)).length = questionEnd n := by rw [List.length_take]; omega
  have hend : 12 ≤ questionEnd n := by simp only [questionEnd, sizeofDnsQuery]; omega
  rw [answerHead, Block.length_overwrite, Block.length_overwrite, htake]
  · rw [htake, length_leBytes, DnsQuery.flags]
    omega
  · rw [Block.length_overwrite, htake, length_leBytes, DnsQuery.answers]
    · omega
    · rw [htake, length_leBytes, DnsQuery.flags]
      omega

theorem length_positiveAnswer {n : ℕ} (h : questionEnd n ≤ d.length) :
    (positiveAnswer d n).length = d.length + 16 := by
  have hrecord : answerRecord.length = 16 := rfl
  simp only [positiveAnswer, List.length_append, length_answerHead h, hrecord, List.length_drop]
  omega

/-- An answer is at most sixteen bytes longer than the query. -/
theorem length_of_answerFor {m : List UInt8} (h : answerFor d = some m) :
    d.length ≤ m.length ∧ m.length ≤ d.length + 16 := by
  rw [answerFor] at h
  split at h
  · exact absurd h (by simp)
  · rename_i hlong
    have hrefusal := length_refusal (Nat.not_lt.mp hlong)
    split at h
    · rw [← Option.some.inj h]
      omega
    · split at h
      · exact absurd h (by simp)
      · rename_i n _
        split at h
        · exact absurd h (by simp)
        · rename_i hend
          have hpositive := length_positiveAnswer (Nat.not_lt.mp hend)
          split at h <;> rw [← Option.some.inj h] <;> omega

/-! ### The functions compute it -/

theorem makeRefusedAnswer_of_holds (hquery : query.Holds 0 d) (hlong : sizeofDnsQuery ≤ d.length)
    (hroom : d.length ≤ answer.size) :
    ∃ answer', makeRefusedAnswer query d.length answer = some (answer', (refusal d).length) ∧
      answer'.Holds 0 (refusal d) ∧ answer'.size = answer.size := by
  rw [sizeofDnsQuery] at hlong
  obtain ⟨a₁, h₁⟩ := Block.store_of_le answer 0 d (by omega)
  have hholds₁ := Block.Holds.of_store h₁
  have hsize₁ := Block.size_of_store h₁
  have hflags : a₁.load16 DnsQuery.flags = some (Block.halfWord d DnsQuery.flags) :=
    hholds₁.load16_eq (by rw [DnsQuery.flags]; omega)
  have hlen : ∀ x : UInt16, DnsQuery.flags + (leBytes 2 x.toNat).length ≤ d.length := by
    intro x
    rw [length_leBytes, DnsQuery.flags]
    omega
  obtain ⟨a₂, h₂⟩ := Block.store_of_le a₁ DnsQuery.flags
    (leBytes 2 ((0x7079 &&& Block.halfWord d DnsQuery.flags) ||| 0x0580).toNat)
    (Nat.le_trans (hlen _) (by omega))
  refine ⟨a₂, ?_, hholds₁.store_inside h₂ (hlen _),
    (Block.size_of_store h₂).trans hsize₁⟩
  simp only [makeRefusedAnswer, hquery.load, h₁, hflags, Block.store16, h₂, Option.bind_eq_bind,
    Option.bind_some, length_refusal hlong]
  rfl

/-- A half word that lies in a prefix. -/
theorem halfWord_take {off k : ℕ} (h : off + 2 ≤ k) :
    Block.halfWord (d.take k) off = Block.halfWord d off := by
  rw [Block.halfWord, Block.halfWord, List.drop_take, List.take_take,
    Nat.min_eq_left (by omega)]

/-- The header lies in front of the end of the question. -/
theorem add_two_le_questionEnd {off : ℕ} (h : off ≤ DnsQuery.additional) (n : ℕ) :
    off + 2 ≤ questionEnd n := by
  simp only [DnsQuery.additional, questionEnd, sizeofDnsQuery] at h ⊢
  omega

/-- Assembling the positive answer. -/
theorem positiveAnswer_of_holds {n : ℕ} (hend : questionEnd n ≤ d.length)
    (hroom : d.length + 16 ≤ answer.size) :
    ∃ a₁ a₂ a₃ a₄ a₅, answer.store 0 (d.take (questionEnd n)) = some a₁ ∧
      a₁.load16 DnsQuery.flags = some (Block.halfWord d DnsQuery.flags) ∧
      a₁.store16 DnsQuery.flags
        ((0x7079 &&& Block.halfWord d DnsQuery.flags) ||| 0x0084) = some a₂ ∧
      a₂.store16 DnsQuery.answers (htons 1) = some a₃ ∧
      a₃.store (questionEnd n) answerRecord = some a₄ ∧
      a₄.store (questionEnd n + 16) (d.drop (questionEnd n)) = some a₅ ∧
      a₅.Holds 0 (positiveAnswer d n) ∧ a₅.size = answer.size := by
  have hrecord : answerRecord.length = 16 := rfl
  have htake : (d.take (questionEnd n)).length = questionEnd n := by rw [List.length_take]; omega
  have hdrop : (d.drop (questionEnd n)).length = d.length - questionEnd n := List.length_drop
  have hflags_le := add_two_le_questionEnd (show DnsQuery.flags ≤ _ by decide) n
  have hanswers_le := add_two_le_questionEnd (show DnsQuery.answers ≤ _ by decide) n
  obtain ⟨a₁, h₁⟩ := Block.store_of_le answer 0 (d.take (questionEnd n)) (by omega)
  have hholds₁ := Block.Holds.of_store h₁
  have hsize₁ := Block.size_of_store h₁
  have hflags := hholds₁.load16_eq (by rw [htake]; exact hflags_le)
  rw [halfWord_take hflags_le] at hflags
  obtain ⟨a₂, h₂⟩ := Block.store_of_le a₁ DnsQuery.flags
    (leBytes 2 ((0x7079 &&& Block.halfWord d DnsQuery.flags) ||| 0x0084).toNat)
    (by rw [length_leBytes]; omega)
  have hholds₂ := hholds₁.store_inside h₂ (by rw [length_leBytes, htake]; exact hflags_le)
  have hsize₂ := Block.size_of_store h₂
  obtain ⟨a₃, h₃⟩ := Block.store_of_le a₂ DnsQuery.answers (leBytes 2 (htons 1).toNat)
    (by rw [length_leBytes]; omega)
  have hhead : a₃.Holds 0 (answerHead d n) := by
    refine hholds₂.store_inside h₃ ?_
    rw [Block.length_overwrite] <;> rw [length_leBytes, htake]
    · exact hanswers_le
    · exact hflags_le
  have hlen := length_answerHead hend
  have hsize₃ := Block.size_of_store h₃
  obtain ⟨a₄, h₄⟩ := Block.store_of_le a₃ (questionEnd n) answerRecord (by omega)
  have hsize₄ := Block.size_of_store h₄
  obtain ⟨a₅, h₅⟩ := Block.store_of_le a₄ (questionEnd n + 16) (d.drop (questionEnd n))
    (by omega)
  have hhead₄ := hhead.store_of_disjoint h₄ (Or.inl (by omega))
  have hhead₅ := hhead₄.store_of_disjoint h₅ (Or.inl (by omega))
  have hrecord₅ := (Block.Holds.of_store h₄).store_of_disjoint h₅ (Or.inl (by omega))
  refine ⟨a₁, a₂, a₃, a₄, a₅, h₁, hflags, h₂, h₃, h₄, h₅, ?_,
    (Block.size_of_store h₅).trans (hsize₄.trans (hsize₃.trans (hsize₂.trans hsize₁)))⟩
  rw [positiveAnswer, Block.holds_append, Block.holds_append, hlen, hrecord, Nat.zero_add]
  exact ⟨hhead₅, hrecord₅, .of_store h₅⟩

/-- The scan for the end of the name ends where it ends in the datagram, if it ends there at
all. -/
theorem strlen_of_nameLength (hquery : query.Holds 0 d) (hlong : sizeofDnsQuery ≤ d.length)
    {n : ℕ} (hname : nameLength d = some n) : query.strlen sizeofDnsQuery = some n := by
  rw [hquery.strlen_eq hlong, ← nameLength, hname, Option.some_or]

theorem lt_questionEnd_of_strlen (hquery : query.Holds 0 d) (hlong : sizeofDnsQuery ≤ d.length)
    (hname : nameLength d = none) {n : ℕ} (hn : query.strlen sizeofDnsQuery = some n) :
    d.length < questionEnd n := by
  rw [hquery.strlen_eq hlong, ← nameLength, hname, Option.none_or] at hn
  obtain ⟨m, -, rfl⟩ := Option.map_eq_some_iff.mp hn
  simp only [questionEnd, sizeofShort]
  omega

/-- The header decides. -/
theorem makeAnswer_of_headerRefused (hquery : query.Holds 0 d) (hlong : sizeofDnsQuery ≤ d.length)
    (hheader : headerRefused d) :
    makeAnswer query d.length answer = some <$> makeRefusedAnswer query d.length answer := by
  have hshort : ¬d.length < sizeofDnsQuery := Nat.not_lt.mpr hlong
  have hword : ∀ off ≤ DnsQuery.additional, query.load16 off = some (Block.halfWord d off) :=
    fun off hoff => hquery.load16_eq (by
      simp only [DnsQuery.additional, sizeofDnsQuery] at hoff hlong
      omega)
  simp only [makeAnswer, hshort, if_false, hword DnsQuery.flags (by decide),
    hword DnsQuery.questions (by decide), hword DnsQuery.answers (by decide),
    hword DnsQuery.authorities (by decide), Option.bind_eq_bind, Option.bind_some]
  by_cases hflags : Block.halfWord d DnsQuery.flags &&& 0x1f00 ≠ 0
  · rw [if_pos hflags]
  rw [if_neg hflags]
  by_cases hquestions : Block.halfWord d DnsQuery.questions ≠ 0x100
  · rw [if_pos hquestions]
  rw [if_neg hquestions]
  by_cases hanswers : Block.halfWord d DnsQuery.answers ≠ 0
  · rw [if_pos hanswers]
  rw [if_neg hanswers]
  have hauthorities : Block.halfWord d DnsQuery.authorities ≠ 0 :=
    ((hheader.resolve_left hflags).resolve_left hquestions).resolve_left hanswers
  rw [if_pos hauthorities]

/-- Otherwise the question does. -/
theorem makeAnswer_of_not_headerRefused (hquery : query.Holds 0 d)
    (hlong : sizeofDnsQuery ≤ d.length) (hheader : ¬headerRefused d) :
    makeAnswer query d.length answer = (query.strlen sizeofDnsQuery).bind fun n =>
      if d.length < questionEnd n then some none
      else (query.load16 (sizeofDnsQuery + (n + 1))).bind fun qtype =>
        if qtype ≠ 0x100 then some <$> makeRefusedAnswer query d.length answer
        else (query.load 0 (questionEnd n)).bind fun head =>
          (answer.store 0 head).bind fun a₁ =>
          (a₁.load16 DnsQuery.flags).bind fun flags =>
          (a₁.store16 DnsQuery.flags ((0x7079 &&& flags) ||| 0x0084)).bind fun a₂ =>
          (a₂.store16 DnsQuery.answers (htons 1)).bind fun a₃ =>
          (a₃.store (questionEnd n) answerRecord).bind fun a₄ =>
          (query.load (questionEnd n) (d.length - questionEnd n)).bind fun rest =>
          (a₄.store (questionEnd n + 16) rest).bind fun a₅ =>
          some (some (a₅, d.length + 16)) := by
  have hshort : ¬d.length < sizeofDnsQuery := Nat.not_lt.mpr hlong
  have hword : ∀ off ≤ DnsQuery.additional, query.load16 off = some (Block.halfWord d off) :=
    fun off hoff => hquery.load16_eq (by
      simp only [DnsQuery.additional, sizeofDnsQuery] at hoff hlong
      omega)
  simp only [headerRefused, not_or] at hheader
  obtain ⟨hflags, hquestions, hanswers, hauthorities⟩ := hheader
  simp only [makeAnswer, hshort, if_false, hword DnsQuery.flags (by decide),
    hword DnsQuery.questions (by decide), hword DnsQuery.answers (by decide),
    hword DnsQuery.authorities (by decide), Option.bind_eq_bind, Option.bind_some, hflags,
    hquestions, hanswers, hauthorities, questionEnd]
  rfl

/-- **What `make_answer` returns depends on the datagram**, up to the way it fails. -/
theorem makeAnswer_outcome (hquery : query.Holds 0 d) (hroom : d.length + 16 ≤ answer.size) :
    AnswerOutcome d answer (makeAnswer query d.length answer) := by
  by_cases hshort : d.length < sizeofDnsQuery
  · have hmake : makeAnswer query d.length answer = some none := by simp [makeAnswer, hshort]
    rw [hmake]
    exact .failed (if_pos hshort)
  have hlong : sizeofDnsQuery ≤ d.length := Nat.not_lt.mp hshort
  obtain ⟨answer', hrefused, hholds, hsize⟩ :=
    makeRefusedAnswer_of_holds hquery hlong (show d.length ≤ answer.size by omega)
  by_cases hheader : headerRefused d
  · rw [makeAnswer_of_headerRefused hquery hlong hheader, hrefused]
    exact .answered (by rw [answerFor, if_neg hshort, if_pos hheader]) hholds hsize
  rw [makeAnswer_of_not_headerRefused hquery hlong hheader]
  cases hname : nameLength d with
  | none =>
    have hanswer : answerFor d = none := by
      rw [answerFor, if_neg hshort, if_neg hheader, hname]
    cases hstrlen : query.strlen sizeofDnsQuery with
    | none => exact .undefined hanswer
    | some n =>
      rw [Option.bind_some, if_pos (lt_questionEnd_of_strlen hquery hlong hname hstrlen)]
      exact .failed hanswer
  | some n =>
    have hanswer := answerFor_of_nameLength hlong hheader hname
    rw [strlen_of_nameLength hquery hlong hname, Option.bind_some]
    by_cases hend : d.length < questionEnd n
    · rw [if_pos hend]
      exact .failed (by rw [hanswer, if_pos hend])
    have hend' := Nat.not_lt.mp hend
    have htype : query.load16 (sizeofDnsQuery + (n + 1))
        = some (Block.halfWord d (sizeofDnsQuery + (n + 1))) := by
      refine hquery.load16_eq ?_
      simp only [questionEnd, sizeofShort] at hend'
      omega
    rw [if_neg hend, htype, Option.bind_some]
    by_cases hqtype : Block.halfWord d (sizeofDnsQuery + (n + 1)) ≠ 0x100
    · rw [if_pos hqtype, hrefused]
      exact .answered (by rw [hanswer, if_neg hend, if_pos hqtype]) hholds hsize
    rw [if_neg hqtype]
    obtain ⟨a₁, a₂, a₃, a₄, a₅, h₁, hflags, h₂, h₃, h₄, h₅, hholds₅, hsize₅⟩ :=
      positiveAnswer_of_holds hend' hroom
    obtain ⟨hhead, hrest⟩ := Block.holds_append.mp
      ((List.take_append_drop (questionEnd n) d).symm ▸ hquery)
    have hheadLoad := hhead.load
    have hrestLoad := hrest.load
    have htake : (d.take (questionEnd n)).length = questionEnd n := by
      rw [List.length_take]
      omega
    rw [htake] at hheadLoad hrestLoad
    rw [Nat.zero_add, List.length_drop] at hrestLoad
    simp only [hheadLoad, h₁, hflags, h₂, h₃, h₄, hrestLoad, h₅, Option.bind_some]
    rw [← length_positiveAnswer hend']
    exact .answered (by rw [hanswer, if_neg hend, if_neg hqtype]) hholds₅ hsize₅

end DnsTools
