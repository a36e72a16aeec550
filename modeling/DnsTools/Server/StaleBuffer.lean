import DnsTools.Server.Serve

/-!
# Bytes left over in the receive buffer

The receive buffer is used again for every datagram, so that behind a datagram lie the bytes of
earlier and longer ones, or whatever `malloc` left there. `make_answer` compares the size of the
datagram with the end of the question only after it has looked for the end of the name with
`strlen`. A datagram without a zero byte there lets the scan run on into those bytes, and beyond
the buffer if they have none either.
-/

namespace DnsTools

open Memory

/-- How `make_answer` ends: the bytes of the answer, or the return value `-1`, or beyond what C
defines. -/
def answerBytes : Option (Option (Block × ℕ)) → Option (Option (List UInt8))
  | none => none
  | some none => some none
  | some (some (answer, size)) => (answer.load 0 size).map some

/-- A receive buffer that begins with the datagram. -/
structure ReceivedIn (d : List UInt8) (buffer : Block) : Prop where
  /-- It has the size of the receive buffer. -/
  size : buffer.size = receiveBufferSize
  /-- The datagram is at its start. -/
  holds : buffer.Holds 0 d

/-- Whatever follows the datagram in the receive buffer, `make_answer` ends in the same way, and
stays inside the buffer. -/
structure IgnoresRest (d : List UInt8) : Prop where
  /-- It ends in the same way. -/
  same : ∀ buffer buffer' answer, ReceivedIn d buffer → ReceivedIn d buffer' →
    d.length + 16 ≤ answer.size →
    answerBytes (makeAnswer buffer d.length answer)
      = answerBytes (makeAnswer buffer' d.length answer)
  /-- It reads nothing outside the buffer. -/
  inside : ∀ buffer answer, ReceivedIn d buffer → d.length + 16 ≤ answer.size →
    makeAnswer buffer d.length answer ≠ none

variable {d : List UInt8}

/-- Unless the scan leaves the datagram, the answer is a function of the datagram. -/
theorem answerBytes_makeAnswer {query answer : Block} (hquery : query.Holds 0 d)
    (hroom : d.length + 16 ≤ answer.size)
    (h : d.length < sizeofDnsQuery ∨ headerRefused d ∨ nameLength d ≠ none) :
    answerBytes (makeAnswer query d.length answer) = some (answerFor d) := by
  have houtcome := makeAnswer_outcome hquery hroom
  have hdefined : answerFor d = none → makeAnswer query d.length answer = some none := by
    intro hanswer
    by_cases hshort : d.length < sizeofDnsQuery
    · rw [makeAnswer, if_pos hshort]
      rfl
    by_cases hheader : headerRefused d
    · simp [answerFor, hshort, hheader] at hanswer
    have hlong := Nat.not_lt.mp hshort
    obtain ⟨n, hname⟩ := Option.ne_none_iff_exists'.mp
      ((h.resolve_left hshort).resolve_left hheader)
    rw [answerFor_of_nameLength hlong hheader hname] at hanswer
    have hend : d.length < questionEnd n := by
      by_contra hend
      rw [if_neg hend] at hanswer
      split at hanswer <;> simp at hanswer
    rw [makeAnswer_of_not_headerRefused hquery hlong hheader,
      strlen_of_nameLength hquery hlong hname, Option.bind_some, if_pos hend]
  revert houtcome hdefined
  generalize makeAnswer query d.length answer = r
  intro houtcome hdefined
  cases houtcome with
  | answered hanswer hholds _ => rw [hanswer, answerBytes, hholds.load, Option.map_some]
  | failed hanswer => rw [hanswer, answerBytes]
  | undefined hanswer => exact absurd (hdefined hanswer) (by simp)

/-- A buffer that is filled up with bytes other than zero. -/
def filledBuffer (d : List UInt8) : Block :=
  ⟨d ++ List.replicate (receiveBufferSize - d.length) 1, []⟩

theorem receivedIn_filledBuffer (hd : d.length ≤ receiveBufferSize) :
    ReceivedIn d (filledBuffer d) where
  size := by
    rw [filledBuffer, Block.size, List.length_append, List.length_replicate]
    omega
  holds := (Block.holds_append.mp (Block.holds_bytes (filledBuffer d))).1

/-- In such a buffer the scan does not find the end of a name that the datagram does not end. -/
theorem makeAnswer_filledBuffer {answer : Block} (hd : d.length ≤ receiveBufferSize)
    (hlong : sizeofDnsQuery ≤ d.length) (hheader : ¬headerRefused d) (hname : nameLength d = none) :
    makeAnswer (filledBuffer d) d.length answer = none := by
  have hquery := (receivedIn_filledBuffer hd).holds
  have hrest : (filledBuffer d).bytes.drop d.length
      = List.replicate (receiveBufferSize - d.length) 1 := List.drop_left
  have hstrlen : (filledBuffer d).strlen sizeofDnsQuery = none := by
    rw [hquery.strlen_eq hlong, ← nameLength, hname, hrest, Option.none_or, Option.map_eq_none_iff,
      List.findIdx?_eq_none_iff]
    intro b hb
    rw [List.eq_of_mem_replicate hb]
    rfl
  rw [makeAnswer_of_not_headerRefused hquery hlong hheader, hstrlen, Option.bind_none]

/-- **When the rest of the buffer has no influence.** `make_answer` ends in the same way whatever
follows the datagram in the receive buffer, and stays inside it, exactly if the datagram is shorter
than a header, or is refused on account of its header, or has a zero byte behind its header. -/
theorem ignoresRest_iff (hd : d.length ≤ receiveBufferSize) :
    IgnoresRest d ↔
      d.length < sizeofDnsQuery ∨ headerRefused d ∨ 0 ∈ d.drop sizeofDnsQuery := by
  have hzero : nameLength d ≠ none ↔ 0 ∈ d.drop sizeofDnsQuery := by
    rw [nameLength, ne_eq, List.findIdx?_eq_none_iff]
    simp
  rw [← hzero]
  constructor
  · intro hignores
    by_contra hnot
    push Not at hnot
    obtain ⟨hlong, hheader, hname⟩ := hnot
    refine hignores.inside (filledBuffer d) ⟨List.replicate (d.length + 16) 0, []⟩
      (receivedIn_filledBuffer hd) ?_ (makeAnswer_filledBuffer hd hlong hheader hname)
    rw [Block.size, List.length_replicate]
  · intro h
    refine ⟨fun buffer buffer' answer hbuffer hbuffer' hroom => ?_,
      fun buffer answer hbuffer hroom hnone => ?_⟩
    · rw [answerBytes_makeAnswer hbuffer.holds hroom h,
        answerBytes_makeAnswer hbuffer'.holds hroom h]
    · have hanswer := answerBytes_makeAnswer hbuffer.holds hroom h
      rw [hnone] at hanswer
      exact absurd hanswer (by simp [answerBytes])

/-- A query for the address of `a.b` with an OPT record, a question for `a.b` that is cut off behind
its type, and the beginning of a header: the first two are read to the end of the name, and the
third is too short for that. -/
theorem ignoresRest_iff_queries :
    IgnoresRest [0, 7, 1, 32, 0, 1, 0, 0, 0, 0, 0, 1, 1, 97, 1, 98, 0, 0, 1, 0, 1, 0, 0, 41, 16, 0,
      0, 0, 0, 0, 0, 0] ∧
    IgnoresRest [0, 7, 1, 0, 0, 1, 0, 0, 0, 0, 0, 0, 1, 97, 1, 98, 0, 0, 28] ∧
    IgnoresRest [0, 7, 1, 0, 0] :=
  ⟨(ignoresRest_iff (by decide)).mpr (by decide), (ignoresRest_iff (by decide)).mpr (by decide),
    (ignoresRest_iff (by decide)).mpr (by decide)⟩

/-- The header of a query with nothing behind it. -/
def headerOnly : List UInt8 := [0, 7, 1, 0, 0, 1, 0, 0, 0, 0, 0, 0]

/-- In a buffer without zero bytes behind it the scan for its name leaves the buffer. -/
theorem rest_not_ignored :
    ReceivedIn headerOnly (filledBuffer headerOnly) ∧
      makeAnswer (filledBuffer headerOnly) 12 ⟨List.replicate 28 0, []⟩ = none ∧
      ¬IgnoresRest headerOnly := by
  have hreceived : ReceivedIn headerOnly (filledBuffer headerOnly) :=
    receivedIn_filledBuffer (by decide)
  have hnone : makeAnswer (filledBuffer headerOnly) 12 ⟨List.replicate 28 0, []⟩ = none :=
    makeAnswer_filledBuffer (d := headerOnly) (by decide) (by decide) (by decide) rfl
  exact ⟨hreceived, hnone, fun hignores => hignores.inside _ _ hreceived (by decide) hnone⟩

end DnsTools
