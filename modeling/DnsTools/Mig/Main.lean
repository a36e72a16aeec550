import DnsTools.Lib.Table
import DnsTools.Mig.Queries

/-!
# A run of mig

The two loops of `main` in `main.c`, with `sent_query` and `recv_answer`, as one state machine. Its
steps are system calls: `Mig.point` says which comes next, and the input is what the system
answers. The sending of a query, with the clock readings before and after it, is one step.

The first loop runs until every query has been sent, and receives in between; the second waits for
the answers that are still missing, and gives up after `RECV_TIMEOUT` waits in vain.

The arrays `sends`, `receives` and `pairs` have `count` entries each; `count` times the size of an
entry is taken not to wrap. They come from `malloc`, so `sends`, and the two times in every entry
of `pairs`, start with arbitrary contents.

A step is `none` where an access would be out of bounds, and where the input does not answer the
call the state is about to make.

## What is added

`Mig.wire` records the datagrams handed to the network. A datagram that arrives is labelled with
the number of the query it replies to, which means nothing if it is not a genuine reply. The
program does not see the label, and no function reads it.
-/

namespace DnsTools

open Memory

/-- `RECV_TIMEOUT`. -/
def recvTimeout : ℕ := 35

/-- `struct pair_timespec`. -/
structure PairTimespec where
  /-- When the query was sent. -/
  sent : Timespec
  /-- The number of answers. -/
  answer : ℕ
  /-- When the answer was received. -/
  received : Timespec
deriving DecidableEq, Repr

/-! ### What the system answers -/

/-- The outcome of `pselect` or `select`. -/
inductive Wakeup
  /-- An error. -/
  | failed
  /-- Nothing happened for a second. -/
  | timeout
  /-- The socket is ready to be read, or written, or both. -/
  | ready (read write : Bool)
deriving DecidableEq, Repr

/-- A datagram that arrives. -/
structure Arrival where
  /-- The payload. -/
  bytes : List UInt8
  /-- The number of the query it replies to, if it is a genuine reply. -/
  origin : ℕ
  /-- The time of its arrival, or `none` if the clock fails. -/
  clock : Option Timespec
deriving DecidableEq, Repr

/-- The outcome of `recv`. -/
inductive Reception
  /-- A datagram. -/
  | datagram (a : Arrival)
  /-- `EAGAIN`. -/
  | again
  /-- Another error. -/
  | failed
deriving DecidableEq, Repr

/-- What the system answers to one call. -/
inductive MigInput
  /-- To `pselect` or `select`. -/
  | select (r : Wakeup)
  /-- To `recv`. -/
  | recv (r : Reception)
  /-- While a query is sent: the clock before, if it is read; the number of bytes sent, if `sendto`
  does not fail; and the clock behind. -/
  | send (now : Option Timespec) (bytesSent : Option ℕ) (clock : Option Timespec)
deriving DecidableEq, Repr

/-! ### The state -/

/-- The system call that comes next. -/
inductive MigPoint
  /-- `pselect`, in the first loop. -/
  | selecting
  /-- `recv`, in `recv_answer`, called from the first loop. -/
  | receiving
  /-- Sending a query, if it is time for one. -/
  | sending
  /-- `select`, in the second loop. -/
  | waiting
  /-- `recv`, in `recv_answer`, called from the second loop. -/
  | draining
  /-- The loops are done, and the report is written. -/
  | finished
  /-- An error has ended the run. -/
  | failed
deriving DecidableEq, Repr

/-- The variables of `main`. -/
structure Mig where
  /-- `count`. -/
  count : ℕ
  /-- `write_interval`. -/
  writeInterval : ℕ
  /-- `queries`. -/
  queries : Block
  /-- `sends`. -/
  sends : List Timespec
  /-- `receives`. -/
  receives : List Timespec
  /-- `pairs`. -/
  pairs : List PairTimespec
  /-- The socket is in `readfds`. -/
  readSocket : Bool
  /-- The socket is in `writefds`. -/
  writeSocket : Bool
  /-- `offset`, from the start of `queries`. -/
  offset : ℕ
  /-- `messages_sent`. -/
  messagesSent : ℕ
  /-- `messages_received`. -/
  messagesReceived : ℕ
  /-- `last_sent`. -/
  lastSent : ℕ
  /-- `attempts`. -/
  attempts : ℕ
  /-- The next system call. -/
  point : MigPoint
  /-- History: the datagrams sent. -/
  wire : List (List UInt8)
deriving DecidableEq, Repr

/-! ### The functions -/

/-- The transaction id of a message, in the byte order of the machine. -/
def transactionId (bytes : List UInt8) : ℕ :=
  (htons (Block.halfWord bytes DnsQuery.transactionId)).toNat

/-- `sent_query`: the return code, and what it changes. `bytesSent` is `none` if `sendto` fails, and
`clock` if the clock does. -/
def sentQuery (s : Mig) (query : List UInt8) (bytesSent : Option ℕ) (clock : Option Timespec) :
    Option (ℤ × Mig) :=
  match bytesSent with
  | none => some (-1, s)
  | some n =>
    let s := { s with wire := s.wire ++ [query.take n] }
    if n ≠ query.length then some (-1, s)
    else match clock with
      | none => some (-1, s)
      | some now => do
        let sends ← Table.write s.sends s.messagesSent now
        let pair ← s.pairs[s.messagesSent]?
        let pairs ← Table.write s.pairs s.messagesSent { pair with sent := now }
        return (0, { s with sends, pairs, messagesSent := s.messagesSent + 1 })

/-- The search loop of `recv_answer`: the first pair from `pairIndex` on, in steps of `USHRT_MAX`,
that was sent before `receivedNsec` and has no answer. The inner `none` is an index past the end.
Each turn takes one unit of fuel. -/
def findPair (pairs : List PairTimespec) (count receivedNsec : ℕ) : ℕ → ℕ → Option (Option ℕ)
  | 0, _ => none
  | fuel + 1, pairIndex =>
    if count ≤ pairIndex then some none
    else do
      let pair ← pairs[pairIndex]?
      if pair.sent.nsec < receivedNsec ∧ pair.answer = 0 then return some pairIndex
      else findPair pairs count receivedNsec fuel (pairIndex + ushrtMax)

/-- How one turn of the loop of `recv_answer` ends. -/
inductive RecvTurn
  /-- The loop goes on. -/
  | again
  /-- The function returns `0`. -/
  | done
  /-- The function returns `-1`. -/
  | failed
deriving DecidableEq, Repr

/-- One turn of the loop of `recv_answer`. -/
def recvAnswer (s : Mig) : Reception → Option (Mig × RecvTurn)
  | .again => some (s, .done)
  | .failed => some (s, .failed)
  | .datagram a =>
    if a.bytes.length < sizeofDnsQuery then some (s, .failed)
    else match a.clock with
      | none => some (s, .failed)
      | some received =>
        if s.count < ushrtMax ∧ s.count ≤ transactionId a.bytes then some (s, .failed)
        else do
          match ← findPair s.pairs s.count received.nsec (s.count + 1) (transactionId a.bytes) with
          | none => return (s, .again)
          | some pairIndex =>
            let pair ← s.pairs[pairIndex]?
            let receives ← Table.write s.receives s.messagesReceived received
            let pairs ← Table.write s.pairs pairIndex
              { pair with answer := pair.answer + 1, received }
            return ({ s with receives, pairs, messagesReceived := s.messagesReceived + 1 }, .again)

/-- `main` returns `1`. -/
def Mig.fail (s : Mig) : Mig := { s with point := .failed }

/-- At the head of the second loop. -/
def Mig.continueWaiting (s : Mig) : Mig :=
  if s.messagesReceived < s.count ∧ 0 < s.attempts then { s with point := .waiting }
  else { s with point := .finished }

/-- At the head of the first loop. -/
def Mig.continueSending (s : Mig) : Mig :=
  if s.messagesSent < s.count then { s with point := .selecting } else s.continueWaiting

/-- From the test of `writefds` on. -/
def Mig.startSending (s : Mig) : Mig :=
  if s.writeSocket then { s with point := .sending }
  else { s with writeSocket := true }.continueSending

/-- From the test of `readfds` on, in the first loop. -/
def Mig.startReceiving (s : Mig) : Mig :=
  if s.readSocket then { s with point := .receiving }
  else { s with readSocket := true }.startSending

/-- `do_send_query`. It is `none` if the clock fails. -/
def Mig.doSendQuery (s : Mig) (now : Option Timespec) : Option Bool :=
  if s.writeInterval = 0 ∨ s.messagesSent = 0 then some true
  else now.map fun now =>
    s.writeInterval ≤ (now.nsec + (sizeModulus - s.lastSent)) % sizeModulus

/-- The body of the test of `writefds`. -/
def Mig.send (s : Mig) (now : Option Timespec) (bytesSent : Option ℕ) (clock : Option Timespec) :
    Option Mig :=
  match s.doSendQuery now with
  | none => some s.fail
  | some false => some s.continueSending
  | some true => do
    let next ← getNextQuery s.queries s.offset
    let query ← s.queries.load next.query next.size
    let (r, s) ← sentQuery { s with offset := next.offset } query bytesSent clock
    if r ≠ 0 then return s.fail
    else if 0 < s.writeInterval then
      let pair ← s.pairs[s.messagesSent - 1]?
      return { s with lastSent := pair.sent.nsec }.continueSending
    else return s.continueSending

/-- One system call of the two loops, and everything up to the next one. -/
def migStep (s : Mig) (i : MigInput) : Option Mig :=
  match s.point, i with
  | .selecting, .select .failed => some s.fail
  | .selecting, .select .timeout =>
    some { s with readSocket := true, writeSocket := true }.continueSending
  | .selecting, .select (.ready read write) =>
    some { s with readSocket := s.readSocket && read
                  writeSocket := s.writeSocket && write }.startReceiving
  | .receiving, .recv r => do
    let (s, turn) ← recvAnswer s r
    match turn with
    | .again => return s
    | .done => return s.startSending
    | .failed => return s.fail
  | .sending, .send now bytesSent clock => s.send now bytesSent clock
  | .waiting, .select .failed => some s.fail
  | .waiting, .select .timeout =>
    some { s with attempts := s.attempts - 1, readSocket := true }.continueWaiting
  | .waiting, .select (.ready read _) =>
    if s.readSocket && read then some { s with readSocket := true, point := .draining }
    else some { s with readSocket := true }.continueWaiting
  | .draining, .recv r => do
    let (s, turn) ← recvAnswer s r
    match turn with
    | .again => return s
    | .done => return { s with attempts := recvTimeout }.continueWaiting
    | .failed => return s.fail
  | _, _ => none

/-- `write_interval`, for the query limit of the options. -/
def writeInterval (queryLimit : ℕ) : ℕ :=
  if queryLimit = 0 then 0
  else if nanoseconds / 2 ≤ nanoseconds % queryLimit then nanoseconds / queryLimit + 1
  else nanoseconds / queryLimit

/-- The variables in front of the loops, from the queries and the three arrays as they were
allocated. -/
def Mig.allocated (queries : Block) (count queryLimit : ℕ) (sends receives : List Timespec)
    (pairs : List PairTimespec) : Mig :=
  { count, writeInterval := DnsTools.writeInterval queryLimit, queries, sends
    receives := receives.map fun _ => { tvSec := 0, tvNsec := 0 }
    pairs := pairs.map fun pair => { pair with answer := 0 }
    readSocket := true, writeSocket := true, offset := 0, messagesSent := 0, messagesReceived := 0
    lastSent := 0, attempts := recvTimeout, point := .selecting, wire := [] }

/-- The state in which `main` enters its loops. -/
def Mig.initial (queries : Block) (count queryLimit : ℕ) (sends receives : List Timespec)
    (pairs : List PairTimespec) : Mig :=
  (Mig.allocated queries count queryLimit sends receives pairs).continueSending

/-- The number of messages that `main` reports as lost. -/
def Mig.lost (s : Mig) : ℕ := s.count - s.messagesReceived

end DnsTools
