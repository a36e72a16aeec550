import DnsTools.MessageQueue
import DnsTools.Server.Answer

/-!
# The server loop

`serve`, `recv_all`, `send_all` and `check_int_code` of `server.c` as one state machine. Its steps
are system calls: the state says which call comes next (`Server.point`) and holds every variable
that is live across it, and the input is what the system answers. So the states of a run are the
moments between two system calls, those in the middle of `recv_all` and `send_all` included.

`recvAll` and `sendAll` are one turn of the loops of `recv_all` and `send_all`. The functions
`startReceiving`, `startReading`, `startSending` and `afterSending` are what `serve` does from one
of its tests to the next system call.

A step is `none` where the program has no defined behaviour, and where the input does not answer
the call the state is about to make.

## History

Two lists record what no variable of the program remembers: the datagrams whose answers have been
queued, and what has been handed to the network.
-/

namespace DnsTools

open Memory

/-- `RECEIVE_BUFFER_SIZE`. -/
def receiveBufferSize : ℕ := 65535

/-- `SEND_BUFFER_SIZE`. -/
def sendBufferSize : ℕ := 65535

/-- `TIMESTAMPS_MAXLENGTH`. -/
def timestampsMaxlength : ℕ := 10000000

/-- `STOP_CHARACTER`. -/
def stopCharacter : UInt8 := 0x73

/-- The largest payload of a UDP datagram over IPv4. -/
def maxUdpPayload : ℕ := 65507

/-- A datagram with the address it comes from. -/
structure Datagram where
  /-- The payload. -/
  bytes : List UInt8
  /-- The address of the sender. -/
  address : List UInt8
  /-- A payload of UDP over IPv4. -/
  bytes_le : bytes.length ≤ maxUdpPayload
  /-- The address fits a `struct sockaddr_storage`. -/
  address_le : address.length ≤ 128
deriving DecidableEq, Repr

/-! ### What the system answers -/

/-- The outcome of `pselect`. -/
inductive SelectResult
  /-- An error other than an interruption. -/
  | failed
  /-- `EINTR`. -/
  | interrupted
  /-- Nothing happened for a second. -/
  | timeout
  /-- Something is ready: the socket to be read, stdin, the socket to be written. -/
  | ready (socket stdin write : Bool)
deriving DecidableEq, Repr

/-- The outcome of `recvfrom`, and of the clock that is asked for a timestamp behind it. -/
inductive RecvResult
  /-- A datagram. -/
  | datagram (d : Datagram) (clock : Option Timespec)
  /-- `EAGAIN`. -/
  | again
  /-- Another error. -/
  | failed
deriving DecidableEq, Repr

/-- The outcome of `sendto`, and of the clock that is asked for a timestamp behind it. -/
inductive SendResult
  /-- The number of bytes sent. -/
  | returned (n : ℕ) (clock : Option Timespec)
  /-- `EAGAIN`. -/
  | again
  /-- Another error. -/
  | failed
deriving DecidableEq, Repr

/-- What the system answers to one call. -/
inductive SystemResult
  /-- To `pselect`. If a signal has asked for a dump of the timestamps, `dump` says whether the file
  could be opened. -/
  | select (dump : Option Bool) (r : SelectResult)
  /-- To `recvfrom`. -/
  | recvfrom (r : RecvResult)
  /-- To the calls of `fread` in `check_int_code`: what they read, and whether the last of them
  failed with `EAGAIN`. -/
  | fread (chunks : List (List UInt8)) (again : Bool)
  /-- To `sendto`. -/
  | sendto (r : SendResult)
deriving DecidableEq, Repr

/-! ### The state -/

/-- The system call that comes next. -/
inductive ServePoint
  /-- `pselect`, at the head of the loop of `serve`. -/
  | selecting
  /-- `recvfrom`, in `recv_all`. -/
  | receiving
  /-- `fread`, in `check_int_code`. -/
  | reading
  /-- `sendto`, in `send_all`. -/
  | sending
  /-- None: `serve` has returned. -/
  | returned
deriving DecidableEq, Repr

/-- The variables of `serve`. -/
structure Server where
  /-- `recv_buffer`. -/
  recvBuffer : Block
  /-- `send_buffer`. -/
  sendBuffer : Block
  /-- `*queue`. -/
  queue : MessageQueue
  /-- The socket is in `readfds`. -/
  readSocket : Bool
  /-- Stdin is in `readfds`. -/
  readStdin : Bool
  /-- The socket is in `writefds`. -/
  writeSocket : Bool
  /-- `pwritefds` is not `NULL`. -/
  pwritefds : Bool
  /-- `messages_received`. -/
  messagesReceived : ℕ
  /-- The first `receives_position` entries of `receives`, or `none` if it is `NULL`. -/
  receives : Option (List Timespec)
  /-- The first `sends_position` entries of `sends`, or `none` if it is `NULL`. -/
  sends : Option (List Timespec)
  /-- The next system call. -/
  point : ServePoint
  /-- History: the datagrams whose answers have been queued. -/
  queued : List Datagram
  /-- History: the datagrams sent. -/
  sent : List Entry
deriving DecidableEq, Repr

/-- The state in which `serve` makes its first system call. -/
def Server.initial (recvBuffer sendBuffer : Block) (queue : MessageQueue)
    (receives sends : Option (List Timespec)) : Server :=
  { recvBuffer, sendBuffer, queue, readSocket := true, readStdin := true, writeSocket := false
    pwritefds := true, messagesReceived := 0, receives, sends, point := .selecting
    queued := [], sent := [] }

/-! ### The functions -/

/-- How one turn of the loop of `recv_all` or `send_all` ends. -/
inductive Turn
  /-- The loop goes on. -/
  | again
  /-- The function returns `0`. -/
  | done
  /-- The function returns `-1`. -/
  | failed
deriving DecidableEq, Repr

/-- Take a timestamp if there is an array for it and the array is not full. The outer `none` is a
failure of the clock. -/
def recordTimestamp (stamps : Option (List Timespec)) (clock : Option Timespec) :
    Option (Option (List Timespec)) :=
  match stamps with
  | none => some none
  | some stamps =>
    if stamps.length < timestampsMaxlength then clock.map fun now => some (stamps ++ [now])
    else some (some stamps)

/-- One turn of the loop of `recv_all`. -/
def recvAll (s : Server) : RecvResult → Option (Server × Turn)
  | .again => some (s, .done)
  | .failed => some (s, .failed)
  | .datagram d clock => do
    let recvBuffer ← s.recvBuffer.store 0 d.bytes
    match ← makeAnswer recvBuffer d.bytes.length s.sendBuffer with
    | none => return ({ s with recvBuffer }, .failed)
    | some (sendBuffer, bytesToSend) =>
      let message ← sendBuffer.load 0 bytesToSend
      let (r, queue) ← pushMessage s.queue { address := d.address, message }
      if r ≠ 0 then return ({ s with recvBuffer, sendBuffer, queue }, .failed)
      else
        let s := { s with recvBuffer, sendBuffer, queue, queued := s.queued ++ [d]
                          messagesReceived := s.messagesReceived + 1 }
        match recordTimestamp s.receives clock with
        | none => return (s, .failed)
        | some receives => return ({ s with receives }, .again)

/-- One turn of the loop of `send_all`, when the queue is not empty. -/
def sendAll (s : Server) (r : SendResult) : Option (Server × Turn) := do
  match ← getMessage s.queue with
  | none => return (s, .failed)
  | some got =>
    let e ← got.entry s.queue.buffer
    match r with
    | .again => return (s, .done)
    | .failed => return (s, .failed)
    | .returned bytesSent clock =>
      let s := { s with sent := s.sent ++ [{ e with message := e.message.take bytesSent }] }
      if bytesSent < got.size then return (s, .failed)
      else
        let s := { s with queue := s.queue.commit got }
        match recordTimestamp s.sends clock with
        | none => return (s, .failed)
        | some sends => return ({ s with sends }, .again)

/-- `check_int_code`: the return code. -/
def checkIntCode (chunks : List (List UInt8)) (again : Bool) : ℤ :=
  if chunks.any fun chunk => chunk.contains stopCharacter then -1
  else if again then 0 else -1

/-- `serve` returns. -/
def Server.stop (s : Server) : Server := { s with point := .returned }

/-- Behind `send_all`. -/
def Server.afterSending (s : Server) : Server :=
  if isQueueEmpty s.queue then
    { s with writeSocket := false, pwritefds := false, point := .selecting }
  else { s with point := .selecting }

/-- At the head of the loop of `send_all`. -/
def Server.continueSending (s : Server) : Server :=
  if isQueueEmpty s.queue then s.afterSending else { s with point := .sending }

/-- From the test of `pwritefds` on. -/
def Server.startSending (s : Server) : Server :=
  if s.pwritefds then
    if s.writeSocket then s.continueSending
    else { s with writeSocket := true, point := .selecting }
  else { s with point := .selecting }

/-- From the test of stdin on. -/
def Server.startReading (s : Server) : Server :=
  if s.readStdin then { s with point := .reading }
  else { s with readStdin := true }.startSending

/-- From the test of the socket on. -/
def Server.startReceiving (s : Server) : Server :=
  if s.readSocket then { s with point := .receiving }
  else { s with readSocket := true }.startReading

/-- The dump of the timestamps that a signal has asked for, after which they start anew. The
result is `none` if the file cannot be opened. -/
def Server.dumpTimestamps (s : Server) : Option Bool → Option Server
  | none => some s
  | some false => none
  | some true =>
    some { s with receives := s.receives.map fun _ => [], sends := s.sends.map fun _ => [] }

/-- If the queue is not empty, the socket is added to the set that is waited for. -/
def Server.prepareSelect (s : Server) : Server :=
  if isQueueEmpty s.queue then s else { s with pwritefds := true, writeSocket := true }

/-- What `serve` does with the outcome of `pselect`. -/
def Server.afterSelect (s : Server) : SelectResult → Server
  | .failed => s.stop
  | .interrupted | .timeout =>
    { s with readSocket := true, readStdin := true, writeSocket := s.pwritefds || s.writeSocket
             messagesReceived := 0 }
  | .ready socket stdin write =>
    { s with readSocket := s.readSocket && socket, readStdin := s.readStdin && stdin
             writeSocket := s.writeSocket && (!s.pwritefds || write) }.startReceiving

/-- One system call of `serve`, and everything up to the next one. -/
def serveStep (s : Server) (i : SystemResult) : Option Server :=
  match s.point, i with
  | .selecting, .select dump r =>
    match s.dumpTimestamps dump with
    | none => some s.stop
    | some s => some (s.prepareSelect.afterSelect r)
  | .receiving, .recvfrom r => do
    let (s, turn) ← recvAll s r
    match turn with
    | .again => return s
    | .done => return s.startReading
    | .failed => return s.stop
  | .reading, .fread chunks again =>
    if checkIntCode chunks again ≠ 0 then some s.stop else some s.startSending
  | .sending, .sendto r => do
    let (s, turn) ← sendAll s r
    match turn with
    | .again => return s.continueSending
    | .done => return s.afterSending
    | .failed => return s.stop
  | _, _ => none

end DnsTools
