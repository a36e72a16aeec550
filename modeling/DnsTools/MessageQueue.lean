import DnsTools.Lib.Cursor
import DnsTools.Platform

/-!
# The message queue

`message_queue.c`: a ring buffer of variable-size records, each an address and a message with
their lengths in front. Pointers into the buffer are offsets from its start. The machine is
little-endian with a four-byte `socklen_t` and an eight-byte `size_t`.

The return code of a C function is kept as an integer. A function that can leave the buffer
returns an `Option`, whose `none` is undefined behaviour and not a return code.

## The wrap flag

A record begins with the byte `messageFlag`. When a record does not fit between the tail and the
end of the buffer, `pushMessage` writes `queueWrapFlag` at the tail and tries again from the
start. The flag stays there even if the second try fails too: a failed push changes the buffer.
-/

namespace DnsTools

open Memory Endian

/-- `MESSAGE_FLAG`. -/
def messageFlag : UInt8 := 0

/-- `QUEUE_WRAP_FLAG`. -/
def queueWrapFlag : UInt8 := 0xff

/-- `struct message_queue`. -/
structure MessageQueue where
  /-- The size of the buffer. -/
  size : ℕ
  /-- The buffer. -/
  buffer : Block
  /-- Where the oldest record starts, or the wrap flag in front of it. -/
  head : ℕ
  /-- Where the next record goes. -/
  tail : ℕ
deriving DecidableEq, Repr

/-- `IS_QUEUE_EMPTY`. -/
def isQueueEmpty (q : MessageQueue) : Bool := q.head == q.tail

/-- `make_message_queue`; `none` is the return value `-1`. -/
def makeMessageQueue (malloc : Malloc) (size : ℕ) : Option MessageQueue :=
  (malloc.alloc size).map fun buffer => { size, buffer, head := 0, tail := 0 }

/-- What is queued: the bytes of an address and of a message. -/
structure Entry where
  /-- The peer's address. -/
  address : List UInt8
  /-- The payload. -/
  message : List UInt8
deriving DecidableEq, Repr

/-- `message_size`, computed in `size_t`. -/
def messageSize (e : Entry) : ℕ :=
  (1 + sizeofSocklen + e.address.length + sizeofSize + e.message.length) % sizeModulus

/-- `push_message_to_the_limit`: the return code, and the buffer and the tail it leaves. -/
def pushMessageToTheLimit (buffer : Block) (tail limit : ℕ) (e : Entry) :
    Option (ℤ × Block × ℕ) :=
  if limit ≤ tail + messageSize e then some (-1, buffer, tail)
  else do
    let c ← (Cursor.mk buffer tail).emits
      [[messageFlag],
        leBytes sizeofSocklen e.address.length, e.address,
        leBytes sizeofSize e.message.length, e.message]
    return (0, c.block, c.off)

/-- `push_message`. -/
def pushMessage (queue : MessageQueue) (e : Entry) : Option (ℤ × MessageQueue) :=
  if queue.tail < queue.head then do
    let (r, buffer, tail) ← pushMessageToTheLimit queue.buffer queue.tail queue.head e
    if r ≠ 0 then return (-1, { queue with buffer })
    return (0, { queue with buffer, tail })
  else do
    let (r, buffer, tail) ← pushMessageToTheLimit queue.buffer queue.tail queue.size e
    if r ≠ 0 then
      if queue.head = 0 then return (-1, { queue with buffer })
      let buffer ← buffer.store tail [queueWrapFlag]
      let (r, buffer, tail) ← pushMessageToTheLimit buffer 0 queue.head e
      if r ≠ 0 then return (-1, { queue with buffer })
      return (0, { queue with buffer, tail })
    return (0, { queue with buffer, tail })

/-- The output parameters of `get_message`: pointers into the buffer, and lengths. -/
structure GotMessage where
  /-- What the caller stores into `queue->head` to remove the record. -/
  newHead : ℕ
  /-- Where the address lies. -/
  address : ℕ
  /-- The length of the address. -/
  addressLength : ℕ
  /-- Where the message lies. -/
  message : ℕ
  /-- The length of the message. -/
  size : ℕ
deriving DecidableEq, Repr

/-- `get_message`; the inner `none` is the return value `-1`. -/
def getMessage (queue : MessageQueue) : Option (Option GotMessage) :=
  if queue.head = queue.tail then some none
  else do
    let flag ← queue.buffer.load queue.head 1
    let head := if flag = [queueWrapFlag] then 0 else queue.head
    let head := head + 1
    let addressLength := leNat (← queue.buffer.load head sizeofSocklen)
    let head := head + sizeofSocklen
    let address := head
    let head := head + addressLength
    let size := leNat (← queue.buffer.load head sizeofSize)
    let head := head + sizeofSize
    let message := head
    let head := head + size
    return some { newHead := head, address, addressLength, message, size }

/-- The bytes the output parameters of `get_message` point to. -/
def GotMessage.entry (got : GotMessage) (buffer : Block) : Option Entry := do
  let address ← buffer.load got.address got.addressLength
  let message ← buffer.load got.message got.size
  return { address, message }

/-- `queue->head = new_head`. -/
def MessageQueue.commit (queue : MessageQueue) (got : GotMessage) : MessageQueue :=
  { queue with head := got.newHead }

end DnsTools
