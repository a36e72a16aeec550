import DnsTools.Lib.Endian

/-!
# The platform

What the C programs take from their platform and share: the sizes of the integer types on a
little-endian machine with a 64-bit `size_t`, `htons`, `struct timespec`, and the header
`struct dns_query`, which both programs declare.
-/

namespace DnsTools

/-! ### Integer types -/

/-- `sizeof(size_t)`. -/
def sizeofSize : ℕ := 8

/-- The number of values of a `size_t`, and of an `unsigned long long`. -/
def sizeModulus : ℕ := 2 ^ 64

/-- `sizeof(socklen_t)`. -/
def sizeofSocklen : ℕ := 4

/-- `sizeof(unsigned short)`. -/
def sizeofShort : ℕ := 2

/-- `USHRT_MAX`. -/
def ushrtMax : ℕ := 65535

/-- `UCHAR_MAX`. -/
def ucharMax : ℕ := 255

/-- `htons`, which exchanges the bytes on a little-endian machine. -/
def htons (x : UInt16) : UInt16 := Endian.swap16 x

/-- The bytes of a half word stored in network byte order. -/
theorem leBytes_htons (x : UInt16) :
    Endian.leBytes sizeofShort (htons x).toNat = Endian.beBytes 2 x.toNat :=
  Endian.leBytes_swap16 x

/-! ### Time -/

/-- `NANOSECONDS`. -/
def nanoseconds : ℕ := 1000000000

/-- `struct timespec`. The fields are 64-bit patterns; the programs only ever convert them to
`unsigned long long`. -/
structure Timespec where
  /-- Whole seconds. -/
  tvSec : ℕ
  /-- Nanoseconds. -/
  tvNsec : ℕ
deriving DecidableEq, Repr

/-- The conversion both programs make before they compare or print a time: `tv_sec` as
`unsigned long long`, times `NANOSECONDS`, plus `tv_nsec`, modulo `2 ^ 64`. -/
def Timespec.nsec (t : Timespec) : ℕ := (t.tvSec * nanoseconds + t.tvNsec) % sizeModulus

/-! ### `struct dns_query`

Six `unsigned short` fields in network byte order, accessed through a pointer. A field is named
by its offset in the structure. -/

/-- `sizeof(struct dns_query)`. -/
def sizeofDnsQuery : ℕ := 12

namespace DnsQuery

/-- The offset of `transaction_id`. -/
def transactionId : ℕ := 0
/-- The offset of `flags`. -/
def flags : ℕ := 2
/-- The offset of `questions`. -/
def questions : ℕ := 4
/-- The offset of `answers`. -/
def answers : ℕ := 6
/-- The offset of `authorities`. -/
def authorities : ℕ := 8
/-- The offset of `additional`. -/
def additional : ℕ := 10

end DnsQuery

end DnsTools
