import DnsTools.Lib.Cursor
import DnsTools.Platform

/-!
# Reading the domain file

`get_domains` and `print_domains` of `main.c`. A file of domain names, one per line with labels
separated by dots, becomes a buffer of length-prefixed labels, each name closed by a zero byte and
the whole by another.

`get_domains` makes one pass with four coupled variables. `zone_count` counts the bytes of the
label being read and `src_offset` points to its first byte; `length` counts the bytes of the line,
dots included; `dst_offset` is where the next label goes. A label is copied when the byte after it
is reached, at a dot, at a newline or at the end of the file. The source repeats the copy at each
of these places; it is `copyZone` here.

System calls that can fail are inputs, gathered in `DomainFile`.
-/

namespace DnsTools

open Memory

/-- `DOMAINS_FILE_LIMIT`. -/
def domainsFileLimit : ℕ := 50 * 1024 * 1024

/-- The character `'.'`. -/
def dot : UInt8 := 0x2e

/-- The character `'\n'`. -/
def newline : UInt8 := 0x0a

/-- What the system answers about the file that is to be read. -/
structure DomainFile where
  /-- `open` succeeds. -/
  opens : Bool
  /-- `fstat` succeeds. -/
  stats : Bool
  /-- `st_size`. -/
  stSize : ℕ
  /-- `read` succeeds. -/
  reads : Bool
  /-- The bytes `read` stores. -/
  bytes : List UInt8
deriving DecidableEq, Repr

/-- A file that is there and is read to its end. -/
def DomainFile.ofContents (bytes : List UInt8) : DomainFile :=
  { opens := true, stats := true, stSize := bytes.length, reads := true, bytes }

/-- How `get_domains` ends. Only `loaded` is the return value `0`. -/
inductive DomainsOutcome
  /-- It failed before it stored anything through its parameters. -/
  | untouched
  /-- The second allocation failed: `*count` is `0` and `*domains` is `NULL`. -/
  | noMemory
  /-- The line is not a domain name: `*domains` has been freed and not changed since. -/
  | invalidName (line : ℕ)
  /-- The names are in `*domains`, and there are `*count` of them. -/
  | loaded (domains : Block) (count : ℕ)
deriving DecidableEq, Repr

/-- The variables of the loop of `get_domains`. -/
structure DomainsState where
  /-- `*domains` and `dst_offset`. -/
  dst : Cursor
  /-- `src_offset`. -/
  srcOffset : ℕ
  /-- `zone_count`. -/
  zoneCount : ℕ
  /-- `length`. -/
  length : ℕ
  /-- `line`. -/
  line : ℕ
  /-- `*count`. -/
  count : ℕ

/-- Copy the current label behind its length byte. -/
def copyZone (buffer : Block) (s : DomainsState) : Option Cursor := do
  let dst ← s.dst.emit [UInt8.ofNat s.zoneCount]
  let zone ← buffer.load s.srcOffset s.zoneCount
  dst.emit zone

/-- The body of the loop of `get_domains` for the byte at offset `i`. The inner `error` is the
number of an invalid line. -/
def domainsTurn (buffer : Block) (i : ℕ) (s : DomainsState) :
    Option (Except ℕ DomainsState) := do
  let current ← buffer.bytes[i]?
  if current = dot then
    let s := { s with length := s.length + 1 }
    if s.zoneCount = 0 then return .error s.line
    let dst ← copyZone buffer s
    return .ok { s with dst, zoneCount := 0, srcOffset := i + 1 }
  else if current = newline then
    if s.length = 0 then return .ok { s with line := s.line + 1 }
    if s.zoneCount = 0 then return .error s.line
    let dst ← copyZone buffer s
    let dst ← dst.emit [0]
    return .ok { dst, count := s.count + 1, zoneCount := 0, srcOffset := i + 1, length := 0
                 line := s.line + 1 }
  else
    let s := { s with zoneCount := s.zoneCount + 1 }
    if ucharMax < s.zoneCount then return .error s.line
    return .ok { s with length := s.length + 1 }

/-- The loop of `get_domains` over the `left` bytes from offset `i` on. -/
def domainsLoop (buffer : Block) : ℕ → ℕ → DomainsState → Option (Except ℕ DomainsState)
  | 0, _, s => some (.ok s)
  | left + 1, i, s => do
    match ← domainsTurn buffer i s with
    | .error line => return .error line
    | .ok s => domainsLoop buffer left (i + 1) s

/-- What `get_domains` does after its loop. -/
def domainsFinish (buffer : Block) (s : DomainsState) : Option DomainsOutcome := do
  if 0 < s.length then
    if s.zoneCount = 0 then return .invalidName s.line
    let dst ← copyZone buffer s
    let dst ← dst.emit [0]
    let dst ← dst.emit [0]
    return .loaded dst.block (s.count + 1)
  else
    let dst ← s.dst.emit [0]
    return .loaded dst.block s.count

/-- The size `get_domains` allocates for the names of a file of `n` bytes. -/
def domainsSize (n : ℕ) : ℕ := 3 * (n / 2 + n % 2) + 1

/-- `get_domains`. -/
def getDomains (malloc : Malloc) (file : DomainFile) : Option DomainsOutcome := do
  if file.opens = false then return .untouched
  if file.stats = false then return .untouched
  if domainsFileLimit < file.stSize then return .untouched
  match malloc.alloc file.stSize with
  | none => return .untouched
  | some buffer =>
    if file.reads = false then return .untouched
    let buffer ← buffer.store 0 file.bytes
    if file.bytes.length = 0 then return .untouched
    match malloc.alloc (domainsSize file.bytes.length) with
    | none => return .noMemory
    | some domains =>
      match ← domainsLoop buffer file.bytes.length 0
        { dst := ⟨domains, 0⟩, srcOffset := 0, zoneCount := 0, length := 0, line := 1
          count := 0 } with
      | .error line => return .invalidName line
      | .ok s => domainsFinish buffer s

/-! ### Walking over the names by their length bytes -/

/-- The inner loop of `print_domains`: the labels of one name, and the offset of its closing zero
byte. Each label takes one unit of fuel. -/
def printZones (domains : Block) : ℕ → ℕ → Option (List (List UInt8) × ℕ)
  | 0, _ => none
  | fuel + 1, offset => do
    let zoneCount ← domains.bytes[offset]?
    if zoneCount = 0 then return ([], offset)
    else
      let zone ← domains.load (offset + 1) zoneCount.toNat
      let (zones, offset) ← printZones domains fuel (offset + 1 + zoneCount.toNat)
      return (zone :: zones, offset)

/-- The outer loop of `print_domains`: the names, each as its labels. Each name takes one unit of
fuel. -/
def printNames (domains : Block) : ℕ → ℕ → Option (List (List (List UInt8)))
  | 0, _ => none
  | fuel + 1, offset => do
    let c ← domains.bytes[offset]?
    if c = 0 then return []
    else
      let (zones, offset) ← printZones domains (domains.size + 1) offset
      let names ← printNames domains fuel (offset + 1)
      return zones :: names

/-- `print_domains`: the names it prints, each as its labels. -/
def printDomains (domains : Block) : Option (List (List (List UInt8))) :=
  printNames domains (domains.size + 1) 0

end DnsTools
