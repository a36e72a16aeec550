import DnsTools.Lib.Decimal
import DnsTools.Lib.Scanner
import Mathlib.Data.UInt

/-!
# The questions of `dnstest`

`msg.go`: the list of domains, `loadData`, which reads another one from a file, and `getMsg`, which
makes the question for a seed. Strings are lists of characters, one for each byte.

`SetQuestion` of the DNS package fills in a message for a name, a type and the id it draws. It is a
parameter here. A result is `none` where the program panics.
-/

namespace DnsTools

/-- `domains`, the predefined list. -/
def predefinedDomains : List (List Char) :=
  ["amazon.com.".toList, "bing.com.".toList, "ebay.com.".toList, "facebook.com.".toList,
    "google.com.".toList, "instagram.com.".toList, "linkedin.com.".toList, "twitter.com.".toList,
    "yahoo.com.".toList, "youtube.com.".toList]

/-- A file that has been opened. -/
structure DataFile where
  /-- Its bytes. -/
  content : List UInt8
  /-- A read behind that many bytes fails, with the error. -/
  fails : Option (ℕ × String)
deriving DecidableEq, Repr

/-- The bytes that are read before an error, or before the end of the file. -/
def DataFile.read (file : DataFile) : List UInt8 :=
  match file.fails with
  | none => file.content
  | some (n, _) => file.content.take n

/-- What `scanner` yields. An error of the reader ends the text as the end of the file does. -/
def DataFile.scanned (file : DataFile) : Scanner.Scanned :=
  Scanner.scan Scanner.maxScanTokenSize (file.read.splitOn Scanner.newline)

/-- `scanner.Text()`. -/
def scannerText (line : List UInt8) : List Char := line.map fun b => Char.ofNat b.toNat

/-- The body of the loop of `loadData`. -/
def loadLine (domains : List (List Char)) (line : List Char) : Option (List (List Char)) := do
  let final ← line.getLast?
  let line := if final ≠ '.' then line ++ ['.'] else line
  return domains ++ [line]

/-- `loadData`: the error, and `domains`. What `os.Open` returns for a path is a parameter. -/
def loadData (osOpen : List Char → Except String DataFile) (filepath : List Char)
    (domains : List (List Char)) : Option (Option String × List (List Char)) :=
  if filepath = [] then some (none, domains)
  else match osOpen filepath with
    | .error err => some (some err, domains)
    | .ok handle => do
      let domains ← (handle.scanned.lines.map scannerText).foldlM loadLine []
      return (none, domains)

/-- `dns.TypeA`. -/
def typeA : UInt16 := 1

/-- `dns.EDNS0_SUBNET`, with the fields `getMsg` sets. -/
structure Edns0Subnet where
  /-- `SourceNetmask`. -/
  sourceNetmask : ℕ
  /-- `Family`. -/
  family : ℕ
  /-- `Address`. -/
  address : List UInt8
deriving DecidableEq, Repr

/-- `dns.OPT`, with the fields `getMsg` sets. -/
structure Opt where
  /-- `Hdr.Name`. -/
  name : List Char
  /-- `Hdr.Class`. -/
  udpSize : ℕ
  /-- `Option`. -/
  option : List Edns0Subnet
deriving DecidableEq, Repr

/-- `dns.Msg`. -/
structure Msg where
  /-- `Id`. -/
  id : UInt16
  /-- `Question[0].Name`. -/
  name : List Char
  /-- `Question[0].Qtype`. -/
  qtype : UInt16
  /-- `Extra`. -/
  extra : List Opt
deriving DecidableEq, Repr

/-- `SetQuestion`: the name, the type and the id it draws. -/
abbrev SetQuestion := List Char → UInt16 → UInt16 → Msg

/-- A `SetQuestion` that does no more than it says. -/
def plainQuestion : SetQuestion := fun name qtype id => { id, name, qtype, extra := [] }

/-- `rand.Intn(254)` has a result. -/
instance neZero_octets : NeZero 254 := ⟨by decide⟩

/-- `randIP`, from the three results of `rand.Intn(254)`. -/
def randIP (o1 o2 o3 : Fin 254) : List UInt8 :=
  [UInt8.ofNat (o1 + 1), UInt8.ofNat (o2 + 1), UInt8.ofNat (o3 + 1), 0]

/-- `seed % int64(len(domains))` as an index: not if there is nothing to divide by, nor if the
remainder is negative, as it is with the dividend. -/
def seedIndex (seed : Int64) (domains : List (List Char)) : Option ℕ :=
  if domains.length = 0 then none
  else
    let i := seed.toInt.tmod domains.length
    if i < 0 then none else some i.toNat

/-- The name `getMsg` asks for. -/
def questionName (seed : Int64) (domains : List (List Char)) (uncached : Bool) :
    Option (List Char) := do
  let i ← seedIndex seed domains
  let domain ← domains[i]?
  return if uncached then Decimal.formatInt seed.toInt ++ '.' :: domain else domain

/-- `getMsg`. The random choices are the id that `SetQuestion` draws and the octets of the
address. -/
def getMsg (setQuestion : SetQuestion) (domains : List (List Char)) (seed : Int64)
    (uncached ecs : Bool) (id : UInt16) (ip : Fin 254 × Fin 254 × Fin 254) : Option Msg := do
  let domain ← questionName seed domains uncached
  let msg := setQuestion domain typeA id
  if !ecs then return msg
  let subnet := { sourceNetmask := 24, family := 1, address := randIP ip.1 ip.2.1 ip.2.2 }
  return { msg with extra := [{ name := ['.'], udpSize := 4096, option := [subnet] }] }

/-! ### Names -/

variable {setQuestion : SetQuestion} {domains : List (List Char)} {seed : Int64}
  {uncached ecs : Bool} {id : UInt16} {ip : Fin 254 × Fin 254 × Fin 254} {msg : Msg}

/-- The message asks for the name of the seed, if `SetQuestion` stores the name it is given. -/
theorem questionName_of_getMsg (hset : ∀ name qtype id, (setQuestion name qtype id).name = name)
    (h : getMsg setQuestion domains seed uncached ecs id ip = some msg) :
    questionName seed domains uncached = some msg.name := by
  obtain ⟨name, hname, h⟩ := Option.bind_eq_some_iff.mp h
  cases ecs with
  | false =>
    obtain rfl : setQuestion name typeA id = msg := by simpa using h
    rw [hname, hset]
  | true =>
    obtain rfl := Option.some.inj h
    rw [hname]
    exact congrArg some (hset _ _ _).symm

/-- Where a message is made the seed has an index. -/
theorem seedIndex_of_getMsg (h : getMsg setQuestion domains seed uncached ecs id ip = some msg) :
    ∃ i, seedIndex seed domains = some i := by
  obtain ⟨name, hname, -⟩ := Option.bind_eq_some_iff.mp h
  obtain ⟨i, hi, -⟩ := Option.bind_eq_some_iff.mp hname
  exact ⟨i, hi⟩

theorem seedIndex_eq_some {i : ℕ} (h : seedIndex seed domains = some i) :
    domains ≠ [] ∧ (i : ℤ) = seed.toInt.tmod domains.length := by
  simp only [seedIndex] at h
  split_ifs at h with hempty
  refine ⟨fun hnil => hempty (by rw [hnil, List.length_nil]), ?_⟩
  rw [← Option.some.inj h]
  omega

end DnsTools
