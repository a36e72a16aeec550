import DnsTools.Lib.Ledger
import DnsTools.Lib.Strtoul
import DnsTools.Mig.Domains
import DnsTools.Mig.Queries

/-!
# The options

`get_options` of `main.c` and the functions that read the arguments of options. `get_options` is a
state machine: an input is what `getopt_long` returns next, together with what the system answers
while the option is handled.

Here `get_domains` is told with the blocks it allocates and releases. What it reads and copies in
between is the loop of `getDomains`.

The error label closes the output, and an output that cannot be opened is a null pointer there. The
program does not survive `fclose(NULL)`, so this is an end of its own.
-/

namespace DnsTools

open Memory Strtoul

/-- The argument of an option: a string, without the NUL character that ends it. -/
structure CString where
  /-- Its characters. -/
  chars : List UInt8
  /-- None of them is NUL. -/
  nonzero : 0 ∉ chars
deriving DecidableEq, Repr

/-! ### Numbers -/

/-- `get_port_value`: the return code, and `*port`. -/
def getPortValue (string : CString) (port : UInt16) : ℤ × UInt16 :=
  let number := strtoul 10 string.chars
  -- `*endptr` is NUL at the end of the string only
  if number.endptr ≠ string.chars.length ∨ number.erange ∨ ushrtMax < number.value then (-1, port)
  else (0, UInt16.ofNat number.value)

/-- `get_query_number_value`: the return code, and `*number`. -/
def getQueryNumberValue (string : CString) (number : ℕ) : ℤ × ℕ :=
  let value := strtoul 10 string.chars
  if value.endptr ≠ string.chars.length ∨ value.erange then (-1, number)
  else (0, value.value)

theorem length_zeroClient : (List.replicate clientIdLength (0 : UInt8)).length = clientIdLength :=
  List.length_replicate

/-- `client[i] = value`, for `i` below `CLIENT_ID_LENGTH`. -/
def ClientId.set (client : ClientId) (i : ℕ) (value : UInt8) : ClientId where
  bytes := client.bytes.set i value
  length_bytes := by rw [List.length_set, client.length_bytes]

/-- The loop of `get_client_value` from `i` on, with `left` turns to go. -/
def clientLoop (string : List UInt8) : ℕ → ℕ → ClientId → Option (ℤ × ClientId)
  | 0, _, client => some (0, client)
  | left + 1, i, client => do
    let byte := [← string[2 * i]?, ← string[2 * i + 1]?]
    let number := strtoul 16 byte
    if number.endptr ≠ byte.length ∨ number.erange ∨ ucharMax < number.value then
      return (-1, client)
    clientLoop string left (i + 1) (client.set i (UInt8.ofNat number.value))

/-- `get_client_value`: the return code, and `client`. -/
def getClientValue (string : CString) (client : ClientId) : Option (ℤ × ClientId) :=
  if string.chars.length ≠ 2 * clientIdLength then some (-1, client)
  else clientLoop string.chars clientIdLength 0 client

/-! ### The domains -/

/-- A `FILE *`. -/
inductive Stream
  /-- `stdout`. -/
  | stdout
  /-- `NULL`. -/
  | null
  /-- The file that was opened as number `n`. -/
  | file (n : ℕ)
deriving DecidableEq, Repr

/-- `struct mdig_options`. A pointer to a block is the number of the block. -/
structure MdigOptions where
  /-- `server.sin_addr`. -/
  sinAddr : UInt32
  /-- `server.sin_port`. -/
  sinPort : UInt16
  /-- `got_client`. -/
  gotClient : Bool
  /-- `client`. -/
  client : ClientId
  /-- `got_query_number`. -/
  gotQueryNumber : Bool
  /-- `query_number`. -/
  queryNumber : ℕ
  /-- `query_limit`. -/
  queryLimit : ℕ
  /-- `domain_count`. -/
  domainCount : ℕ
  /-- `domains`. -/
  domains : Option ℕ
  /-- `output`. -/
  output : Stream
  /-- `verbose`. -/
  verbose : Bool
deriving DecidableEq, Repr

/-- What `*count` has become when the loop of `get_domains` ends, or gives the file up. -/
def domainsCounted (buffer : Block) : ℕ → ℕ → DomainsState → ℕ
  | 0, _, s => s.count
  | left + 1, i, s =>
    match domainsTurn buffer i s with
    | some (.ok s) => domainsCounted buffer left (i + 1) s
    | _ => s.count

/-- `get_domains`, called for the fields of the options: the return code, the options and the
blocks. `malloc` answers the request for the read buffer, and `malloc'` that for the names. -/
def loadDomains (file : DomainFile) (malloc malloc' : Malloc) (options : MdigOptions)
    (blocks : Ledger) : Option (ℤ × MdigOptions × Ledger) := do
  if file.opens = false then return (-1, options, blocks)
  if file.stats = false then return (-1, options, blocks)
  if domainsFileLimit < file.stSize then return (-1, options, blocks)
  match malloc.alloc file.stSize with
  | none => return (-1, options, blocks)
  | some contents =>
    let (buffer, blocks) := blocks.malloc
    if file.reads = false then return (-1, options, blocks.free (some buffer))
    let contents ← contents.store 0 file.bytes
    if file.bytes.length = 0 then return (-1, options, blocks.free (some buffer))
    let options := { options with domainCount := 0 }
    match malloc'.alloc (domainsSize file.bytes.length) with
    | none => return (-1, { options with domains := none }, blocks.free (some buffer))
    | some names =>
      let (domains, blocks) := blocks.malloc
      let start : DomainsState :=
        { dst := ⟨names, 0⟩, srcOffset := 0, zoneCount := 0, length := 0, line := 1, count := 0 }
      let options :=
        { options with
          domains := some domains
          domainCount := domainsCounted contents file.bytes.length 0 start }
      match ← domainsLoop contents file.bytes.length 0 start with
      | .error _ => return (-1, options, (blocks.free (some buffer)).free options.domains)
      | .ok s =>
        match ← domainsFinish contents s with
        | .loaded _ count =>
          return (0, { options with domainCount := count }, blocks.free (some buffer))
        | _ => return (-1, options, (blocks.free (some buffer)).free options.domains)

/-! ### The loop -/

/-- `enum get_options_result`. -/
inductive GetOptionsResult
  /-- `GOR_OK`. -/
  | ok
  /-- `GOR_HELP`. -/
  | help
  /-- `GOR_ERROR`. -/
  | error
deriving DecidableEq, Repr

/-- How `get_options` ends. -/
inductive OptionsEnd
  /-- It returns. -/
  | returned (result : GetOptionsResult)
  /-- It calls `fclose(NULL)`, where the program dies. -/
  | crashed
deriving DecidableEq, Repr

/-- What `getopt_long` returns, with the argument of the option, or what the system makes of it. -/
inductive GivenOption
  /-- `'h'`. -/
  | help
  /-- `'s'`, with the address that `inet_aton` stores, if the argument is one. -/
  | server (address : Option UInt32)
  /-- `'p'`. -/
  | port (string : CString)
  /-- `'c'`. -/
  | client (string : CString)
  /-- `'n'`. -/
  | queries (string : CString)
  /-- `'l'`. -/
  | limit (string : CString)
  /-- `'d'`, with the file and the two allocations of `get_domains`. -/
  | domains (file : DomainFile) (malloc malloc' : Malloc)
  /-- `'o'`, and whether `fopen` succeeds. -/
  | output (opens : Bool)
  /-- `'v'`. -/
  | verbose
  /-- `'?'`. -/
  | invalid
  /-- Any other character. -/
  | unexpected
  /-- `-1`, when there are no more options. -/
  | done

/-- The variables of `get_options`, and the calls of `free`, `fopen` and `fclose` so far. -/
structure OptionsState where
  /-- `*mdig_options`. -/
  options : MdigOptions
  /-- `got_address`. -/
  gotAddress : Bool
  /-- The blocks allocated and released. -/
  blocks : Ledger
  /-- The number of files opened. -/
  opened : ℕ
  /-- The arguments of `fclose`. -/
  closed : List Stream
  /-- How it ends, once it does. -/
  result : Option OptionsEnd
deriving DecidableEq, Repr

/-- The error label of `get_options`. -/
def OptionsState.error (s : OptionsState) : OptionsState :=
  let s := { s with blocks := s.blocks.free s.options.domains }
  match s.options.output with
  | .stdout => { s with result := some (.returned .error) }
  | .null => { s with result := some .crashed }
  | .file n =>
    { s with closed := s.closed ++ [.file n]
             options := { s.options with output := .stdout }
             result := some (.returned .error) }

/-- One turn of the loop of `get_options`; the last one includes what is behind it. -/
def optionStep (s : OptionsState) (i : GivenOption) : Option OptionsState :=
  if s.result.isSome then none
  else match i with
    | .help => some { s with blocks := s.blocks.free s.options.domains
                             result := some (.returned .help) }
    | .server none => some s.error
    | .server (some address) =>
      some { s with options := { s.options with sinAddr := address }, gotAddress := true }
    | .port string =>
      let (r, sinPort) := getPortValue string s.options.sinPort
      if r ≠ 0 then some s.error
      else some { s with options := { s.options with sinPort := htons sinPort } }
    | .client string => do
      let (r, client) ← getClientValue string s.options.client
      let s := { s with options := { s.options with client } }
      if r ≠ 0 then return s.error
      return { s with options := { s.options with gotClient := true } }
    | .queries string =>
      let (r, queryNumber) := getQueryNumberValue string s.options.queryNumber
      if r ≠ 0 then some s.error
      else some { s with options := { s.options with queryNumber, gotQueryNumber := true } }
    | .limit string =>
      let (r, queryLimit) := getQueryNumberValue string s.options.queryLimit
      if r ≠ 0 then some s.error
      else some { s with options := { s.options with queryLimit } }
    | .domains file malloc malloc' => do
      let (r, options, blocks) ← loadDomains file malloc malloc' s.options s.blocks
      let s := { s with options, blocks }
      if r ≠ 0 then return s.error
      return s
    | .output opens =>
      if opens then
        some { s with options := { s.options with output := .file s.opened }
                      opened := s.opened + 1 }
      else some { s with options := { s.options with output := .null } }.error
    | .verbose => some { s with options := { s.options with verbose := true } }
    | .invalid => some s.error
    | .unexpected => some s.error
    | .done =>
      if s.gotAddress = false then some s.error
      else if s.options.domainCount < 1 then some s.error
      else some { s with result := some (.returned .ok) }

/-- The state in front of the loop, for whatever the options hold when `get_options` is called. -/
def OptionsState.initial (options : MdigOptions) : OptionsState where
  options :=
    { options with
      sinPort := htons 53, gotClient := false, gotQueryNumber := false, queryLimit := 0
      domainCount := 0, domains := none, output := .stdout, verbose := false }
  gotAddress := false
  blocks := ⟨0, []⟩
  opened := 0
  closed := []
  result := none

/-! ### What a turn can do -/

/-- The options have been accepted so far, or altogether. -/
def OptionsState.Accepted (s : OptionsState) : Prop :=
  s.result = none ∨ s.result = some (.returned .ok)

/-- At the error label the program dies exactly if the output is a null pointer. -/
theorem OptionsState.result_error (s : OptionsState) :
    s.error.result = some (if s.options.output = .null then .crashed else .returned .error) := by
  cases houtput : s.options.output <;> simp [error, houtput]

theorem OptionsState.result_error_ne_none (s : OptionsState) : s.error.result ≠ none := by
  rw [s.result_error]
  exact Option.some_ne_none _

theorem OptionsState.not_accepted_error (s : OptionsState) : ¬s.error.Accepted := by
  rw [Accepted, s.result_error]
  split_ifs <;> simp

theorem result_of_optionStep {s s' : OptionsState} {i : GivenOption}
    (h : optionStep s i = some s') : s.result = none := by
  rw [optionStep.eq_def] at h
  split at h
  · simp at h
  · rename_i hresult
    exact Option.not_isSome_iff_eq_none.mp hresult

end DnsTools
