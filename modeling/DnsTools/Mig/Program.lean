import DnsTools.Mig.Bookkeeping
import DnsTools.Mig.LoadedNames
import DnsTools.Mig.OptionBlocks
import DnsTools.Mig.Report

/-!
# The whole program

`main` of `main.c` from its options to its return value. The options are read, the queries are made,
the arrays, the socket and the buffer for the answers are set up, the two loops run, and the report
is printed. A step is an option, the setting up, or a system call of the loops; what the system
answers is an input.

Wherever something fails, `main` releases what it has by then in the reverse order, and returns `1`.
The source repeats this at each of its exits; it is `Held.giveUp` here. Behind the loops it closes
the socket and the output, and releases no memory.

The text that `print_domains` prints and the messages of the logger are left out.

## Main results

* `loadDomains_names` — the names that an option leaves in their block
* `mainReached_of_run` — a run of the program is a run of `get_options`, then the setting up, then a
  run of the loops
-/

namespace DnsTools

open Memory

/-! ### What `main` holds -/

/-- `sizeof(struct timespec)`. -/
def sizeofTimespec : ℕ := 16

/-- `sizeof(struct pair_timespec)`. -/
def sizeofPairTimespec : ℕ := 40

/-- What `main` has allocated and opened. A socket has a number like a block. -/
structure Held where
  /-- The blocks allocated and released. -/
  blocks : Ledger
  /-- The blocks that `main` releases when it fails, the last one first: `pairs`, `receives`,
  `sends`, `queries` and the domains, as far as it has got. -/
  pointers : List ℕ
  /-- The sockets opened and closed. -/
  sockets : Ledger
  /-- `s`. -/
  socket : Option ℕ
  /-- The number of files opened. -/
  opened : ℕ
  /-- The arguments of `fclose`. -/
  closed : List Stream
  /-- `mdig_options.output`. -/
  output : Stream
deriving DecidableEq, Repr

namespace Held

/-- What `get_options` leaves. -/
def ofOptions (s : OptionsState) : Held where
  blocks := s.blocks
  pointers := s.options.domains.toList
  sockets := ⟨0, []⟩
  socket := none
  opened := s.opened
  closed := s.closed
  output := s.options.output

/-- One more block. -/
def malloc (h : Held) : Held :=
  { h with blocks := h.blocks.malloc.2, pointers := h.blocks.malloc.1 :: h.pointers }

/-- `iobuffer`, which is never released. -/
def mallocBuffer (h : Held) : Held := { h with blocks := h.blocks.malloc.2 }

/-- The socket. -/
def openSocket (h : Held) : Held :=
  { h with sockets := h.sockets.malloc.2, socket := some h.sockets.malloc.1 }

/-- `if (mdig_options.output != stdout)` and its body. -/
def closeOutput (h : Held) : Held :=
  if h.output = .stdout then h
  else { h with closed := h.closed ++ [h.output], output := .stdout }

/-- What `main` does before it returns `1`. -/
def giveUp (h : Held) : Held :=
  { h with
    sockets := h.sockets.free h.socket
    blocks := h.blocks.frees (h.pointers.map some) }.closeOutput

/-- What it does before it returns `0`. -/
def finish (h : Held) : Held := { h with sockets := h.sockets.free h.socket }.closeOutput

end Held

/-! ### The steps -/

/-- What the system answers between the options and the loops. -/
structure SetUp where
  /-- The allocation of `make_queries`. -/
  queries : Malloc
  /-- What `sends` holds, if it is allocated. -/
  sends : Option (ℕ → Timespec)
  /-- What `receives` holds, if it is allocated. -/
  receives : Option (ℕ → Timespec)
  /-- What `pairs` holds, if it is allocated. -/
  pairs : Option (ℕ → PairTimespec)
  /-- `socket` succeeds. -/
  socket : Bool
  /-- `fcntl` gives the flags. -/
  getFlags : Bool
  /-- `fcntl` sets the flags. -/
  setFlags : Bool
  /-- `iobuffer` is allocated. -/
  iobuffer : Bool

/-- What an input is about. -/
inductive MainInput
  /-- The next option. -/
  | option (i : GivenOption)
  /-- What lies between the options and the loops. -/
  | setUp (a : SetUp)
  /-- A system call of the loops. -/
  | call (i : MigInput)

/-- Where `main` is. -/
inductive MigMain
  /-- In `get_options`, with the names in the block of the domains. -/
  | options (s : OptionsState) (names : Block)
  /-- Behind it. -/
  | ready (s : OptionsState) (names : Block)
  /-- In the loops. -/
  | loops (options : MdigOptions) (held : Held) (m : Mig)
  /-- The program has died in `fclose`. -/
  | crashed (held : Held)
  /-- `main` has returned before the loops. -/
  | stopped (code : ℤ) (held : Held)
  /-- `main` has returned from the loops, and printed the text to its output. -/
  | ended (code : ℤ) (options : MdigOptions) (held : Held) (m : Mig) (printed : List Char)
deriving DecidableEq, Repr

/-- The names that `get_domains` stores, for an option that it does not fail on. -/
def domainsBlock (file : DomainFile) (malloc malloc' : Malloc) : Option Block := do
  let buffer ← malloc.alloc file.stSize
  let buffer ← buffer.store 0 file.bytes
  let names ← malloc'.alloc (domainsSize file.bytes.length)
  match ← domainsLoop buffer file.bytes.length 0 (domainsStart names) with
  | .error _ => none
  | .ok s =>
    match ← domainsFinish buffer s with
    | .loaded names _ => return names
    | _ => none

/-- The names behind an option. -/
def GivenOption.names (names : Block) : GivenOption → Block
  | .domains file malloc malloc' => (domainsBlock file malloc malloc').getD names
  | _ => names

/-- `count`. -/
def MdigOptions.count (options : MdigOptions) : ℕ :=
  if options.gotQueryNumber then options.queryNumber else options.domainCount

/-- `client` of `main`. -/
def MdigOptions.clientId (options : MdigOptions) : Option ClientId :=
  if options.gotClient then some options.client else none

/-- An array of so many entries as `malloc` was asked for, for `count` entries of a size. -/
def allocatedArray {α : Type*} (count size : ℕ) (contents : ℕ → α) : List α :=
  (List.range (count * size % sizeModulus / size)).map contents

/-- The loops go on, or `main` returns. -/
def MigMain.goOn (options : MdigOptions) (held : Held) (m : Mig) : Option MigMain :=
  match m.point with
  | .finished => do
    let text ← m.report
    return .ended 0 options held.finish m text
  | .failed => some (.ended 1 options held.giveUp m [])
  | _ => some (.loops options held m)

/-- The names that are printed in front of everything else. -/
def MdigOptions.shown (options : MdigOptions) (names : Block) :
    Option (List (List (List UInt8))) :=
  if options.verbose then printDomains names else some []

/-- `main` from the return of `get_options` to its first loop. -/
def setUpStep (options : MdigOptions) (names : Block) (held : Held) (a : SetUp) :
    Option MigMain := do
  let _ ← options.shown names
  match ← makeQueries a.queries names options.count options.clientId with
  | none => return .stopped 1 held.giveUp
  | some queries =>
    let held := held.malloc
    match a.sends with
    | none => return .stopped 1 held.giveUp
    | some sends =>
      let held := held.malloc
      match a.receives with
      | none => return .stopped 1 held.giveUp
      | some receives =>
        let held := held.malloc
        match a.pairs with
        | none => return .stopped 1 held.giveUp
        | some pairs =>
          let held := held.malloc
          let sends := allocatedArray options.count sizeofTimespec sends
          let receives := allocatedArray options.count sizeofTimespec receives
          let pairs := allocatedArray options.count sizeofPairTimespec pairs
          -- the loop that clears `receives` and `pairs`
          if receives.length < options.count ∨ pairs.length < options.count then none
          else if a.socket = false then return .stopped 1 held.giveUp
          else
            let held := held.openSocket
            if a.getFlags = false then return .stopped 1 held.giveUp
            else if a.setFlags = false then return .stopped 1 held.giveUp
            else if a.iobuffer = false then return .stopped 1 held.giveUp
            else
              MigMain.goOn options held.mallocBuffer
                (Mig.initial queries options.count options.queryLimit sends receives pairs)

/-- One step of `main`. -/
def mainStep : MigMain → MainInput → Option MigMain
  | .options s names, .option i => do
    let s ← optionStep s i
    match s.result with
    | none => return .options s (i.names names)
    | some (.returned .ok) => return .ready s (i.names names)
    | some (.returned .help) => return .stopped 0 (.ofOptions s)
    | some (.returned .error) => return .stopped 1 (.ofOptions s)
    | some .crashed => return .crashed (.ofOptions s)
  | .ready s names, .setUp a => setUpStep s.options names (.ofOptions s) a
  | .loops options held m, .call i => do
    let m ← migStep m i
    MigMain.goOn options held m
  | _, _ => none

/-- The start, for whatever the options and the memory hold. -/
def MigMain.start (options : MdigOptions) (names : Block) : MigMain :=
  .options (.initial options) names

/-! ### The names -/

/-- The names of a file that has been read, whatever lies behind it in the buffer. -/
theorem loaded_of_finish {buffer names domains : Block} {content : List UInt8} {s : DomainsState}
    {count : ℕ} (hne : content ≠ []) (hlimit : content.length ≤ domainsFileLimit)
    (hstarts : content <+: buffer.bytes) (hnames : names.size = domainsSize content.length)
    (hloop : domainsLoop buffer content.length 0 (domainsStart names) = some (.ok s))
    (hfinish : domainsFinish buffer s = some (.loaded domains count)) :
    Loaded content domains count := by
  have hreading := Reading.initial ⟨content, []⟩ names
  have hdrop : (Block.mk content []).bytes.drop 0 = content := List.drop_zero
  have hsize : domainsSize (Block.mk content []).size ≤ (Cursor.mk names 0).block.size := hnames.ge
  have hscan := hreading.loop hdrop rfl hsize
    (show (withoutEmptyLines content).length = _ from rfl)
  have hread : domainsLoop buffer content.length 0 (domainsStart names)
      = domainsLoop ⟨content, []⟩ content.length 0 (domainsStart names) :=
    hreading.loop_eq hdrop rfl hsize hstarts
  rw [hread] at hloop
  change LoopOutcome _ _ (copiedNames content) _ (domainsLoop _ _ _ (domainsStart names)) at hscan
  rw [hloop] at hscan
  generalize hlines : copiedNames content = lines at hscan
  cases hscan with
  | finished _ done zones skipped empty zone hreading' hkept _ =>
    rw [hreading'.finish_eq hstarts] at hfinish
    rcases hreading'.finish rfl hnames with houtcome | ⟨-, -, -, hnone⟩
    · rw [hfinish, ← hkept] at houtcome
      cases houtcome with
      | loaded dst stored hstored hemitted hlabels =>
        have hnamesOf := namesOf_eq hstored hlabels
        rw [← hlines, namesOf_copiedNames] at hnamesOf
        subst hnamesOf
        exact ⟨hne, hlimit, hemitted.size.trans hnames, hemitted.holds, hlabels, rfl,
          hlines ▸ not_badLine_of_names hstored hlabels⟩
    · rw [hfinish] at hnone
      exact nomatch hnone

/-- **What an option leaves.** If `get_domains` does not fail, the names of the file lie in the
block that the options refer to. -/
theorem loadDomains_names {file : DomainFile} {malloc malloc' : Malloc}
    {options options' : MdigOptions} {blocks blocks' : Ledger}
    (h : loadDomains file malloc malloc' options blocks = some (0, options', blocks')) :
    ∃ names, domainsBlock file malloc malloc' = some names ∧
      Loaded file.bytes names options'.domainCount := by
  rw [loadDomains] at h
  by_cases hopens : file.opens = false
  · rw [if_pos hopens] at h
    exact absurd (exit_eq h).1 (by decide)
  rw [if_neg hopens] at h
  by_cases hstats : file.stats = false
  · rw [if_pos hstats] at h
    exact absurd (exit_eq h).1 (by decide)
  rw [if_neg hstats] at h
  by_cases hsize : domainsFileLimit < file.stSize
  · rw [if_pos hsize] at h
    exact absurd (exit_eq h).1 (by decide)
  rw [if_neg hsize] at h
  cases hbuffer : malloc.alloc file.stSize with
  | none =>
    rw [hbuffer] at h
    exact absurd (exit_eq h).1 (by decide)
  | some buffer =>
    rw [hbuffer] at h
    dsimp only [Ledger.malloc] at h
    by_cases hreads : file.reads = false
    · rw [if_pos hreads] at h
      exact absurd (exit_eq h).1 (by decide)
    rw [if_neg hreads] at h
    obtain ⟨contents, hstore, hfile⟩ := Option.bind_eq_some_iff.mp h
    by_cases hempty : file.bytes.length = 0
    · rw [if_pos hempty] at hfile
      exact absurd (exit_eq hfile).1 (by decide)
    rw [if_neg hempty] at hfile
    cases hnames : malloc'.alloc (domainsSize file.bytes.length) with
    | none =>
      rw [hnames] at hfile
      exact absurd (exit_eq hfile).1 (by decide)
    | some block =>
      rw [hnames] at hfile
      obtain ⟨result, hloop, hbehind⟩ := Option.bind_eq_some_iff.mp hfile
      change domainsLoop contents file.bytes.length 0 (domainsStart block) = some result at hloop
      cases result with
      | error line => exact absurd (exit_eq hbehind).1 (by decide)
      | ok s =>
        obtain ⟨outcome, houtcome, hlast⟩ := Option.bind_eq_some_iff.mp hbehind
        cases outcome with
        | loaded names count =>
          obtain ⟨-, rfl, -⟩ := exit_eq hlast
          have hle := Block.le_of_store hstore
          rw [malloc.size_alloc hbuffer] at hle
          have hstarts : file.bytes <+: contents.bytes := by
            rw [Block.bytes_of_store hstore, List.take_zero, List.nil_append]
            exact List.prefix_append _ _
          refine ⟨names, ?_, loaded_of_finish (fun hnil => hempty (congrArg List.length hnil))
            (by omega) hstarts (malloc'.size_alloc hnames) hloop houtcome⟩
          simp only [domainsBlock, hbuffer, hstore, hnames, hloop, houtcome, Option.bind_eq_bind,
            Option.bind_some]
          rfl
        | _ => exact absurd (exit_eq hlast).1 (by decide)

/-! ### One option -/

/-- What the options hold outside of their values is the same. -/
structure OptionsState.SameHoldings (s s' : OptionsState) : Prop where
  /-- The blocks. -/
  blocks : s'.blocks = s.blocks
  /-- The domains. -/
  domains : s'.options.domains = s.options.domains
  /-- Their number. -/
  domainCount : s'.options.domainCount = s.options.domainCount
  /-- The files opened. -/
  opened : s'.opened = s.opened
  /-- The files closed. -/
  closed : s'.closed = s.closed
  /-- The output. -/
  output : s'.options.output = s.options.output

/-- The option has to do with a file. -/
def GivenOption.OfFile : GivenOption → Prop
  | .domains .. => True
  | .output _ => True
  | _ => False

/-- Everything a turn of `get_options` can do. -/
inductive OptionTurn (s : OptionsState) : GivenOption → OptionsState → Prop
  /-- It stores a value. -/
  | kept {i : GivenOption} {s' : OptionsState} (hi : ¬i.OfFile) (hsame : s.SameHoldings s')
      (hresult : s'.result = none) : OptionTurn s i s'
  /-- It refuses a value, or misses one. -/
  | refused {i : GivenOption} {s₁ : OptionsState} (hi : ¬i.OfFile) (hsame : s.SameHoldings s₁) :
      OptionTurn s i s₁.error
  /-- It releases the domains, for help. -/
  | helped : OptionTurn s .help
      { s with blocks := s.blocks.free s.options.domains, result := some (.returned .help) }
  /-- The options are complete. -/
  | done (hpos : 0 < s.options.domainCount) : OptionTurn s .done
      { s with result := some (.returned .ok) }
  /-- An output is opened. -/
  | opened : OptionTurn s (.output true)
      { s with options := { s.options with output := .file s.opened }, opened := s.opened + 1 }
  /-- It cannot be opened. -/
  | unopened : OptionTurn s (.output false)
      { s with options := { s.options with output := .null } }.error
  /-- The domains are loaded. -/
  | loaded {file : DomainFile} {malloc malloc' : Malloc} {options : MdigOptions} {blocks : Ledger}
      (hload : loadDomains file malloc malloc' s.options s.blocks = some (0, options, blocks)) :
      OptionTurn s (.domains file malloc malloc') { s with options, blocks }
  /-- They cannot be loaded. -/
  | unloaded {file : DomainFile} {malloc malloc' : Malloc} {r : ℤ} {options : MdigOptions}
      {blocks : Ledger} (hr : r ≠ 0)
      (hload : loadDomains file malloc malloc' s.options s.blocks = some (r, options, blocks)) :
      OptionTurn s (.domains file malloc malloc') { s with options, blocks }.error

/-- An argument that is checked is refused or stored. -/
theorem OptionTurn.of_check {c : Prop} [Decidable c] {s s' s₁ s₂ : OptionsState} {i : GivenOption}
    (h : (if c then some s₁.error else some s₂) = some s') (hi : ¬i.OfFile)
    (h₁ : s.SameHoldings s₁) (h₂ : s.SameHoldings s₂) (hresult : s₂.result = none) :
    OptionTurn s i s' := by
  by_cases hc : c
  · rw [if_pos hc] at h
    obtain rfl := Option.some.inj h
    exact .refused hi h₁
  · rw [if_neg hc] at h
    obtain rfl := Option.some.inj h
    exact .kept hi h₂ hresult

theorem OptionsState.SameHoldings.refl (s : OptionsState) : s.SameHoldings s :=
  ⟨rfl, rfl, rfl, rfl, rfl, rfl⟩

theorem optionStep_turn {s s' : OptionsState} {i : GivenOption} (h : optionStep s i = some s') :
    OptionTurn s i s' := by
  have hnone := result_of_optionStep h
  have hrunning : ¬s.result.isSome = true := by simp [hnone]
  have hrefl : s.SameHoldings s := .refl s
  rw [optionStep.eq_def, if_neg hrunning] at h
  cases i with
  | help =>
    obtain rfl := Option.some.inj h
    exact .helped
  | server address =>
    cases address with
    | none =>
      obtain rfl := Option.some.inj h
      exact .refused (fun hi => hi) hrefl
    | some address =>
      obtain rfl := Option.some.inj h
      exact .kept (fun hi => hi) ⟨rfl, rfl, rfl, rfl, rfl, rfl⟩ hnone
  | port string => exact .of_check h (fun hi => hi) hrefl ⟨rfl, rfl, rfl, rfl, rfl, rfl⟩ hnone
  | client string =>
    obtain ⟨⟨r, client⟩, -, hrest⟩ := Option.bind_eq_some_iff.mp h
    exact .of_check hrest (fun hi => hi) ⟨rfl, rfl, rfl, rfl, rfl, rfl⟩
      ⟨rfl, rfl, rfl, rfl, rfl, rfl⟩ hnone
  | queries string => exact .of_check h (fun hi => hi) hrefl ⟨rfl, rfl, rfl, rfl, rfl, rfl⟩ hnone
  | limit string => exact .of_check h (fun hi => hi) hrefl ⟨rfl, rfl, rfl, rfl, rfl, rfl⟩ hnone
  | domains file malloc malloc' =>
    obtain ⟨⟨r, options, blocks⟩, hload, hrest⟩ := Option.bind_eq_some_iff.mp h
    dsimp only at hrest
    by_cases hr : r ≠ 0
    · rw [if_pos hr] at hrest
      obtain rfl := Option.some.inj hrest
      exact .unloaded hr hload
    · rw [if_neg hr] at hrest
      obtain rfl := Option.some.inj hrest
      exact .loaded (not_not.mp hr ▸ hload)
  | output opens =>
    cases opens with
    | false =>
      obtain rfl := Option.some.inj h
      exact .unopened
    | true =>
      obtain rfl := Option.some.inj h
      exact .opened
  | verbose =>
    obtain rfl := Option.some.inj h
    exact .kept (fun hi => hi) ⟨rfl, rfl, rfl, rfl, rfl, rfl⟩ hnone
  | invalid =>
    obtain rfl := Option.some.inj h
    exact .refused (fun hi => hi) hrefl
  | unexpected =>
    obtain rfl := Option.some.inj h
    exact .refused (fun hi => hi) hrefl
  | done =>
    dsimp only at h
    by_cases haddress : s.gotAddress = false
    · rw [if_pos haddress] at h
      obtain rfl := Option.some.inj h
      exact .refused (fun hi => hi) hrefl
    · rw [if_neg haddress] at h
      by_cases hcount : s.options.domainCount < 1
      · rw [if_pos hcount] at h
        obtain rfl := Option.some.inj h
        exact .refused (fun hi => hi) hrefl
      · rw [if_neg hcount] at h
        obtain rfl := Option.some.inj h
        exact .done (Nat.not_lt.mp hcount)

/-! ### Setting up -/

/-- What `main` holds after some of its allocations, and perhaps with the socket open. -/
inductive Held.Grown (h : Held) : Held → Prop
  /-- It has not got any further. -/
  | start : Grown h h
  /-- It has another block. -/
  | malloc {h' : Held} (hgrown : Grown h h') : Grown h h'.malloc
  /-- It has opened the socket. -/
  | openSocket {h' : Held} (hgrown : Grown h h') (hsocket : h'.socket = none) :
      Grown h h'.openSocket

/-- What `main` holds in its loops. -/
def Held.entered (h : Held) : Held := h.malloc.malloc.malloc.malloc.openSocket.mallocBuffer

/-- Everything between the options and the loops. -/
inductive SetUpOutcome (options : MdigOptions) (names : Block) (held : Held) (a : SetUp) :
    MigMain → Prop
  /-- Something has failed. -/
  | stopped {held' : Held} (hgrown : held.Grown held') :
      SetUpOutcome options names held a (.stopped 1 held'.giveUp)
  /-- The loops are entered. -/
  | entered {queries : Block} {sends receives : List Timespec} {pairs : List PairTimespec}
      {main : MigMain}
      (hqueries : makeQueries a.queries names options.count options.clientId = some (some queries))
      (hsends : sends.length = options.count) (hreceives : receives.length = options.count)
      (hpairs : pairs.length = options.count)
      (hnext : MigMain.goOn options held.entered
        (.initial queries options.count options.queryLimit sends receives pairs) = some main) :
      SetUpOutcome options names held a main

theorem length_allocatedArray {α : Type*} (count size : ℕ) (contents : ℕ → α) :
    (allocatedArray count size contents).length = count * size % sizeModulus / size := by
  rw [allocatedArray, List.length_map, List.length_range]

/-- There is never room for more entries than were asked for. -/
theorem length_allocatedArray_le {α : Type*} (count : ℕ) {size : ℕ} (hsize : 0 < size)
    (contents : ℕ → α) : (allocatedArray count size contents).length ≤ count := by
  rw [length_allocatedArray]
  calc count * size % sizeModulus / size ≤ count * size / size :=
        Nat.div_le_div_right (Nat.mod_le _ _)
    _ = count := Nat.mul_div_cancel _ hsize

/-- **What the setting up comes to.** Where the arrays are cleared to their ends, they have an entry
for each query, so that the sizes asked for have not wrapped. -/
theorem setUpStep_outcome {options : MdigOptions} {names : Block} {held : Held} {a : SetUp}
    {main : MigMain} (hsocket : held.socket = none)
    (h : setUpStep options names held a = some main) : SetUpOutcome options names held a main := by
  have hopen : held.malloc.malloc.malloc.malloc.socket = none := hsocket
  have hfour : held.Grown held.malloc.malloc.malloc.malloc :=
    .malloc (.malloc (.malloc (.malloc .start)))
  rw [setUpStep] at h
  obtain ⟨-, -, h⟩ := Option.bind_eq_some_iff.mp h
  obtain ⟨queries?, hqueries, h⟩ := Option.bind_eq_some_iff.mp h
  cases queries? with
  | none =>
    obtain rfl := Option.some.inj h
    exact .stopped .start
  | some queries =>
    cases hs : a.sends with
    | none =>
      rw [hs] at h
      obtain rfl := Option.some.inj h
      exact .stopped (.malloc .start)
    | some sends =>
      cases hr : a.receives with
      | none =>
        rw [hs, hr] at h
        obtain rfl := Option.some.inj h
        exact .stopped (.malloc (.malloc .start))
      | some receives =>
        cases hp : a.pairs with
        | none =>
          rw [hs, hr, hp] at h
          obtain rfl := Option.some.inj h
          exact .stopped (.malloc (.malloc (.malloc .start)))
        | some pairs =>
          rw [hs, hr, hp] at h
          dsimp only at h
          split_ifs at h with hshort hsock hget hset hbuffer
          · obtain rfl := Option.some.inj h
            exact .stopped hfour
          · obtain rfl := Option.some.inj h
            exact .stopped (.openSocket hfour hopen)
          · obtain rfl := Option.some.inj h
            exact .stopped (.openSocket hfour hopen)
          · obtain rfl := Option.some.inj h
            exact .stopped (.openSocket hfour hopen)
          · obtain ⟨hshortReceives, hshortPairs⟩ := not_or.mp hshort
            have hreceives : (allocatedArray options.count sizeofTimespec receives).length =
                options.count :=
              Nat.le_antisymm (length_allocatedArray_le _ (by decide) _)
                (Nat.not_lt.mp hshortReceives)
            have hpairs : (allocatedArray options.count sizeofPairTimespec pairs).length =
                options.count :=
              Nat.le_antisymm (length_allocatedArray_le _ (by decide) _) (Nat.not_lt.mp hshortPairs)
            have hsends : (allocatedArray options.count sizeofTimespec sends).length =
                options.count := by
              rw [length_allocatedArray] at hreceives ⊢
              exact hreceives
            exact .entered hqueries hsends hreceives hpairs h

/-! ### Runs -/

/-- The names behind the options listed. -/
def namesBehind (names : Block) (opts : List GivenOption) : Block :=
  opts.foldl GivenOption.names names

theorem namesBehind_concat (names : Block) (opts : List GivenOption) (i : GivenOption) :
    namesBehind names (opts ++ [i]) = i.names (namesBehind names opts) := by
  rw [namesBehind, List.foldl_append]
  rfl

/-- `main` has entered its loops with these queries and arrays, and made system calls since. -/
structure Entered (options₀ : MdigOptions) (names₀ : Block) (opts : List GivenOption) (a : SetUp)
    (is : List MigInput) (s : OptionsState) (m : Mig) : Prop where
  /-- The options have been read. -/
  read : Run optionStep (fun _ _ => True) (.initial options₀) opts s
  /-- They are complete. -/
  ok : s.result = some (.returned .ok)
  /-- The loops have been run so far. -/
  run : ∃ queries sends receives pairs,
    makeQueries a.queries (namesBehind names₀ opts) s.options.count s.options.clientId =
      some (some queries) ∧
    sends.length = s.options.count ∧ receives.length = s.options.count ∧
    pairs.length = s.options.count ∧
    Run migStep (fun _ _ => True)
      (.initial queries s.options.count s.options.queryLimit sends receives pairs) is m

/-- Where a run of `main` can have got, and how. -/
inductive MainReached (options₀ : MdigOptions) (names₀ : Block) : List MainInput → MigMain → Prop
  /-- The options are being read. -/
  | options {opts : List GivenOption} {s : OptionsState}
      (hread : Run optionStep (fun _ _ => True) (.initial options₀) opts s)
      (hresult : s.result = none) :
      MainReached options₀ names₀ (opts.map .option) (.options s (namesBehind names₀ opts))
  /-- They have been read. -/
  | ready {opts : List GivenOption} {s : OptionsState}
      (hread : Run optionStep (fun _ _ => True) (.initial options₀) opts s)
      (hresult : s.result = some (.returned .ok)) :
      MainReached options₀ names₀ (opts.map .option) (.ready s (namesBehind names₀ opts))
  /-- Help has been asked for. -/
  | helped {opts : List GivenOption} {s : OptionsState}
      (hread : Run optionStep (fun _ _ => True) (.initial options₀) opts s)
      (hresult : s.result = some (.returned .help)) :
      MainReached options₀ names₀ (opts.map .option) (.stopped 0 (.ofOptions s))
  /-- They are not right. -/
  | refused {opts : List GivenOption} {s : OptionsState}
      (hread : Run optionStep (fun _ _ => True) (.initial options₀) opts s)
      (hresult : s.result = some (.returned .error)) :
      MainReached options₀ names₀ (opts.map .option) (.stopped 1 (.ofOptions s))
  /-- An output that could not be opened has been closed. -/
  | crashed {opts : List GivenOption} {s : OptionsState}
      (hread : Run optionStep (fun _ _ => True) (.initial options₀) opts s)
      (hresult : s.result = some .crashed) :
      MainReached options₀ names₀ (opts.map .option) (.crashed (.ofOptions s))
  /-- The setting up has failed. -/
  | stopped {opts : List GivenOption} {s : OptionsState} {a : SetUp} {held : Held}
      (hread : Run optionStep (fun _ _ => True) (.initial options₀) opts s)
      (hresult : s.result = some (.returned .ok)) (hgrown : (Held.ofOptions s).Grown held) :
      MainReached options₀ names₀ (opts.map .option ++ [.setUp a]) (.stopped 1 held.giveUp)
  /-- The loops are running. -/
  | loops {opts : List GivenOption} {a : SetUp} {is : List MigInput} {s : OptionsState} {m : Mig}
      (hentered : Entered options₀ names₀ opts a is s m) (hpoint : m.point ≠ .failed) :
      MainReached options₀ names₀ (opts.map .option ++ .setUp a :: is.map .call)
        (.loops s.options (Held.ofOptions s).entered m)
  /-- They have failed. -/
  | failed {opts : List GivenOption} {a : SetUp} {is : List MigInput} {s : OptionsState} {m : Mig}
      (hentered : Entered options₀ names₀ opts a is s m) :
      MainReached options₀ names₀ (opts.map .option ++ .setUp a :: is.map .call)
        (.ended 1 s.options (Held.ofOptions s).entered.giveUp m [])
  /-- They are done. -/
  | finished {opts : List GivenOption} {a : SetUp} {is : List MigInput} {s : OptionsState} {m : Mig}
      (hentered : Entered options₀ names₀ opts a is s m) (hpoint : m.point = .finished)
      {text : List Char} (htext : m.report = some text) :
      MainReached options₀ names₀ (opts.map .option ++ .setUp a :: is.map .call)
        (.ended 0 s.options (Held.ofOptions s).entered.finish m text)

section MainReached

variable {options₀ : MdigOptions} {names₀ : Block} {opts : List GivenOption} {a : SetUp}
  {is : List MigInput} {s : OptionsState} {m : Mig} {main main' : MigMain} {i : MainInput}

theorem MainReached.goOn (h : Entered options₀ names₀ opts a is s m)
    (hnext : MigMain.goOn s.options (Held.ofOptions s).entered m = some main) :
    MainReached options₀ names₀ (opts.map .option ++ .setUp a :: is.map .call) main := by
  rw [MigMain.goOn] at hnext
  split at hnext
  · rename_i hpoint
    obtain ⟨text, htext, hreturn⟩ := Option.bind_eq_some_iff.mp hnext
    obtain rfl := Option.some.inj hreturn
    exact .finished h hpoint htext
  · obtain rfl := Option.some.inj hnext
    exact .failed h
  · rename_i hpoint
    obtain rfl := Option.some.inj hnext
    exact .loops h hpoint

theorem MainReached.next {inputs : List MainInput} (h : MainReached options₀ names₀ inputs main)
    (hstep : mainStep main i = some main') :
    MainReached options₀ names₀ (inputs ++ [i]) main' := by
  cases h with
  | helped => simp [mainStep] at hstep
  | refused => simp [mainStep] at hstep
  | crashed => simp [mainStep] at hstep
  | stopped => simp [mainStep] at hstep
  | failed => simp [mainStep] at hstep
  | finished => simp [mainStep] at hstep
  | @options opts s hread hresult =>
    cases i with
    | setUp => simp [mainStep] at hstep
    | call => simp [mainStep] at hstep
    | option i =>
      obtain ⟨s', hoption, hnext⟩ := Option.bind_eq_some_iff.mp hstep
      have hread' := Run.snoc_iff.mpr ⟨s, hread, trivial, hoption⟩
      have hinputs : opts.map MainInput.option ++ [.option i] = (opts ++ [i]).map .option := by
        rw [List.map_append, List.map_singleton]
      rw [hinputs]
      split at hnext
      · rename_i hresult'
        obtain rfl := Option.some.inj hnext
        rw [← namesBehind_concat]
        exact .options hread' hresult'
      · rename_i hresult'
        obtain rfl := Option.some.inj hnext
        rw [← namesBehind_concat]
        exact .ready hread' hresult'
      · rename_i hresult'
        obtain rfl := Option.some.inj hnext
        exact .helped hread' hresult'
      · rename_i hresult'
        obtain rfl := Option.some.inj hnext
        exact .refused hread' hresult'
      · rename_i hresult'
        obtain rfl := Option.some.inj hnext
        exact .crashed hread' hresult'
  | @ready opts s hread hresult =>
    cases i with
    | option => simp [mainStep] at hstep
    | call => simp [mainStep] at hstep
    | setUp a =>
      cases setUpStep_outcome rfl hstep with
      | stopped hgrown => exact .stopped hread hresult hgrown
      | entered hqueries hsends hreceives hpairs hnext =>
        have hentered : Entered options₀ names₀ opts a [] s _ :=
          ⟨hread, hresult, _, _, _, _, hqueries, hsends, hreceives, hpairs, .nil _⟩
        exact .goOn hentered hnext
  | @loops opts a is s m hentered _ =>
    cases i with
    | option => simp [mainStep] at hstep
    | setUp => simp [mainStep] at hstep
    | call i =>
      obtain ⟨m', hcall, hnext⟩ := Option.bind_eq_some_iff.mp hstep
      obtain ⟨queries, sends, receives, pairs, hqueries, hsends, hreceives, hpairs, hrun⟩ :=
        hentered.run
      have hinputs : opts.map MainInput.option ++ .setUp a :: is.map .call ++ [.call i] =
          opts.map .option ++ .setUp a :: (is ++ [i]).map .call := by simp
      rw [hinputs]
      exact .goOn ⟨hentered.read, hentered.ok, queries, sends, receives, pairs, hqueries, hsends,
        hreceives, hpairs, Run.snoc_iff.mpr ⟨m, hrun, trivial, hcall⟩⟩ hnext

/-- **A run of the program, taken apart.** -/
theorem mainReached_of_run {inputs : List MainInput}
    (hrun : Run mainStep (fun _ _ => True) (.start options₀ names₀) inputs main) :
    MainReached options₀ names₀ inputs main :=
  hrun.invariant_history (P := MainReached options₀ names₀) (.options (.nil _) rfl)
    fun _ _ _ _ _ h _ hstep => h.next hstep

end MainReached

end DnsTools
