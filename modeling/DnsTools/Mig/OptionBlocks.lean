import DnsTools.Lib.Run
import DnsTools.Mig.EmptyLines
import DnsTools.Mig.Options

/-!
# Releasing the domains once

`get_options` releases the domains on every way out but the successful one. `get_domains` stores the
address of the names in the options as soon as it has allocated them, and releases them itself when
it meets a line that is not a domain name, so that they are released again at the error label. No
other way out of `get_domains` leaves the options with a block that has been released.

## Blocks as numbers

A block is the number that the allocator has given to it, and a `Ledger` knows how many have been
allocated and which have been released, in order. What lies in them does not matter here. So
`loadDomains` is `get_domains` with its blocks by number and nothing else, and
`getDomains_of_loadDomains` connects it with the function that the other modules are about.

In this version a file need not be read in one piece: `read` may return fewer bytes than the file
has, and the rest of the buffer holds what it held. The pass does not look at it
(`Reading.loop_eq`).

## What a block may be

Between two turns of `get_options` the domains are a block that has not been released, or there are
none. This is `Orderly`, and every turn keeps it that goes on to another one. The exception is
written into the outcomes: of the five exits of `get_domains` one leaves a released block in the
options, and that exit is taken exactly at a bad line, `MeetsBadLine`, which is a condition on the
file and on the memory there is. A second `-d` overwrites the address of the first block. That block
is then lost, but it has not been released, so it is no matter of this module but of
`ProgramBlocks`.

## Main results

* `loadDomains_outcome` — what `get_domains` does with its blocks, exit by exit
* `getDomains_of_loadDomains` — the blocks apart, it is the same function as before
* `optionStep_orderly` — what a turn of `get_options` keeps
* `options_consistent_iff` — exactly the runs in which no block is released twice
-/

namespace DnsTools

open Memory

/-! ### A file shorter than its buffer -/

section Prefix

variable {buffer buffer' : Block} {start : Cursor} {i : ℕ} {done : List (List (List UInt8))}
  {zones : List (List UInt8)} {skipped empty : ℕ} {zone : List UInt8} {s : DomainsState}

/-- A label is copied from a longer buffer just so. -/
theorem Reading.copyZone_eq (h : Reading buffer start i done zones skipped empty zone s)
    (hstarts : buffer.bytes <+: buffer'.bytes) :
    DnsTools.copyZone buffer' s = DnsTools.copyZone buffer s := by
  rw [DnsTools.copyZone, DnsTools.copyZone, h.load, Block.load_extend h.load hstarts]

theorem Reading.turn_eq (h : Reading buffer start i done zones skipped empty zone s) {b : UInt8}
    (hb : buffer.bytes[i]? = some b) (hstarts : buffer.bytes <+: buffer'.bytes) :
    domainsTurn buffer' i s = domainsTurn buffer i s := by
  have hb' : buffer'.bytes[i]? = some b := by
    obtain ⟨rest, hrest⟩ := hstarts
    obtain ⟨hi, -⟩ := List.getElem?_eq_some_iff.mp hb
    rw [← hrest, List.getElem?_append_left hi, hb]
  have hcopy := h.copyZone_eq hstarts
  have hcopyDot : DnsTools.copyZone buffer' { s with length := s.length + 1 }
      = DnsTools.copyZone buffer { s with length := s.length + 1 } := hcopy
  simp only [domainsTurn, hb, hb', hcopy, hcopyDot]

/-- The loop does not look past the bytes that have been read. -/
theorem Reading.loop_eq {rest : List UInt8}
    (h : Reading buffer start i done zones skipped empty zone s)
    (hrest : buffer.bytes.drop i = rest) (hstart : start.off = 0)
    (hsize : domainsSize buffer.size ≤ start.block.size)
    (hstarts : buffer.bytes <+: buffer'.bytes) :
    domainsLoop buffer' rest.length i s = domainsLoop buffer rest.length i s := by
  induction rest generalizing i done zones skipped empty zone s with
  | nil => rfl
  | cons b rest ih =>
    have hb : buffer.bytes[i]? = some b := Table.getElem?_of_drop hrest
    have hrest' : buffer.bytes.drop (i + 1) = rest := Table.drop_of_drop hrest
    have hturn := h.turn hb hstart hsize
    rw [List.length_cons, domainsLoop, domainsLoop, h.turn_eq hb hstarts]
    revert hturn
    generalize domainsTurn buffer i s = r
    intro hturn
    cases hturn with
    | next s' done' zones' skipped' empty' zone' hreading _ _ => exact ih hreading hrest'
    | reject line hbad => rfl

theorem Reading.finish_eq (h : Reading buffer start i done zones skipped empty zone s)
    (hstarts : buffer.bytes <+: buffer'.bytes) :
    domainsFinish buffer' s = domainsFinish buffer s := by
  simp only [domainsFinish, h.copyZone_eq hstarts]

end Prefix

/-- The start of the loop of `get_domains`, with the block for the names. -/
def domainsStart (names : Block) : DomainsState :=
  { dst := ⟨names, 0⟩, srcOffset := 0, zoneCount := 0, length := 0, line := 1, count := 0 }

/-- A line of the file is not a domain name. -/
def HasBadLine (content : List UInt8) : Prop :=
  ∃ line ∈ fileLines content, line ≠ [] ∧ ¬IsDomainName line

/-- How the reading of the names ends: the loop stops at a bad line, or what is behind the loop
finds one, or there is none. -/
inductive NamesOutcome (buffer : Block) (content : List UInt8) :
    Option (Except ℕ DomainsState) → Prop
  /-- The loop stops. -/
  | stopped (line : ℕ) (hbad : HasBadLine content) :
      NamesOutcome buffer content (some (.error line))
  /-- The last line is bad. -/
  | rejected (s : DomainsState) (line : ℕ) (hbad : HasBadLine content)
      (hfinish : domainsFinish buffer s = some (.invalidName line)) :
      NamesOutcome buffer content (some (.ok s))
  /-- No line is. -/
  | finished (s : DomainsState) (hgood : ¬HasBadLine content)
      (hfinish : ∀ outcome, domainsFinish buffer s = some outcome →
        ∃ names count, outcome = .loaded names count) :
      NamesOutcome buffer content (some (.ok s))

theorem namesOutcome {buffer names : Block} {content : List UInt8}
    (hstarts : content <+: buffer.bytes) (hnames : names.size = domainsSize content.length) :
    NamesOutcome buffer content
      (domainsLoop buffer content.length 0 (domainsStart names)) := by
  have hreading := Reading.initial ⟨content, []⟩ names
  have hbad : BadLine (copiedNames content) ↔ HasBadLine content :=
    (badLine_copiedNames_iff content).trans (badLine_allLabels_iff content)
  have hsize : domainsSize (Block.mk content []).size ≤ (Cursor.mk names 0).block.size := hnames.ge
  have hdrop : (Block.mk content []).bytes.drop 0 = content := List.drop_zero
  have hloop := hreading.loop hdrop rfl hsize (show (withoutEmptyLines content).length = _ from rfl)
  have heq : domainsLoop buffer content.length 0 (domainsStart names)
      = domainsLoop ⟨content, []⟩ content.length 0 (domainsStart names) :=
    hreading.loop_eq hdrop rfl hsize hstarts
  rw [heq]
  change LoopOutcome _ _ (copiedNames content) _ (domainsLoop _ _ _ (domainsStart names)) at hloop
  revert hloop
  generalize domainsLoop ⟨content, []⟩ content.length 0 (domainsStart names) = r
  intro hloop
  generalize hcopied : copiedNames content = lines at *
  cases hloop with
  | rejected line hline => exact .stopped line (hbad.mp hline)
  | finished s done zones skipped empty zone hreading hlines hkept =>
    have hsame : domainsFinish buffer s = domainsFinish ⟨content, []⟩ s :=
      hreading.finish_eq hstarts
    subst hlines
    rcases hreading.finish rfl hnames with hscan | ⟨hzone, -, -, hnone⟩
    · rw [← hsame] at hscan
      cases hfinish : domainsFinish buffer s with
      | none =>
        rw [hfinish] at hscan
        cases hscan
      | some outcome =>
        rw [hfinish] at hscan
        cases hscan with
        | rejected line hline => exact .rejected s line (hbad.mp hline) hfinish
        | loaded dst names' hnames' _ hlabels =>
          refine .finished s (fun h => ?_) fun outcome houtcome => ?_
          · exact not_badLine_of_names hnames' hlabels (hbad.mpr h)
          · exact ⟨_, _, Option.some.inj (houtcome.symm.trans hfinish)⟩
    · refine .finished s (fun h => hreading.not_badLine hzone (hbad.mpr h))
        fun outcome houtcome => ?_
      rw [hsame, hnone] at houtcome
      exact absurd houtcome (by simp)

/-! ### The blocks of `get_domains` -/

/-- `get_domains` gets as far as a line that is not a domain name. -/
structure MeetsBadLine (file : DomainFile) (malloc malloc' : Malloc) : Prop where
  /-- The file can be opened. -/
  opens : file.opens = true
  /-- Its size can be told. -/
  stats : file.stats = true
  /-- It is not too big. -/
  size : file.stSize ≤ domainsFileLimit
  /-- There is memory for its contents. -/
  buffer : (malloc.alloc file.stSize).isSome
  /-- It can be read. -/
  reads : file.reads = true
  /-- There is memory for the names. -/
  names : (malloc'.alloc (domainsSize file.bytes.length)).isSome
  /-- One of its lines is bad. -/
  line : HasBadLine file.bytes

/-- What `get_domains` does with the options and the blocks, exit by exit. -/
inductive LoadOutcome (file : DomainFile) (malloc malloc' : Malloc) (options : MdigOptions)
    (blocks : Ledger) : ℤ → MdigOptions → Ledger → Prop
  /-- It fails before the read buffer is allocated. -/
  | untouched (hgood : ¬MeetsBadLine file malloc malloc') :
      LoadOutcome file malloc malloc' options blocks (-1) options blocks
  /-- It fails with the read buffer only, which it releases. -/
  | unread (hgood : ¬MeetsBadLine file malloc malloc') :
      LoadOutcome file malloc malloc' options blocks (-1) options
        (blocks.malloc.2.free (some blocks.malloc.1))
  /-- There is no memory for the names. -/
  | noMemory (hgood : ¬MeetsBadLine file malloc malloc') :
      LoadOutcome file malloc malloc' options blocks (-1)
        { options with domainCount := 0, domains := none }
        (blocks.malloc.2.free (some blocks.malloc.1))
  /-- A line is bad: the names are released, but the options still refer to them. -/
  | invalidName (hbad : MeetsBadLine file malloc malloc') (count : ℕ) :
      LoadOutcome file malloc malloc' options blocks (-1)
        { options with domainCount := count, domains := some blocks.malloc.2.malloc.1 }
        ((blocks.malloc.2.malloc.2.free (some blocks.malloc.1)).free
          (some blocks.malloc.2.malloc.1))
  /-- The names have been loaded. -/
  | loaded (hgood : ¬MeetsBadLine file malloc malloc') (count : ℕ) :
      LoadOutcome file malloc malloc' options blocks 0
        { options with domainCount := count, domains := some blocks.malloc.2.malloc.1 }
        (blocks.malloc.2.malloc.2.free (some blocks.malloc.1))

section Load

variable {file : DomainFile} {malloc malloc' : Malloc} {options options' : MdigOptions}
  {blocks blocks' : Ledger} {r : ℤ}

/-- What is returned at an exit. -/
theorem exit_eq {r₁ : ℤ} {options₁ : MdigOptions} {blocks₁ : Ledger}
    (h : some (r₁, options₁, blocks₁) = some (r, options', blocks')) :
    r = r₁ ∧ options' = options₁ ∧ blocks' = blocks₁ := by
  obtain ⟨rfl, hrest⟩ := Prod.mk.inj (Option.some.inj h)
  obtain ⟨rfl, rfl⟩ := Prod.mk.inj hrest
  exact ⟨rfl, rfl, rfl⟩

/-- **Every exit of `get_domains`.** -/
theorem loadDomains_outcome
    (h : loadDomains file malloc malloc' options blocks = some (r, options', blocks')) :
    LoadOutcome file malloc malloc' options blocks r options' blocks' := by
  rw [loadDomains] at h
  by_cases hopens : file.opens = false
  · rw [if_pos hopens] at h
    obtain ⟨rfl, rfl, rfl⟩ := exit_eq h
    exact .untouched fun hbad => Bool.false_ne_true (hopens.symm.trans hbad.opens)
  rw [if_neg hopens] at h
  by_cases hstats : file.stats = false
  · rw [if_pos hstats] at h
    obtain ⟨rfl, rfl, rfl⟩ := exit_eq h
    exact .untouched fun hbad => Bool.false_ne_true (hstats.symm.trans hbad.stats)
  rw [if_neg hstats] at h
  by_cases hsize : domainsFileLimit < file.stSize
  · rw [if_pos hsize] at h
    obtain ⟨rfl, rfl, rfl⟩ := exit_eq h
    exact .untouched fun hbad => Nat.not_lt.mpr hbad.size hsize
  rw [if_neg hsize] at h
  cases hbuffer : malloc.alloc file.stSize with
  | none =>
    rw [hbuffer] at h
    obtain ⟨rfl, rfl, rfl⟩ := exit_eq h
    exact .untouched fun hbad => by simpa [hbuffer] using hbad.buffer
  | some contents =>
    rw [hbuffer] at h
    dsimp only [Ledger.malloc] at h
    by_cases hreads : file.reads = false
    · rw [if_pos hreads] at h
      obtain ⟨rfl, rfl, rfl⟩ := exit_eq h
      exact .unread fun hbad => Bool.false_ne_true (hreads.symm.trans hbad.reads)
    rw [if_neg hreads] at h
    obtain ⟨contents', hstore, hfile⟩ := Option.bind_eq_some_iff.mp h
    have hmeets : (malloc'.alloc (domainsSize file.bytes.length)).isSome →
        HasBadLine file.bytes → MeetsBadLine file malloc malloc' := by
      intro hnames hline
      rw [Bool.not_eq_false] at hopens hstats hreads
      have hbufferSome : (malloc.alloc file.stSize).isSome := by rw [hbuffer, Option.isSome_some]
      exact ⟨hopens, hstats, Nat.not_lt.mp hsize, hbufferSome, hreads, hnames, hline⟩
    by_cases hempty : file.bytes.length = 0
    · rw [if_pos hempty] at hfile
      obtain ⟨rfl, rfl, rfl⟩ := exit_eq hfile
      refine .unread fun hbad => ?_
      obtain ⟨line, hline, -, -⟩ := hbad.line
      rw [List.length_eq_zero_iff.mp hempty] at hline
      exact absurd hline (by simp [fileLines])
    rw [if_neg hempty] at hfile
    cases hnames : malloc'.alloc (domainsSize file.bytes.length) with
    | none =>
      rw [hnames] at hfile
      obtain ⟨rfl, rfl, rfl⟩ := exit_eq hfile
      exact .noMemory fun hbad => by simpa [hnames] using hbad.names
    | some names =>
      rw [hnames] at hfile hmeets
      have hstarts : file.bytes <+: contents'.bytes := by
        rw [Block.bytes_of_store hstore, List.take_zero, List.nil_append]
        exact List.prefix_append _ _
      have houtcome := namesOutcome hstarts (malloc'.size_alloc hnames)
      obtain ⟨result, hloop, hbehind⟩ := Option.bind_eq_some_iff.mp hfile
      change domainsLoop contents' file.bytes.length 0 (domainsStart names) = some result at hloop
      rw [hloop] at houtcome
      cases houtcome with
      | stopped line hbad =>
        obtain ⟨rfl, rfl, rfl⟩ := exit_eq hbehind
        exact .invalidName (hmeets rfl hbad) _
      | rejected s line hbad hfinish =>
        obtain ⟨outcome, houtcome, hlast⟩ := Option.bind_eq_some_iff.mp hbehind
        obtain rfl := Option.some.inj (hfinish.symm.trans houtcome)
        obtain ⟨rfl, rfl, rfl⟩ := exit_eq hlast
        exact .invalidName (hmeets rfl hbad) _
      | finished s hgood hfinish =>
        obtain ⟨outcome, houtcome, hlast⟩ := Option.bind_eq_some_iff.mp hbehind
        obtain ⟨names', count, rfl⟩ := hfinish outcome houtcome
        obtain ⟨rfl, rfl, rfl⟩ := exit_eq hlast
        exact .loaded (fun hbad => hgood hbad.line) count

/-- Behind the loop, the last name is invalid or all names are there. -/
theorem domainsFinish_cases {buffer : Block} {s : DomainsState} {outcome : DomainsOutcome}
    (h : domainsFinish buffer s = some outcome) :
    (∃ line, outcome = .invalidName line) ∨ ∃ names count, outcome = .loaded names count := by
  rw [domainsFinish] at h
  split at h
  · split at h
    · exact Or.inl ⟨_, (Option.some.inj h).symm⟩
    · obtain ⟨dst, -, hfirst⟩ := Option.bind_eq_some_iff.mp h
      obtain ⟨dst', -, hsecond⟩ := Option.bind_eq_some_iff.mp hfirst
      obtain ⟨dst'', -, hlast⟩ := Option.bind_eq_some_iff.mp hsecond
      exact Or.inr ⟨_, _, (Option.some.inj hlast).symm⟩
  · obtain ⟨dst, -, hlast⟩ := Option.bind_eq_some_iff.mp h
    exact Or.inr ⟨_, _, (Option.some.inj hlast).symm⟩

/-- What `get_domains` returns, and stores in the options, for each of its outcomes; the names are
in the block with the number `block`. -/
def DomainsOutcome.Stored (options : MdigOptions) (block : ℕ) :
    DomainsOutcome → ℤ → MdigOptions → Prop
  | .untouched, r, options' => r = -1 ∧ options' = options
  | .noMemory, r, options' => r = -1 ∧ options' = { options with domainCount := 0, domains := none }
  | .invalidName _, r, options' => r = -1 ∧ options'.domains = some block
  | .loaded _ count, r, options' =>
    r = 0 ∧ options' = { options with domainCount := count, domains := some block }

/-- The blocks apart, this is `getDomains`. -/
theorem getDomains_of_loadDomains
    (h : loadDomains file malloc malloc options blocks = some (r, options', blocks')) :
    ∃ outcome, getDomains malloc file = some outcome ∧
      outcome.Stored options (blocks.allocated + 1) r options' := by
  rw [loadDomains] at h
  rw [getDomains]
  by_cases hopens : file.opens = false
  · rw [if_pos hopens] at h ⊢
    obtain ⟨rfl, rfl, -⟩ := exit_eq h
    exact ⟨_, rfl, rfl, rfl⟩
  rw [if_neg hopens] at h ⊢
  by_cases hstats : file.stats = false
  · rw [if_pos hstats] at h ⊢
    obtain ⟨rfl, rfl, -⟩ := exit_eq h
    exact ⟨_, rfl, rfl, rfl⟩
  rw [if_neg hstats] at h ⊢
  by_cases hsize : domainsFileLimit < file.stSize
  · rw [if_pos hsize] at h ⊢
    obtain ⟨rfl, rfl, -⟩ := exit_eq h
    exact ⟨_, rfl, rfl, rfl⟩
  rw [if_neg hsize] at h ⊢
  cases hbuffer : malloc.alloc file.stSize with
  | none =>
    rw [hbuffer] at h
    obtain ⟨rfl, rfl, -⟩ := exit_eq h
    exact ⟨_, rfl, rfl, rfl⟩
  | some contents =>
    rw [hbuffer] at h
    dsimp only [Ledger.malloc] at h ⊢
    by_cases hreads : file.reads = false
    · rw [if_pos hreads] at h ⊢
      obtain ⟨rfl, rfl, -⟩ := exit_eq h
      exact ⟨_, rfl, rfl, rfl⟩
    rw [if_neg hreads] at h ⊢
    obtain ⟨contents', hstore, hfile⟩ := Option.bind_eq_some_iff.mp h
    rw [hstore, Option.bind_eq_bind, Option.bind_some]
    by_cases hempty : file.bytes.length = 0
    · rw [if_pos hempty] at hfile ⊢
      obtain ⟨rfl, rfl, -⟩ := exit_eq hfile
      exact ⟨_, rfl, rfl, rfl⟩
    rw [if_neg hempty] at hfile ⊢
    cases hnames : malloc.alloc (domainsSize file.bytes.length) with
    | none =>
      rw [hnames] at hfile
      obtain ⟨rfl, rfl, -⟩ := exit_eq hfile
      exact ⟨_, rfl, rfl, rfl⟩
    | some names =>
      rw [hnames] at hfile
      obtain ⟨result, hloop, hbehind⟩ := Option.bind_eq_some_iff.mp hfile
      dsimp only
      rw [hloop, Option.bind_eq_bind, Option.bind_some]
      cases result with
      | error line =>
        obtain ⟨rfl, rfl, -⟩ := exit_eq hbehind
        exact ⟨_, rfl, rfl, rfl⟩
      | ok s =>
        obtain ⟨outcome, houtcome, hlast⟩ := Option.bind_eq_some_iff.mp hbehind
        refine ⟨outcome, houtcome, ?_⟩
        rcases domainsFinish_cases houtcome with ⟨line, rfl⟩ | ⟨names', count, rfl⟩
        · obtain ⟨rfl, rfl, -⟩ := exit_eq hlast
          exact ⟨rfl, rfl⟩
        · obtain ⟨rfl, rfl, -⟩ := exit_eq hlast
          exact ⟨rfl, rfl⟩

end Load

/-! ### One turn of `get_options` -/

variable {s s' : OptionsState} {i : GivenOption}

/-- What a turn of `get_options` does with the domains. -/
inductive OptionOutcome (s : OptionsState) : GivenOption → OptionsState → Prop
  /-- Nothing. -/
  | kept {i : GivenOption} {s' : OptionsState}
      (hi : ∀ file malloc malloc', i ≠ .domains file malloc malloc')
      (hblocks : s'.blocks = s.blocks) (hdomains : s'.options.domains = s.options.domains) :
      OptionOutcome s i s'
  /-- It releases them and returns. -/
  | released {i : GivenOption} {s' : OptionsState}
      (hi : ∀ file malloc malloc', i ≠ .domains file malloc malloc')
      (hblocks : s'.blocks = s.blocks.free s.options.domains) (hresult : s'.result.isSome) :
      OptionOutcome s i s'
  /-- It loads them. -/
  | loaded {file : DomainFile} {malloc malloc' : Malloc} {options : MdigOptions} {blocks : Ledger}
      (hload : loadDomains file malloc malloc' s.options s.blocks = some (0, options, blocks)) :
      OptionOutcome s (.domains file malloc malloc') { s with options, blocks }
  /-- It fails to load them and goes to the error label. -/
  | failed {file : DomainFile} {malloc malloc' : Malloc} {r : ℤ} {options : MdigOptions}
      {blocks : Ledger} (hr : r ≠ 0)
      (hload : loadDomains file malloc malloc' s.options s.blocks = some (r, options, blocks)) :
      OptionOutcome s (.domains file malloc malloc') { s with options, blocks }.error

theorem OptionsState.blocks_error (s : OptionsState) :
    s.error.blocks = s.blocks.free s.options.domains := by
  rw [error]
  split <;> rfl

/-- The one state has the blocks and the domains of the other. -/
structure OptionsState.SameDomains (s s₁ : OptionsState) : Prop where
  /-- The blocks. -/
  blocks : s₁.blocks = s.blocks
  /-- The domains. -/
  domains : s₁.options.domains = s.options.domains

/-- The error label releases the domains. -/
theorem OptionOutcome.of_error {s₁ : OptionsState} (h : s.SameDomains s₁)
    (hi : ∀ file malloc malloc', i ≠ .domains file malloc malloc') :
    OptionOutcome s i s₁.error := by
  refine .released hi ?_ ?_
  · rw [OptionsState.blocks_error, h.blocks, h.domains]
  · exact Option.isSome_iff_ne_none.mpr (OptionsState.result_error_ne_none _)

/-- An argument that is checked is refused or stored. -/
theorem OptionOutcome.of_check {c : Prop} [Decidable c] {s₁ s₂ : OptionsState}
    (h : (if c then some s₁.error else some s₂) = some s') (h₁ : s.SameDomains s₁)
    (h₂ : s.SameDomains s₂) (hi : ∀ file malloc malloc', i ≠ .domains file malloc malloc') :
    OptionOutcome s i s' := by
  by_cases hc : c
  · rw [if_pos hc] at h
    obtain rfl := Option.some.inj h
    exact .of_error h₁ hi
  · rw [if_neg hc] at h
    obtain rfl := Option.some.inj h
    exact .kept hi h₂.blocks h₂.domains

theorem optionStep_outcome (h : optionStep s i = some s') : OptionOutcome s i s' := by
  have hrunning : ¬s.result.isSome = true := by simp [result_of_optionStep h]
  rw [optionStep.eq_def, if_neg hrunning] at h
  cases i with
  | help =>
    obtain rfl := Option.some.inj h
    exact .released (by simp) rfl rfl
  | server address =>
    cases address with
    | none =>
      obtain rfl := Option.some.inj h
      exact .of_error ⟨rfl, rfl⟩ (by simp)
    | some address =>
      obtain rfl := Option.some.inj h
      exact .kept (by simp) rfl rfl
  | port string => exact .of_check h ⟨rfl, rfl⟩ ⟨rfl, rfl⟩ (by simp)
  | client string =>
    obtain ⟨⟨r, client⟩, -, hrest⟩ := Option.bind_eq_some_iff.mp h
    exact .of_check hrest ⟨rfl, rfl⟩ ⟨rfl, rfl⟩ (by simp)
  | queries string => exact .of_check h ⟨rfl, rfl⟩ ⟨rfl, rfl⟩ (by simp)
  | limit string => exact .of_check h ⟨rfl, rfl⟩ ⟨rfl, rfl⟩ (by simp)
  | domains file malloc malloc' =>
    obtain ⟨⟨r, options, blocks⟩, hload, hrest⟩ := Option.bind_eq_some_iff.mp h
    by_cases hr : r ≠ 0
    · dsimp only at hrest
      rw [if_pos hr] at hrest
      obtain rfl := Option.some.inj hrest
      exact .failed hr hload
    · dsimp only at hrest
      rw [if_neg hr] at hrest
      obtain rfl := Option.some.inj hrest
      rw [not_not] at hr
      exact .loaded (hr ▸ hload)
  | output opens =>
    cases opens with
    | false =>
      obtain rfl := Option.some.inj h
      exact .of_error ⟨rfl, rfl⟩ (by simp)
    | true =>
      obtain rfl := Option.some.inj h
      exact .kept (by simp) rfl rfl
  | verbose =>
    obtain rfl := Option.some.inj h
    exact .kept (by simp) rfl rfl
  | invalid =>
    obtain rfl := Option.some.inj h
    exact .of_error ⟨rfl, rfl⟩ (by simp)
  | unexpected =>
    obtain rfl := Option.some.inj h
    exact .of_error ⟨rfl, rfl⟩ (by simp)
  | done =>
    by_cases haddress : s.gotAddress = false
    · dsimp only at h
      rw [if_pos haddress] at h
      obtain rfl := Option.some.inj h
      exact .of_error ⟨rfl, rfl⟩ (by simp)
    · dsimp only at h
      rw [if_neg haddress] at h
      exact .of_check h ⟨rfl, rfl⟩ ⟨rfl, rfl⟩ (by simp)

/-! ### Whole runs -/

/-- While the options are read, no block has been released twice, and the domains are a block that
has not been released. -/
structure OptionsState.Orderly (s : OptionsState) : Prop where
  /-- The blocks. -/
  sound : s.blocks.Sound
  /-- The domains. -/
  live : ∀ block ∈ s.options.domains, s.blocks.Live block

theorem OptionsState.orderly_initial (options : MdigOptions) :
    (OptionsState.initial options).Orderly :=
  ⟨Ledger.sound_empty, by simp [OptionsState.initial]⟩

/-- No block has been released twice. -/
theorem OptionsState.Orderly.nodup_free (h : s.Orderly) :
    (s.blocks.free s.options.domains).released.Nodup :=
  (h.sound.free_pointer h.live).once

/-- A turn leaves the options consistent: if `get_domains` fails, the domains are what they were, or
not a block that has been released, and no block has been released twice when the turn ends. -/
structure Consistent (s : OptionsState) (i : GivenOption) (s' : OptionsState) : Prop where
  /-- The domains after `get_domains` has failed. -/
  domains : ∀ {file : DomainFile} {malloc malloc' : Malloc} {r : ℤ} {options : MdigOptions}
    {blocks : Ledger}, i = .domains file malloc malloc' →
    loadDomains file malloc malloc' s.options s.blocks = some (r, options, blocks) → r ≠ 0 →
    options.domains = s.options.domains ∨ blocks.Valid options.domains
  /-- The blocks released. -/
  once : s'.blocks.released.Nodup

/-- The option is one for which `get_domains` meets a bad line. -/
def GivenOption.MeetsBadLine : GivenOption → Prop
  | .domains file malloc malloc' => DnsTools.MeetsBadLine file malloc malloc'
  | _ => False

/-- What a failing `get_domains` leaves, unless it meets a bad line, may be released. -/
theorem loadDomains_failed {file : DomainFile} {malloc malloc' : Malloc} {r : ℤ}
    {options options' : MdigOptions} {blocks blocks' : Ledger} (hsound : blocks.Sound)
    (hlive : ∀ block ∈ options.domains, blocks.Live block) (hr : r ≠ 0)
    (hload : loadDomains file malloc malloc' options blocks = some (r, options', blocks'))
    (hgood : ¬MeetsBadLine file malloc malloc') :
    blocks'.Sound ∧ (options'.domains = options.domains ∨ options'.domains = none) ∧
      ∀ block ∈ options'.domains, blocks'.Live block := by
  have hscratch : ∀ block ∈ options.domains,
      (blocks.malloc.2.free (some blocks.malloc.1)).Live block :=
    fun block hblock => (hlive block hblock).malloc_free
  cases loadDomains_outcome hload with
  | untouched _ => exact ⟨hsound, Or.inl rfl, hlive⟩
  | unread _ => exact ⟨hsound.malloc_free, Or.inl rfl, hscratch⟩
  | noMemory _ => exact ⟨hsound.malloc_free, Or.inr rfl, by simp⟩
  | invalidName hbad _ => exact absurd hbad hgood
  | loaded _ _ => exact absurd rfl hr

/-- The domains just loaded are live. -/
theorem loadDomains_loaded {file : DomainFile} {malloc malloc' : Malloc}
    {options options' : MdigOptions} {blocks blocks' : Ledger} (hsound : blocks.Sound)
    (hload : loadDomains file malloc malloc' options blocks = some (0, options', blocks')) :
    ¬MeetsBadLine file malloc malloc' ∧ blocks'.Sound ∧
      ∀ block ∈ options'.domains, blocks'.Live block := by
  have houtcome := loadDomains_outcome hload
  generalize hzero : (0 : ℤ) = r at houtcome
  cases houtcome with
  | untouched _ => exact absurd hzero (by decide)
  | unread _ => exact absurd hzero (by decide)
  | noMemory _ => exact absurd hzero (by decide)
  | invalidName _ _ => exact absurd hzero (by decide)
  | loaded hgood _ =>
    refine ⟨hgood, hsound.malloc.malloc.free hsound.live_malloc.malloc, fun block hblock => ?_⟩
    obtain rfl := Option.some.inj hblock
    exact hsound.malloc.live_malloc.free (Nat.succ_ne_self _)

/-- **What a turn keeps**, as long as there is another one. -/
theorem optionStep_orderly (h : s.Orderly) (hstep : optionStep s i = some s')
    (hresult : s'.result = none) : s'.Orderly := by
  cases optionStep_outcome hstep with
  | kept _ hblocks hdomains =>
    constructor
    · rw [hblocks]
      exact h.sound
    · rw [hblocks, hdomains]
      exact h.live
  | released _ _ hsome =>
    rw [hresult] at hsome
    exact absurd hsome (by simp)
  | loaded hload =>
    obtain ⟨-, hsound, hlive⟩ := loadDomains_loaded h.sound hload
    exact ⟨hsound, hlive⟩
  | failed _ _ => exact absurd hresult (OptionsState.result_error_ne_none _)

/-- At a bad line the domains become a block that is released at once. -/
theorem not_consistent (h : s.Orderly) (hstep : optionStep s i = some s') (hbad : i.MeetsBadLine) :
    ¬Consistent s i s' := by
  intro hconsistent
  cases optionStep_outcome hstep with
  | kept hi _ _ =>
    cases i with
    | domains file malloc malloc' => exact hi file malloc malloc' rfl
    | _ => exact hbad
  | released hi _ _ =>
    cases i with
    | domains file malloc malloc' => exact hi file malloc malloc' rfl
    | _ => exact hbad
  | loaded hload => exact (loadDomains_loaded h.sound hload).1 hbad
  | failed hr hload =>
    have hdomains := hconsistent.domains rfl hload hr
    cases loadDomains_outcome hload with
    | untouched hgood => exact hgood hbad
    | unread hgood => exact hgood hbad
    | noMemory hgood => exact hgood hbad
    | loaded hgood _ => exact hgood hbad
    | invalidName _ count =>
      rcases hdomains with hsame | hvalid
      · have hlive := h.live _ hsame.symm
        exact absurd hlive.1 (Nat.not_lt.mpr (Nat.le_succ _))
      · exact hvalid _ rfl (List.mem_append_right _ (List.mem_singleton_self _))

/-- **One turn** is consistent exactly if it does not meet a bad line. -/
theorem consistent_iff (h : s.Orderly) (hstep : optionStep s i = some s') :
    ¬i.MeetsBadLine ↔ Consistent s i s' := by
  refine ⟨fun hgood => ?_, fun hconsistent hbad => not_consistent h hstep hbad hconsistent⟩
  cases optionStep_outcome hstep with
  | kept hi hblocks _ => exact ⟨fun heq => absurd heq (hi _ _ _), hblocks ▸ h.sound.once⟩
  | released hi hblocks _ => exact ⟨fun heq => absurd heq (hi _ _ _), hblocks ▸ h.nodup_free⟩
  | loaded hload =>
    refine ⟨fun heq hload' hr => ?_, (loadDomains_loaded h.sound hload).2.1.once⟩
    obtain ⟨rfl, rfl, rfl⟩ := GivenOption.domains.inj heq
    exact absurd (Prod.mk.inj (Option.some.inj (hload'.symm.trans hload))).1 hr
  | failed hr hload =>
    obtain ⟨hsound, hdomains, hlive⟩ := loadDomains_failed h.sound h.live hr hload hgood
    constructor
    · intro file malloc malloc' r options blocks heq hload' _
      obtain ⟨rfl, rfl, rfl⟩ := GivenOption.domains.inj heq
      obtain ⟨rfl, rfl, rfl⟩ := exit_eq (hload.symm.trans hload')
      refine hdomains.imp_right fun hnone block hblock => ?_
      rw [hnone] at hblock
      exact absurd hblock (by simp)
    · rw [OptionsState.blocks_error]
      exact (hsound.free_pointer hlive).once

/-- **Exactly the runs without a bad line.** In a run of `get_options` every turn leaves the options
consistent exactly if `get_domains` never meets a bad line. -/
theorem options_consistent_iff {options : MdigOptions} {is : List GivenOption}
    (hrun : Run optionStep (fun _ _ => True) (.initial options) is s) :
    Run.EveryStep optionStep Consistent (.initial options) is ↔
      Run optionStep (fun _ i => ¬i.MeetsBadLine) (.initial options) is s := by
  refine Run.everyStep_iff (P := fun s => s.result = none → s.Orderly)
    (fun _ => OptionsState.orderly_initial options) ?_ ?_ hrun
  · intro s i s' h _ hstep hresult
    exact optionStep_orderly (h (result_of_optionStep hstep)) hstep hresult
  · intro s i s' h hstep
    exact consistent_iff (h (result_of_optionStep hstep)) hstep

/-! ### A file and a dot -/

/-- Options that hold nothing yet. -/
def blankOptions : MdigOptions where
  sinAddr := 0
  sinPort := 0
  gotClient := false
  client := ⟨List.replicate clientIdLength 0, length_zeroClient⟩
  gotQueryNumber := false
  queryNumber := 0
  queryLimit := 0
  domainCount := 0
  domains := none
  output := .stdout
  verbose := false

/-- The options of a run with the one domain `a`. -/
def singleOptions : List GivenOption :=
  [.domains (.ofContents [97]) .zeroed .zeroed, .server (some 0), .done]

/-- The state they lead to. -/
def singleState : OptionsState :=
  { OptionsState.initial blankOptions with
    options := { blankOptions with sinPort := htons 53, domainCount := 1, domains := some 1 }
    gotAddress := true
    blocks := ⟨2, [0]⟩
    result := some (.returned .ok) }

theorem run_singleState :
    Run optionStep (fun _ _ => True) (.initial blankOptions) singleOptions singleState :=
  .of_foldlM (by decide)

/-- They are handled without a bad line. -/
theorem options_consistent_iff_singleState :
    Run.EveryStep optionStep Consistent (.initial blankOptions) singleOptions ↔
      Run optionStep (fun _ i => ¬i.MeetsBadLine) (.initial blankOptions) singleOptions
        singleState :=
  options_consistent_iff run_singleState

/-- A file that consists of a dot. -/
def dotOption : GivenOption := .domains (.ofContents [dot]) .zeroed .zeroed

/-- Its names are released twice. -/
theorem released_dotOption :
    (optionStep (.initial blankOptions) dotOption).map (·.blocks.released) = some [0, 1, 1] := by
  decide

theorem dot_not_consistent :
    ¬Run.EveryStep optionStep Consistent (.initial blankOptions) [dotOption] := by
  intro hevery
  obtain ⟨s, hstep, hreleased⟩ := Option.map_eq_some_iff.mp released_dotOption
  have honce := (hevery [] dotOption _ s (List.prefix_refl _) (.nil _) hstep).once
  rw [hreleased] at honce
  exact absurd honce (by decide)

end DnsTools
