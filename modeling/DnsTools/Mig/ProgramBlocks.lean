import DnsTools.Mig.FileToWire

/-!
# What the program leaves behind

`main` ends in many places, and releases at each what it has by then. No block, socket or file is
released twice, but for the domains when a line of their file is bad, and each socket is closed. The
buffer for the answers is never released, and neither are domains that a later `-d` replaces; when
the loops are done the domains, the queries and the arrays are not released either. Of the outputs
the last one opened is closed, but not when the program ends for `-h`.

An output that cannot be opened is passed to `fclose` all the same, as a null pointer, and the
program dies there. What it does after it has released the domains twice is left open: that is not
defined either, so what is counted at an early exit is counted where no line is bad.

## Keeping the books

The blocks are numbered as they are allocated, and a `Ledger` records which have been released. A
block is released, held by `main` for a later `free`, or lost: nothing points to it any more. The
number of lost blocks is a parameter of `Held.Accounts`, so a step that loses one goes from `lost`
to `lost + 1`, and an exit tells the rest. While the options are read there are only the blocks of
the `-d`, of which the last is held and the others are lost.

The outputs need less. They are opened by `-o` alone and closed at the exits alone, and what is
closed there is what the options refer to, which is the last one opened.

## Main results

* `optionsEnded_of_run` — what `get_options` leaves behind when it fails
* `Held.Accounts.giveUp`, `Held.Accounts.finish` — what `main` leaves behind at its exits
* `main_releases` — the whole program
-/

namespace DnsTools

open Memory

/-! ### The options -/

/-- The option is a `-d`. -/
def GivenOption.isDomains : GivenOption → Bool
  | .domains .. => true
  | _ => false

/-- No file that an option gives has a bad line. -/
abbrev NoBadLine (opts : List GivenOption) : Prop := ∀ i ∈ opts, ¬i.MeetsBadLine

/-- While the options are read, and when they are complete. -/
structure OptionsKept (opts : List GivenOption) (s : OptionsState) : Prop where
  /-- No block has been released twice. -/
  orderly : s.Orderly
  /-- Each `-d` has left one block. -/
  balance : s.blocks.allocated = s.blocks.released.length + opts.countP GivenOption.isDomains
  /-- The last of them is that of the domains. -/
  domains : s.options.domains = none ∧ s.options.domainCount = 0 ∧
      opts.countP GivenOption.isDomains = 0 ∨
    s.options.domains.isSome ∧ 0 < opts.countP GivenOption.isDomains
  /-- No line has been bad. -/
  good : NoBadLine opts
  /-- Every output could be opened. -/
  opens : .output false ∉ opts
  /-- None has been closed. -/
  closed : s.closed = []
  /-- The output is the last one opened. -/
  output : s.options.output = if s.opened = 0 then .stdout else .file (s.opened - 1)

/-- The last output opened, if there is one. -/
def OptionsState.lastOpened (s : OptionsState) : List Stream :=
  if s.opened = 0 then [] else [.file (s.opened - 1)]

/-- What `get_options` has released when it ends early, and no line is bad. -/
structure OptionsReleased (opts : List GivenOption) (s : OptionsState) : Prop where
  /-- No block has been released twice. -/
  sound : s.blocks.Sound
  /-- At most the blocks of the `-d` before the last one are left. -/
  balance : ∃ lost, lost ≤ opts.countP GivenOption.isDomains - 1 ∧
    s.blocks.allocated = s.blocks.released.length + lost
  /-- At the error label the last output opened is closed. -/
  closed : s.closed = if s.result = some (.returned .error) then s.lastOpened else []

/-- When `get_options` ends early. -/
structure OptionsEnded (opts : List GivenOption) (s : OptionsState) : Prop where
  /-- No block has been released twice, unless a line was bad. -/
  once : s.blocks.released.Nodup ↔ NoBadLine opts
  /-- The program has died exactly if an output cannot be opened. -/
  crashed : s.result = some .crashed ↔ .output false ∈ opts
  /-- Where no line is bad. -/
  released : NoBadLine opts → OptionsReleased opts s

section Options

variable {opts : List GivenOption} {s s' s₁ : OptionsState} {i : GivenOption}

theorem optionsKept_initial (options₀ : MdigOptions) : OptionsKept [] (.initial options₀) where
  orderly := OptionsState.orderly_initial options₀
  balance := rfl
  domains := Or.inl ⟨rfl, rfl, rfl⟩
  good := fun _ hi => absurd hi List.not_mem_nil
  opens := List.not_mem_nil
  closed := rfl
  output := rfl

theorem NoBadLine.concat (h : NoBadLine opts) (hi : ¬i.MeetsBadLine) : NoBadLine (opts ++ [i]) := by
  intro j hj
  rcases List.mem_append.mp hj with hj | hj
  · exact h j hj
  · exact List.mem_singleton.mp hj ▸ hi

theorem not_noBadLine (hi : i.MeetsBadLine) : ¬NoBadLine (opts ++ [i]) :=
  fun h => h i (List.mem_append_right _ (List.mem_singleton_self i)) hi

theorem GivenOption.not_meetsBadLine (hi : ¬i.OfFile) : ¬i.MeetsBadLine := by
  cases i with
  | domains => exact absurd trivial hi
  | _ => exact fun h => h

theorem countP_isDomains_concat (hi : ∀ file malloc malloc', i ≠ .domains file malloc malloc') :
    (opts ++ [i]).countP GivenOption.isDomains = opts.countP GivenOption.isDomains := by
  rw [List.countP_append]
  cases i with
  | domains file malloc malloc' => exact absurd rfl (hi file malloc malloc')
  | _ => rfl

theorem countP_isDomains_domains (opts : List GivenOption) (file : DomainFile)
    (malloc malloc' : Malloc) :
    (opts ++ [GivenOption.domains file malloc malloc']).countP GivenOption.isDomains =
      opts.countP GivenOption.isDomains + 1 := List.countP_append ..

theorem opens_concat (h : .output false ∉ opts) (hi : i ≠ .output false) :
    .output false ∉ opts ++ [i] := by
  rw [List.mem_append, List.mem_singleton]
  exact fun hmem => hmem.elim h fun heq => hi heq.symm

theorem OptionsKept.same (h : OptionsKept opts s) (hi : ¬i.OfFile) (hsame : s.SameHoldings s') :
    OptionsKept (opts ++ [i]) s' where
  orderly := ⟨hsame.blocks ▸ h.orderly.sound, by
    rw [hsame.blocks, hsame.domains]
    exact h.orderly.live⟩
  balance := by
    rw [hsame.blocks, countP_isDomains_concat (GivenOption.ne_domains hi)]
    exact h.balance
  domains := by
    rw [hsame.domains, hsame.domainCount, countP_isDomains_concat (GivenOption.ne_domains hi)]
    exact h.domains
  good := h.good.concat (GivenOption.not_meetsBadLine hi)
  opens := opens_concat h.opens fun heq => hi (heq ▸ trivial)
  closed := hsame.closed.trans h.closed
  output := by
    rw [hsame.output, hsame.opened]
    exact h.output

/-- Where the output is the last one opened, the error label closes it and returns. -/
theorem OptionsState.closed_error (hclosed : s.closed = [])
    (houtput : s.options.output = if s.opened = 0 then .stdout else .file (s.opened - 1)) :
    s.error.result = some (.returned .error) ∧ s.error.closed = s.error.lastOpened := by
  by_cases hopened : s.opened = 0
  · rw [if_pos hopened] at houtput
    simp [error, houtput, lastOpened, hopened, hclosed]
  · rw [if_neg hopened] at houtput
    simp [error, houtput, lastOpened, hopened, hclosed]

/-- A pointer to one of the blocks left is released. -/
theorem balance_free {blocks : Ledger} {pointer : Option ℕ} {n : ℕ}
    (hle : pointer.toList.length ≤ n) (h : blocks.allocated = blocks.released.length + n) :
    (blocks.free pointer).allocated =
      (blocks.free pointer).released.length + (n - pointer.toList.length) := by
  rw [Ledger.allocated_free, Ledger.released_free, List.length_append]
  omega

/-- The domains are one of the blocks left. -/
theorem OptionsKept.length_domains (h : OptionsKept opts s) :
    s.options.domains.toList.length ≤ opts.countP GivenOption.isDomains := by
  rcases h.domains with ⟨hnone, -, -⟩ | ⟨hsome, hpos⟩
  · rw [hnone]
    exact Nat.zero_le _
  · obtain ⟨block, hblock⟩ := Option.isSome_iff_exists.mp hsome
    rw [hblock]
    exact hpos

/-- When they are released, those of the earlier `-d` are left. -/
theorem OptionsKept.free (h : OptionsKept opts s)
    (hdomains : ∀ file malloc malloc', i ≠ .domains file malloc malloc') {blocks : Ledger}
    (hblocks : blocks = s.blocks.free s.options.domains) :
    blocks.Sound ∧ ∃ lost, lost ≤ (opts ++ [i]).countP GivenOption.isDomains - 1 ∧
      blocks.allocated = blocks.released.length + lost := by
  subst hblocks
  refine ⟨h.orderly.sound.free_pointer h.orderly.live,
    opts.countP GivenOption.isDomains - s.options.domains.toList.length, ?_,
    balance_free h.length_domains h.balance⟩
  rw [countP_isDomains_concat hdomains]
  rcases h.domains with ⟨-, -, hzero⟩ | ⟨hsome, -⟩
  · omega
  · obtain ⟨block, hblock⟩ := Option.isSome_iff_exists.mp hsome
    rw [hblock]
    rfl

section Load

variable {file : DomainFile} {malloc malloc' : Malloc} {options options' : MdigOptions}
  {blocks blocks' : Ledger} {r : ℤ}

/-- When `get_domains` fails it has released as many blocks as it has allocated. -/
theorem loadDomains_left (hr : r ≠ 0)
    (hload : loadDomains file malloc malloc' options blocks = some (r, options', blocks')) :
    options'.output = options.output ∧
      blocks'.allocated + blocks.released.length = blocks'.released.length + blocks.allocated := by
  cases loadDomains_outcome hload with
  | untouched => exact ⟨rfl, Nat.add_comm _ _⟩
  | loaded => exact absurd rfl hr
  | unread =>
    simp only [Ledger.malloc, Ledger.allocated_free, Ledger.released_free, Option.toList_some,
      List.length_append, List.length_singleton, true_and]
    omega
  | noMemory =>
    simp only [Ledger.malloc, Ledger.allocated_free, Ledger.released_free, Option.toList_some,
      List.length_append, List.length_singleton, true_and]
    omega
  | invalidName =>
    simp only [Ledger.malloc, Ledger.allocated_free, Ledger.released_free, Option.toList_some,
      List.length_append, List.length_singleton, true_and]
    omega

/-- When it does not, it leaves one more. -/
theorem loadDomains_kept
    (hload : loadDomains file malloc malloc' options blocks = some (0, options', blocks')) :
    options'.output = options.output ∧ options'.domains.isSome ∧
      blocks'.allocated + blocks.released.length =
        blocks'.released.length + blocks.allocated + 1 := by
  have houtcome := loadDomains_outcome hload
  generalize hzero : (0 : ℤ) = r at houtcome
  cases houtcome with
  | untouched => exact absurd hzero (by decide)
  | unread => exact absurd hzero (by decide)
  | noMemory => exact absurd hzero (by decide)
  | invalidName => exact absurd hzero (by decide)
  | loaded =>
    simp only [Ledger.malloc, Ledger.allocated_free, Ledger.released_free, Option.toList_some,
      Option.isSome_some, List.length_append, List.length_singleton, true_and]
    omega

/-- At a bad line the block that the options refer to has been released already. -/
theorem loadDomains_bad (hbad : MeetsBadLine file malloc malloc')
    (hload : loadDomains file malloc malloc' options blocks = some (r, options', blocks')) :
    ¬(blocks'.free options'.domains).released.Nodup := by
  cases loadDomains_outcome hload with
  | untouched hgood => exact absurd hbad hgood
  | unread hgood => exact absurd hbad hgood
  | noMemory hgood => exact absurd hbad hgood
  | loaded hgood => exact absurd hbad hgood
  | invalidName =>
    rw [Ledger.released_free, Ledger.released_free]
    intro honce
    exact List.disjoint_of_nodup_append honce
      (List.mem_append_right _ (List.mem_singleton_self _)) (List.mem_singleton_self _)

end Load

/-- A turn that goes to the error label with what there was before. -/
theorem OptionsKept.ended (h : OptionsKept opts s) (hi : ¬i.MeetsBadLine)
    (hdomains : ∀ file malloc malloc', i ≠ .domains file malloc malloc')
    (hopens : i ≠ .output false) (hsame : s.SameHoldings s₁) :
    OptionsEnded (opts ++ [i]) s₁.error := by
  have hblocks : s₁.error.blocks = s.blocks.free s.options.domains := by
    rw [OptionsState.blocks_error, hsame.blocks, hsame.domains]
  have houtput : s₁.options.output =
      if s₁.opened = 0 then .stdout else .file (s₁.opened - 1) := by
    rw [hsame.output, hsame.opened, h.output]
  obtain ⟨hresult, hclosed⟩ := OptionsState.closed_error (hsame.closed.trans h.closed) houtput
  obtain ⟨hsound, hbalance⟩ := h.free hdomains hblocks
  constructor
  case once => exact iff_of_true hsound.once (h.good.concat hi)
  case crashed =>
    rw [hresult]
    exact iff_of_false (by simp) (opens_concat h.opens hopens)
  case released =>
    intro _
    refine ⟨hsound, hbalance, ?_⟩
    rw [if_pos hresult]
    exact hclosed

/-- A `-d` of which the file cannot be loaded. The error label releases the domains of the one
before, or, at a bad line, a block that has been released already. -/
theorem OptionsKept.unloaded (h : OptionsKept opts s) {file : DomainFile} {malloc malloc' : Malloc}
    {options : MdigOptions} {blocks : Ledger} {r : ℤ} (hr : r ≠ 0)
    (hload : loadDomains file malloc malloc' s.options s.blocks = some (r, options, blocks)) :
    OptionsEnded (opts ++ [.domains file malloc malloc'])
      ({ s with options, blocks } : OptionsState).error := by
  obtain ⟨houtput, hbalance⟩ := loadDomains_left hr hload
  obtain ⟨hresult, hclosed⟩ := OptionsState.closed_error
    (s := { s with options, blocks }) h.closed (houtput.trans h.output)
  have hcount := countP_isDomains_domains opts file malloc malloc'
  have hbefore := h.balance
  constructor
  case once =>
    rw [OptionsState.blocks_error]
    by_cases hbad : MeetsBadLine file malloc malloc'
    · exact iff_of_false (loadDomains_bad hbad hload) (not_noBadLine hbad)
    · obtain ⟨hsound, -, hlive⟩ := loadDomains_failed h.orderly.sound h.orderly.live hr hload hbad
      exact iff_of_true (hsound.free_pointer hlive).once (h.good.concat hbad)
  case crashed =>
    rw [hresult]
    exact iff_of_false (by simp) (opens_concat h.opens (by simp))
  case released =>
    intro hgood
    have hline : ¬MeetsBadLine file malloc malloc' :=
      hgood _ (List.mem_append_right _ (List.mem_singleton_self _))
    obtain ⟨hsound, hdomains, hlive⟩ :=
      loadDomains_failed h.orderly.sound h.orderly.live hr hload hline
    have hle : options.domains.toList.length ≤ opts.countP GivenOption.isDomains := by
      rcases hdomains with hsame | hnull
      · exact hsame ▸ h.length_domains
      · rw [hnull]
        exact Nat.zero_le _
    refine ⟨?_, ⟨opts.countP GivenOption.isDomains - options.domains.toList.length, by omega, ?_⟩,
      ?_⟩
    · rw [OptionsState.blocks_error]
      exact hsound.free_pointer hlive
    · rw [OptionsState.blocks_error]
      refine balance_free hle ?_
      show blocks.allocated = blocks.released.length + _
      omega
    · rw [if_pos hresult]
      exact hclosed

theorem OptionsKept.next (h : OptionsKept opts s) (hstep : optionStep s i = some s') :
    (s'.Accepted → OptionsKept (opts ++ [i]) s') ∧
    (¬s'.Accepted → OptionsEnded (opts ++ [i]) s') := by
  have hnone := result_of_optionStep hstep
  cases optionStep_turn hstep with
  | kept hi hsame hnone' =>
    exact ⟨fun _ => h.same hi hsame, fun hnot => absurd (Or.inl hnone') hnot⟩
  | refused hi hsame =>
    refine ⟨fun haccepted => absurd haccepted (OptionsState.not_accepted_error _), fun _ => ?_⟩
    exact h.ended (GivenOption.not_meetsBadLine hi) (GivenOption.ne_domains hi)
      (fun heq => hi (heq ▸ trivial)) hsame
  | helped =>
    obtain ⟨hsound, hbalance⟩ := h.free (i := .help) (by simp) rfl
    refine ⟨by simp [OptionsState.Accepted], fun _ => ⟨?_, ?_, fun _ => ⟨hsound, hbalance, ?_⟩⟩⟩
    · exact iff_of_true hsound.once (h.good.concat (fun hi => hi))
    · exact iff_of_false (by simp) (opens_concat h.opens (by simp))
    · rw [if_neg (by simp)]
      exact h.closed
  | done =>
    exact ⟨fun _ => h.same (fun hi => hi) ⟨rfl, rfl, rfl, rfl, rfl, rfl⟩,
      fun hnot => absurd (Or.inr rfl) hnot⟩
  | opened =>
    refine ⟨fun _ => ⟨⟨h.orderly.sound, h.orderly.live⟩, ?_, ?_, h.good.concat (fun hi => hi),
      opens_concat h.opens (by simp), h.closed, rfl⟩, fun hnot => absurd (Or.inl hnone) hnot⟩
    · rw [countP_isDomains_concat (by simp)]
      exact h.balance
    · rw [countP_isDomains_concat (by simp)]
      exact h.domains
  | unopened =>
    -- The null pointer is stored before the error label is reached.
    obtain ⟨hsound, hbalance⟩ := h.free (i := .output false) (by simp) rfl
    refine ⟨fun haccepted => absurd haccepted (OptionsState.not_accepted_error _),
      fun _ => ⟨?_, ?_, fun _ => ⟨hsound, hbalance, ?_⟩⟩⟩
    · exact iff_of_true hsound.once (h.good.concat (fun hi => hi))
    · exact iff_of_true rfl (by simp)
    · rw [OptionsState.result_error, if_pos rfl, if_neg (by simp)]
      exact h.closed
  | @loaded file malloc malloc' options blocks hload =>
    obtain ⟨hgood, hsound, hlive⟩ := loadDomains_loaded h.orderly.sound hload
    obtain ⟨houtput, hsome, hbalance⟩ := loadDomains_kept hload
    have hcount := countP_isDomains_domains opts file malloc malloc'
    refine ⟨fun _ => ⟨⟨hsound, hlive⟩, ?_, Or.inr ⟨hsome, by omega⟩, h.good.concat hgood,
      opens_concat h.opens (by simp), h.closed, houtput.trans h.output⟩,
      fun hnot => absurd (Or.inl hnone) hnot⟩
    have hbefore := h.balance
    show blocks.allocated = blocks.released.length + _
    omega
  | @unloaded file malloc malloc' r options blocks hr hload =>
    exact ⟨fun haccepted => absurd haccepted (OptionsState.not_accepted_error _),
      fun _ => h.unloaded hr hload⟩

/-- **What `get_options` leaves.** -/
theorem optionsEnded_of_run {options₀ : MdigOptions}
    (hread : Run optionStep (fun _ _ => True) (.initial options₀) opts s) :
    (s.Accepted → OptionsKept opts s) ∧ (¬s.Accepted → OptionsEnded opts s) := by
  refine hread.invariant_history
    (P := fun opts s => (s.Accepted → OptionsKept opts s) ∧ (¬s.Accepted → OptionsEnded opts s))
    ⟨fun _ => optionsKept_initial options₀, fun hnot => absurd (Or.inl rfl) hnot⟩ ?_
  intro opts s i s' _ ih _ hstep
  exact (ih.1 (Or.inl (result_of_optionStep hstep))).next hstep

end Options

/-! ### What `main` holds -/

/-- The books of `main` behind the options; so many blocks have been lost sight of. -/
structure Held.Accounts (lost : ℕ) (h : Held) : Prop where
  /-- No block has been released twice. -/
  sound : h.blocks.Sound
  /-- The blocks to release are different ones. -/
  nodup : h.pointers.Nodup
  /-- None of them has been released. -/
  live : ∀ block ∈ h.pointers, h.blocks.Live block
  /-- A block is released, held or lost. -/
  balance : h.blocks.allocated = h.blocks.released.length + h.pointers.length + lost
  /-- The socket is the only one, and open. -/
  socket : h.socket = none ∧ h.sockets = ⟨0, []⟩ ∨ h.socket = some 0 ∧ h.sockets = ⟨1, []⟩
  /-- No output has been closed. -/
  closed : h.closed = []
  /-- The output is the last one opened. -/
  output : h.output = if h.opened = 0 then .stdout else .file (h.opened - 1)

/-- What is left behind at an exit: so many blocks. -/
structure Held.Leaves (lost : ℕ) (h : Held) : Prop where
  /-- No block has been released twice. -/
  sound : h.blocks.Sound
  /-- The blocks left. -/
  balance : h.blocks.allocated = h.blocks.released.length + lost
  /-- Every socket has been closed once. -/
  sockets : h.sockets.released = List.range h.sockets.allocated

/-- The last output opened, if there is one. -/
def Held.lastOpened (h : Held) : List Stream :=
  if h.opened = 0 then [] else [.file (h.opened - 1)]

section Held

variable {h h' : Held} {lost : ℕ}

theorem Held.Accounts.ofOptions {opts : List GivenOption} {s : OptionsState}
    (hkept : OptionsKept opts s) (hpos : 0 < s.options.domainCount) :
    0 < opts.countP GivenOption.isDomains ∧ (Held.ofOptions s).pointers.length = 1 ∧
      (Held.ofOptions s).Accounts (opts.countP GivenOption.isDomains - 1) := by
  obtain ⟨hsome, hloads⟩ := hkept.domains.resolve_left fun hnone => Nat.ne_of_gt hpos hnone.2.1
  obtain ⟨block, hblock⟩ := Option.isSome_iff_exists.mp hsome
  have hpointers : (Held.ofOptions s).pointers = [block] := by
    rw [Held.ofOptions, hblock]
    rfl
  have hbalance := hkept.balance
  refine ⟨hloads, by rw [hpointers, List.length_singleton], hkept.orderly.sound,
    hpointers ▸ List.nodup_singleton block, ?_, ?_, Or.inl ⟨rfl, rfl⟩, hkept.closed,
    hkept.output⟩
  · rw [hpointers]
    intro block' hmem
    exact hkept.orderly.live block' (List.mem_singleton.mp hmem ▸ hblock)
  · rw [hpointers, List.length_singleton]
    show s.blocks.allocated = s.blocks.released.length + 1 + _
    omega

theorem Held.Accounts.malloc (haccounts : h.Accounts lost) : h.malloc.Accounts lost where
  sound := haccounts.sound.malloc
  nodup := List.nodup_cons.mpr
    ⟨fun hmem => Nat.lt_irrefl _ (haccounts.live _ hmem).1, haccounts.nodup⟩
  live := by
    intro block hmem
    rcases List.mem_cons.mp hmem with rfl | hmem
    · exact haccounts.sound.live_malloc
    · exact (haccounts.live block hmem).malloc
  balance := by
    have hbalance := haccounts.balance
    simp only [Held.malloc, Ledger.malloc, List.length_cons]
    omega
  socket := haccounts.socket
  closed := haccounts.closed
  output := haccounts.output

/-- The buffer for the answers is lost sight of at once. -/
theorem Held.Accounts.mallocBuffer (haccounts : h.Accounts lost) :
    h.mallocBuffer.Accounts (lost + 1) where
  sound := haccounts.sound.malloc
  nodup := haccounts.nodup
  live block hmem := (haccounts.live block hmem).malloc
  balance := by
    have hbalance := haccounts.balance
    simp only [Held.mallocBuffer, Ledger.malloc]
    omega
  socket := haccounts.socket
  closed := haccounts.closed
  output := haccounts.output

theorem Held.Accounts.openSocket (haccounts : h.Accounts lost) (hsocket : h.socket = none) :
    h.openSocket.Accounts lost where
  sound := haccounts.sound
  nodup := haccounts.nodup
  live := haccounts.live
  balance := haccounts.balance
  socket := by
    rcases haccounts.socket with ⟨-, hsockets⟩ | ⟨hsome, -⟩
    · rw [Held.openSocket, hsockets]
      exact Or.inr ⟨rfl, rfl⟩
    · exact nomatch hsocket.symm.trans hsome
  closed := haccounts.closed
  output := haccounts.output

theorem Held.Accounts.grown (haccounts : h.Accounts lost) (hgrown : h.Grown h') :
    h'.Accounts lost := by
  induction hgrown with
  | start => exact haccounts
  | malloc _ ih => exact ih.malloc
  | openSocket _ hsocket ih => exact ih.openSocket hsocket

/-- All that is lost in the loops is the buffer for the answers. -/
theorem Held.Accounts.entered (haccounts : h.Accounts lost) (hsocket : h.socket = none) :
    h.entered.Accounts (lost + 1) :=
  (haccounts.malloc.malloc.malloc.malloc.openSocket hsocket).mallocBuffer

/-- `close(s)`. -/
theorem Held.Accounts.closeSocket (haccounts : h.Accounts lost) :
    (h.sockets.free h.socket).released = List.range (h.sockets.free h.socket).allocated := by
  rcases haccounts.socket with ⟨hnone, hsockets⟩ | ⟨hsome, hsockets⟩
  · rw [hnone, hsockets]
    rfl
  · rw [hsome, hsockets]
    rfl

@[simp] theorem Held.blocks_closeOutput (h : Held) : h.closeOutput.blocks = h.blocks := by
  rw [closeOutput]
  split <;> rfl

@[simp] theorem Held.sockets_closeOutput (h : Held) : h.closeOutput.sockets = h.sockets := by
  rw [closeOutput]
  split <;> rfl

@[simp] theorem Held.opened_closeOutput (h : Held) : h.closeOutput.opened = h.opened := by
  rw [closeOutput]
  split <;> rfl

/-- The output that is closed is the last one opened. -/
theorem Held.closed_closeOutput (hclosed : h.closed = [])
    (houtput : h.output = if h.opened = 0 then .stdout else .file (h.opened - 1)) :
    h.closeOutput.closed = h.lastOpened := by
  rw [closeOutput, houtput, lastOpened]
  by_cases hopened : h.opened = 0
  · rw [if_pos hopened, if_pos rfl, if_pos hopened, hclosed]
  · rw [if_neg hopened, if_neg (by simp), if_neg hopened, hclosed, List.nil_append]

theorem reduceOption_map_some (blocks : List ℕ) : (blocks.map some).reduceOption = blocks := by
  rw [List.reduceOption, List.filterMap_map]
  exact List.filterMap_some

/-- What is closed at the exits of `main`. -/
theorem Held.Accounts.closed_giveUp (haccounts : h.Accounts lost) :
    h.giveUp.closed = h.giveUp.lastOpened := by
  rw [Held.lastOpened, Held.giveUp, Held.opened_closeOutput]
  exact Held.closed_closeOutput haccounts.closed haccounts.output

theorem Held.Accounts.closed_finish (haccounts : h.Accounts lost) :
    h.finish.closed = h.finish.lastOpened := by
  rw [Held.lastOpened, Held.finish, Held.opened_closeOutput]
  exact Held.closed_closeOutput haccounts.closed haccounts.output

/-- **An exit with `1`** releases what is held. -/
theorem Held.Accounts.giveUp (haccounts : h.Accounts lost) : h.giveUp.Leaves lost where
  sound := by
    rw [Held.giveUp, Held.blocks_closeOutput]
    refine haccounts.sound.frees ?_ ?_
    · rw [reduceOption_map_some]
      exact haccounts.nodup
    · rw [reduceOption_map_some]
      exact haccounts.live
  balance := by
    rw [Held.giveUp, Held.blocks_closeOutput, Ledger.allocated_frees, Ledger.released_frees,
      reduceOption_map_some, List.length_append]
    exact haccounts.balance
  sockets := by
    rw [Held.giveUp, Held.sockets_closeOutput]
    exact haccounts.closeSocket

/-- **The exit with `0`** leaves it behind. -/
theorem Held.Accounts.finish (haccounts : h.Accounts lost) :
    h.finish.Leaves (h.pointers.length + lost) where
  sound := by
    rw [Held.finish, Held.blocks_closeOutput]
    exact haccounts.sound
  balance := by
    rw [Held.finish, Held.blocks_closeOutput, ← Nat.add_assoc]
    exact haccounts.balance
  sockets := by
    rw [Held.finish, Held.sockets_closeOutput]
    exact haccounts.closeSocket

end Held

/-! ### The whole program -/

/-- The number of `-d` among the inputs. -/
def loads (inputs : List MainInput) : ℕ := (givenOptions inputs).countP GivenOption.isDomains

theorem givenOptions_map (opts : List GivenOption) :
    givenOptions (opts.map .option) = opts := by
  simp [givenOptions, List.filterMap_map]

theorem givenOptions_setUp (opts : List GivenOption) (a : SetUp) :
    givenOptions (opts.map .option ++ [.setUp a]) = opts := by
  simp [givenOptions, List.filterMap_map]

section Program

variable {options₀ : MdigOptions} {names₀ : Block} {opts : List GivenOption} {s : OptionsState}

/-- Behind complete options the books are in order. -/
theorem accounts_of_ok
    (hread : Run optionStep (fun _ _ => True) (.initial options₀) opts s)
    (hok : s.result = some (.returned .ok)) :
    OptionsKept opts s ∧ 0 < opts.countP GivenOption.isDomains ∧
      (Held.ofOptions s).pointers.length = 1 ∧
      (Held.ofOptions s).Accounts (opts.countP GivenOption.isDomains - 1) := by
  have hkept := (optionsEnded_of_run hread).1 (Or.inr hok)
  have hpos := (optionsLoaded_of_run ⟨[], []⟩ hread (Or.inr hok)).2 hok
  exact ⟨hkept, Held.Accounts.ofOptions hkept hpos⟩

end Program

/-- When `main` has returned before its loops, with this code. -/
structure Held.Stopped (inputs : List MainInput) (code : ℤ) (h : Held) : Prop where
  /-- No block has been released twice, unless a line of a file of domains was bad. -/
  once : h.blocks.released.Nodup ↔ NoBadLine (givenOptions inputs)
  /-- Otherwise at most the domains of the `-d` before the last one are left. -/
  leaves : NoBadLine (givenOptions inputs) → ∃ lost, lost ≤ loads inputs - 1 ∧ h.Leaves lost
  /-- And the last output opened has been closed, once, but not for `-h`. -/
  closed : NoBadLine (givenOptions inputs) → h.closed = if code = 0 then [] else h.lastOpened

/-- `get_options` has returned early. -/
theorem OptionsEnded.stopped {inputs : List MainInput} {opts : List GivenOption}
    {s : OptionsState} {code : ℤ} (h : OptionsEnded opts s) (hgiven : givenOptions inputs = opts)
    (hcode : s.result = some (.returned .error) ↔ code ≠ 0) :
    (Held.ofOptions s).Stopped inputs code where
  once := hgiven ▸ h.once
  leaves hgood := by
    have hreleased := h.released (hgiven ▸ hgood)
    obtain ⟨lost, hle, hbalance⟩ := hreleased.balance
    exact ⟨lost, by rwa [loads, hgiven], hreleased.sound, hbalance, rfl⟩
  closed hgood := by
    have hclosed := (h.released (hgiven ▸ hgood)).closed
    by_cases hzero : code = 0
    · rw [if_neg (fun herror => hcode.mp herror hzero)] at hclosed
      rw [if_pos hzero]
      exact hclosed
    · rw [if_pos (hcode.mpr hzero)] at hclosed
      rw [if_neg hzero]
      exact hclosed

/-- `main` has failed behind the options. -/
theorem Held.Accounts.stopped {inputs : List MainInput} {opts : List GivenOption}
    {s : OptionsState} {h : Held} (haccounts : h.Accounts (opts.countP GivenOption.isDomains - 1))
    (hgiven : givenOptions inputs = opts) (hkept : OptionsKept opts s) :
    h.giveUp.Stopped inputs 1 where
  once := iff_of_true haccounts.giveUp.sound.once (hgiven ▸ hkept.good)
  leaves _ := ⟨_, by rw [loads, hgiven], haccounts.giveUp⟩
  closed _ := haccounts.closed_giveUp

/-- The program dies exactly if an output cannot be opened. -/
theorem MainReached.crashed_iff {options₀ : MdigOptions} {names₀ : Block} {inputs : List MainInput}
    {main : MigMain} (h : MainReached options₀ names₀ inputs main) :
    .output false ∈ givenOptions inputs ↔ ∃ held, main = .crashed held := by
  cases h with
  | options hread hresult =>
    rw [givenOptions_map]
    exact iff_of_false ((optionsEnded_of_run hread).1 (Or.inl hresult)).opens (by simp)
  | ready hread hresult =>
    rw [givenOptions_map]
    exact iff_of_false ((optionsEnded_of_run hread).1 (Or.inr hresult)).opens (by simp)
  | helped hread hresult =>
    have hended := (optionsEnded_of_run hread).2 (by simp [OptionsState.Accepted, hresult])
    rw [givenOptions_map, ← hended.crashed, hresult]
    exact iff_of_false (by simp) (by simp)
  | refused hread hresult =>
    have hended := (optionsEnded_of_run hread).2 (by simp [OptionsState.Accepted, hresult])
    rw [givenOptions_map, ← hended.crashed, hresult]
    exact iff_of_false (by simp) (by simp)
  | crashed hread hresult =>
    have hended := (optionsEnded_of_run hread).2 (by simp [OptionsState.Accepted, hresult])
    rw [givenOptions_map, ← hended.crashed]
    exact iff_of_true hresult ⟨_, rfl⟩
  | stopped hread hresult =>
    obtain ⟨hkept, -⟩ := accounts_of_ok hread hresult
    rw [givenOptions_setUp]
    exact iff_of_false hkept.opens (by simp)
  | loops hentered =>
    obtain ⟨hkept, -⟩ := accounts_of_ok hentered.read hentered.ok
    rw [givenOptions_append]
    exact iff_of_false hkept.opens (by simp)
  | failed hentered =>
    obtain ⟨hkept, -⟩ := accounts_of_ok hentered.read hentered.ok
    rw [givenOptions_append]
    exact iff_of_false hkept.opens (by simp)
  | finished hentered =>
    obtain ⟨hkept, -⟩ := accounts_of_ok hentered.read hentered.ok
    rw [givenOptions_append]
    exact iff_of_false hkept.opens (by simp)

/-- **What the program releases.** While the loops run, every block they use is there. When `main`
has returned, nothing has been released twice, but for the domains at a bad line. Where no line is
bad: if it returns before its loops, at most the domains of all `-d` but the last are left; if it
fails in its loops, these and the buffer for the answers; if it is done, all but the buffers the
files were read into. Of the outputs it has closed the last one opened, once, or for `-h` none. The
program dies exactly if an output cannot be opened. -/
theorem main_releases {options₀ : MdigOptions} {names₀ : Block} {inputs : List MainInput}
    {main : MigMain}
    (hrun : Run mainStep (fun _ _ => True) (.start options₀ names₀) inputs main) :
    (∀ options held m, main = .loops options held m →
      held.blocks.Sound ∧ held.pointers.Nodup ∧ held.pointers.length = 5 ∧
        ∀ block ∈ held.pointers, held.blocks.Live block) ∧
    (∀ code held, main = .stopped code held → held.Stopped inputs code) ∧
    (∀ code options held m printed, main = .ended code options held m printed →
      held.Leaves (loads inputs + if code = 0 then 5 else 0) ∧ held.closed = held.lastOpened) ∧
    (.output false ∈ givenOptions inputs ↔ ∃ held, main = .crashed held) := by
  have hreached := mainReached_of_run hrun
  refine ⟨?_, ?_, ?_, ?_⟩
  · rintro options held m rfl
    cases hreached with
    | loops hentered =>
      obtain ⟨-, -, hlength, haccounts⟩ := accounts_of_ok hentered.read hentered.ok
      have hloops := haccounts.entered rfl
      exact ⟨hloops.sound, hloops.nodup, congrArg (· + 4) hlength, hloops.live⟩
  · rintro code held rfl
    cases hreached with
    | helped hread hresult =>
      have hended := (optionsEnded_of_run hread).2 (by simp [OptionsState.Accepted, hresult])
      exact hended.stopped (givenOptions_map _) (by simp [hresult])
    | refused hread hresult =>
      have hended := (optionsEnded_of_run hread).2 (by simp [OptionsState.Accepted, hresult])
      exact hended.stopped (givenOptions_map _) (by simp [hresult])
    | stopped hread hresult hgrown =>
      obtain ⟨hkept, -, -, haccounts⟩ := accounts_of_ok hread hresult
      exact (haccounts.grown hgrown).stopped (givenOptions_setUp _ _) hkept
  · rintro code options held m printed rfl
    rw [loads]
    cases hreached with
    | failed hentered =>
      obtain ⟨-, hpos, -, haccounts⟩ := accounts_of_ok hentered.read hentered.ok
      have hloops := haccounts.entered rfl
      rw [givenOptions_append, if_neg Int.one_ne_zero, Nat.add_zero, ← Nat.sub_add_cancel hpos]
      exact ⟨hloops.giveUp, hloops.closed_giveUp⟩
    | finished hentered =>
      obtain ⟨-, hpos, hlength, haccounts⟩ := accounts_of_ok hentered.read hentered.ok
      have hloops := haccounts.entered rfl
      have hfive : (Held.ofOptions _).entered.pointers.length = 5 := congrArg (· + 4) hlength
      have hleaves := hloops.finish
      rw [hfive, Nat.sub_add_cancel hpos, Nat.add_comm] at hleaves
      rw [givenOptions_append, if_pos rfl]
      exact ⟨hleaves, hloops.closed_finish⟩
  · exact hreached.crashed_iff

/-- Of the run with three queries the domains, the queries, the arrays and the buffer for the
answers are left, and the file for the report has been closed. -/
theorem main_releases_three : ∃ printed,
    Run mainStep (fun _ _ => True) (.start blankOptions ⟨[], []⟩) threeInputs
      (.ended 0 threeState.options finalHeld finalMig printed) ∧
      finalHeld.Leaves 6 ∧ finalHeld.closed = [.file 0] := by
  obtain ⟨printed, hrun⟩ := run_three
  obtain ⟨-, -, hended, -⟩ := main_releases hrun
  exact ⟨printed, hrun, hended _ _ _ _ _ rfl⟩

end DnsTools
