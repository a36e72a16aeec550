import DnsTools.Mig.Program
import DnsTools.Mig.ValidNames
import DnsTools.Mig.Waiting
import DnsTools.Mig.WalksAgree

/-!
# From the file to the network

What a run of `main` sends, in terms of the command line: the queries for the lines of the last file
it was given, in turn and over again, as many as `-n` says, or one for each line.

## Files that are fit for it

A file is fit for this if its lines have the size of names and hold no zero byte, and if its empty
lines stand at its end. These are the conditions under which the parts of the program fit together:
what `get_domains` copies are the labels of the lines, the walk over the names finds what has been
copied, and each name is one that a DNS message can ask for. Where they are not met, the modules on
the parts say what happens; here nothing is said.

## From part to part

The options are read one by one. What they refer to at the end is what the last `-d` has loaded, and
this is what `OptionsLoaded` keeps: an option that is no `-d` leaves the names alone, and a `-d`
replaces them. Behind the options the queries are made once. The loops send them as they lie in the
buffer, so what is on the network at any moment is a first part of them (`Entered.asks`).

Nothing is assumed about the answers, the clock or the moments at which the socket is ready. That
the loops come to their end says what has been sent; whether they do is the subject of `Waiting`.

## Main results

* `optionsLoaded_of_run` — what the options refer to while they are read
* `Entered.asks` — what has been sent at any moment
* `file_to_wire` — the whole program
-/

namespace DnsTools

open Memory

/-! ### The options -/

/-- The file of the last `-d`. -/
def lastFile (opts : List GivenOption) : Option DomainFile :=
  opts.foldl (fun file i => match i with
    | .domains file _ _ => some file
    | _ => file) none

theorem lastFile_concat_domains (opts : List GivenOption) (file : DomainFile)
    (malloc malloc' : Malloc) : lastFile (opts ++ [.domains file malloc malloc']) = some file := by
  rw [lastFile, List.foldl_append]
  rfl

theorem lastFile_concat {opts : List GivenOption} {i : GivenOption}
    (hi : ∀ file malloc malloc', i ≠ .domains file malloc malloc') :
    lastFile (opts ++ [i]) = lastFile opts := by
  rw [lastFile, List.foldl_append]
  cases i with
  | domains file malloc malloc' => exact absurd rfl (hi file malloc malloc')
  | _ => rfl

theorem names_eq {names : Block} {i : GivenOption}
    (hi : ∀ file malloc malloc', i ≠ .domains file malloc malloc') : i.names names = names := by
  cases i with
  | domains file malloc malloc' => exact absurd rfl (hi file malloc malloc')
  | _ => rfl

theorem GivenOption.ne_domains {i : GivenOption} (hi : ¬i.OfFile) (file : DomainFile)
    (malloc malloc' : Malloc) : i ≠ .domains file malloc malloc' := by
  rintro rfl
  exact hi trivial

/-- What the options refer to, as long as nothing has failed. -/
def OptionsLoaded (names : Block) (opts : List GivenOption) (s : OptionsState) : Prop :=
  (lastFile opts = none ∧ s.options.domainCount = 0) ∨
    ∃ file, lastFile opts = some file ∧
      Loaded file.bytes (namesBehind names opts) s.options.domainCount

section Options

variable {options₀ : MdigOptions} {names₀ : Block} {opts : List GivenOption} {s : OptionsState}

theorem OptionsLoaded.keep {i : GivenOption} {s' : OptionsState} (h : OptionsLoaded names₀ opts s)
    (hi : ∀ file malloc malloc', i ≠ .domains file malloc malloc')
    (hcount : s'.options.domainCount = s.options.domainCount) :
    OptionsLoaded names₀ (opts ++ [i]) s' := by
  rwa [OptionsLoaded, lastFile_concat hi, namesBehind_concat, names_eq hi, hcount]

/-- Before an option fails, the names are those of the last file, and complete options have some. -/
theorem optionsLoaded_of_run (names₀ : Block)
    (hread : Run optionStep (fun _ _ => True) (.initial options₀) opts s)
    (haccepted : s.Accepted) :
    OptionsLoaded names₀ opts s ∧
      (s.result = some (.returned .ok) → 0 < s.options.domainCount) := by
  refine hread.invariant_history
    (P := fun opts s => s.Accepted → OptionsLoaded names₀ opts s ∧
      (s.result = some (.returned .ok) → 0 < s.options.domainCount))
    (fun _ => ⟨Or.inl ⟨rfl, rfl⟩, fun hok => by simp [OptionsState.initial] at hok⟩) ?_ haccepted
  intro opts s i s' _ ih _ hstep haccepted'
  have hnone := result_of_optionStep hstep
  obtain ⟨hloaded, -⟩ := ih (Or.inl hnone)
  cases optionStep_turn hstep with
  | kept hi hsame hnone' =>
    exact ⟨hloaded.keep (GivenOption.ne_domains hi) hsame.domainCount,
      fun hok => by simp [hnone'] at hok⟩
  | helped => exact ⟨hloaded.keep (by simp) rfl, fun hok => by simp at hok⟩
  | done hpos => exact ⟨hloaded.keep (by simp) rfl, fun _ => hpos⟩
  | opened => exact ⟨hloaded.keep (by simp) rfl, fun hok => by simp [hnone] at hok⟩
  | refused => exact absurd haccepted' (OptionsState.not_accepted_error _)
  | unopened => exact absurd haccepted' (OptionsState.not_accepted_error _)
  | unloaded => exact absurd haccepted' (OptionsState.not_accepted_error _)
  | @loaded file malloc malloc' options blocks hload =>
    obtain ⟨names, hnames, hfile⟩ := loadDomains_names hload
    refine ⟨Or.inr ⟨file, lastFile_concat_domains opts file malloc malloc', ?_⟩,
      fun hok => by simp [hnone] at hok⟩
    rw [namesBehind_concat, GivenOption.names, hnames]
    exact hfile

/-- Behind complete options the names of the last file lie in their block. -/
theorem loaded_of_ok (names₀ : Block)
    (hread : Run optionStep (fun _ _ => True) (.initial options₀) opts s)
    (hok : s.result = some (.returned .ok)) :
    ∃ file, lastFile opts = some file ∧
      Loaded file.bytes (namesBehind names₀ opts) s.options.domainCount := by
  obtain ⟨hloaded, hpos⟩ := optionsLoaded_of_run names₀ hread (Or.inr hok)
  exact hloaded.resolve_left fun hnone => absurd hnone.2 (Nat.ne_of_gt (hpos hok))

end Options

/-! ### What is sent -/

/-- The file can be asked about line by line. -/
structure ProperFile (content : List UInt8) : Prop where
  /-- It holds no zero byte. -/
  nonzero : 0 ∉ content
  /-- Its empty lines stand at its end. -/
  starts : withoutEmptyLines content <+: content
  /-- Its lines have the size of names. -/
  sized : ∀ line ∈ fileLines content, NameSized line

/-- A line of a proper file that has been loaded is a name that can be asked for. -/
theorem ProperFile.queryName {content : List UInt8} (h : ProperFile content) {domains : Block}
    {count : ℕ} (hloaded : Loaded content domains count) {line : List UInt8}
    (hline : line ∈ nonemptyLines content) : ∃ n : QueryName, n.labels = labelsOf line := by
  have hnames := hloaded.names_eq_iff.mpr h.starts
  have hmem : labelsOf line ∈ loadedNames content := hnames ▸ List.mem_map_of_mem hline
  have hvalid := (hloaded.forall_valid_iff.mpr h.sized (labelsOf line) hmem).1
  have hzero : ¬∃ name ∈ (nonemptyLines content).map labelsOf, ∃ z ∈ name, 0 ∈ z :=
    fun hex => h.nonzero ((zero_mem_labels content).mp hex)
  refine ⟨⟨labelsOf line, labelsOf_ne_nil line, hvalid, fun l hl b hb hb0 => ?_⟩, rfl⟩
  exact hzero ⟨labelsOf line, List.mem_map_of_mem hline, l, hl, hb0 ▸ hb⟩

/-- What has been sent asks for the lines, in turn and over again. -/
structure Asks (options : MdigOptions) (lines : List (List UInt8)) (m : Mig) : Prop where
  /-- As many queries are to be sent as the options say, or one for each line. -/
  count : m.count = if options.gotQueryNumber then options.queryNumber else lines.length
  /-- The datagrams sent are counted. -/
  sent : m.wire.length = m.messagesSent
  /-- Each is a well-formed query for the line whose turn it is. -/
  queries : ∀ i bytes, m.wire[i]? = some bytes →
    ∃ line, lines[i % lines.length]? = some line ∧
      ∃ (n : QueryName) (message : Dns.Message), n.labels = labelsOf line ∧
        Dns.message ⟨bytes, []⟩ = some (message, bytes.length) ∧
        IsQuery options.clientId i n message

/-- **What has been sent**, as long as the loops have not failed. -/
theorem Entered.asks {options₀ : MdigOptions} {names₀ : Block} {opts : List GivenOption}
    {a : SetUp} {is : List MigInput} {s : OptionsState} {m : Mig}
    (h : Entered options₀ names₀ opts a is s m) (hpoint : m.point ≠ .failed) {file : DomainFile}
    (hfile : lastFile opts = some file) (hproper : ProperFile file.bytes) :
    Asks s.options (nonemptyLines file.bytes) m := by
  obtain ⟨queries, sends, receives, pairs, hqueries, hsends, hreceives, hpairs, hrun⟩ := h.run
  obtain ⟨file', hfile', hloaded⟩ := loaded_of_ok names₀ h.read h.ok
  obtain rfl := Option.some.inj (hfile.symm.trans hfile')
  have hnames := hloaded.names_eq_iff.mpr hproper.starts
  have hcount : (nonemptyLines file.bytes).length = s.options.domainCount := by
    have hlength : s.options.domainCount = (loadedNames file.bytes).length := hloaded.count
    rw [hlength, hnames, List.length_map]
  have hpos := (optionsLoaded_of_run names₀ h.read (Or.inr h.ok)).2 h.ok
  have hagree := hloaded.walksAgree hpos hproper.nonzero hproper.starts
  obtain ⟨ws, hws, hread⟩ := readQueries_of_makeQueries hqueries
  obtain ⟨ws', hws', hholds⟩ := makeQueries_spec hqueries
  obtain rfl := Option.some.inj (hws.symm.trans hws')
  have hmessages : (queryMessages s.options.clientId 0 ws).length = s.options.count := by
    rw [length_queryMessages, length_of_nameWalk hws]
  have hbooked := mig_booked
    (Mig.booked_initial s.options.queryLimit hholds hmessages hsends hreceives hpairs) hrun
  have hwire := (hbooked.sent hpoint).2
  have hle := hbooked.sent_le
  rw [← hbooked.messages_length] at hle
  refine ⟨?_, by rw [hwire, List.length_take, Nat.min_eq_left hle], fun i bytes hbytes => ?_⟩
  · rw [← hbooked.messages_length, hmessages, MdigOptions.count, hcount]
  · have hmessage : (queryMessages s.options.clientId 0 ws)[i]? = some bytes := by
      rw [hwire, List.getElem?_take] at hbytes
      exact (Option.ite_none_right_eq_some.mp hbytes).2
    obtain ⟨line, hline, rfl⟩ := hagree.queries hqueries hread i bytes hmessage
    obtain ⟨n, hn⟩ := hproper.queryName hloaded (List.mem_of_getElem? hline)
    rw [← hn]
    exact ⟨line, hcount ▸ hline, n, _, hn, message_queryMessage s.options.clientId i n,
      isQuery_queryContents s.options.clientId i n⟩

/-! ### The whole program -/

/-- The options among the inputs. -/
def givenOptions (inputs : List MainInput) : List GivenOption :=
  inputs.filterMap fun i => match i with
    | .option i => some i
    | _ => none

/-- The system calls among them. -/
def systemCalls (inputs : List MainInput) : List MigInput :=
  inputs.filterMap fun i => match i with
    | .call i => some i
    | _ => none

theorem givenOptions_append (opts : List GivenOption) (a : SetUp) (is : List MigInput) :
    givenOptions (opts.map .option ++ .setUp a :: is.map .call) = opts := by
  simp [givenOptions, List.filterMap_map]

theorem systemCalls_append (opts : List GivenOption) (a : SetUp) (is : List MigInput) :
    systemCalls (opts.map .option ++ .setUp a :: is.map .call) = is := by
  simp [systemCalls, List.filterMap_map]

/-- The options are those given, and what has been sent asks for the lines of the last file. -/
def AsksAsGiven (options₀ : MdigOptions) (inputs : List MainInput) (options : MdigOptions)
    (m : Mig) : Prop :=
  ∃ s, Run optionStep (fun _ _ => True) (.initial options₀) (givenOptions inputs) s ∧
    s.options = options ∧
    ∃ file, lastFile (givenOptions inputs) = some file ∧
      (ProperFile file.bytes → Asks options (nonemptyLines file.bytes) m)

theorem Entered.asksAsGiven {options₀ : MdigOptions} {names₀ : Block} {opts : List GivenOption}
    {a : SetUp} {is : List MigInput} {s : OptionsState} {m : Mig}
    (h : Entered options₀ names₀ opts a is s m) (hpoint : m.point ≠ .failed) :
    AsksAsGiven options₀ (opts.map .option ++ .setUp a :: is.map .call) s.options m := by
  obtain ⟨file, hfile, -⟩ := loaded_of_ok names₀ h.read h.ok
  rw [AsksAsGiven, givenOptions_append]
  exact ⟨s, h.read, rfl, file, hfile, h.asks hpoint hfile⟩

/-- The loops end when every query is sent, and answered or given up. -/
theorem Entered.ends {options₀ : MdigOptions} {names₀ : Block} {opts : List GivenOption}
    {a : SetUp} {is : List MigInput} {s : OptionsState} {m : Mig}
    (h : Entered options₀ names₀ opts a is s m) (hpoint : m.point = .finished) :
    m.messagesSent = s.options.count ∧
      (m.messagesReceived = s.options.count ∨ idleWaits is = recvTimeout) := by
  obtain ⟨queries, sends, receives, pairs, hqueries, hsends, hreceives, hpairs, hrun⟩ := h.run
  obtain ⟨ws, hmessages, hstart⟩ :=
    mig_start s.options.queryLimit hqueries hsends hreceives hpairs
  have hbooked := mig_booked hstart hrun
  have hpatient := mig_patient hstart (Mig.patient_initial ..) hrun
  have hcount : m.count = s.options.count := hbooked.messages_length.symm.trans hmessages
  have hsecond : m.point.inSecondLoop = true := by rw [hpoint]; rfl
  have hwaits := hpatient.secondLoop hsecond
  refine ⟨hcount ▸ hbooked.fits.secondLoop hsecond, ?_⟩
  exact (hpatient.finished hpoint).imp (fun hall => hall.trans hcount) fun hnone => by omega

/-- **From the file to the network.** In every run of the program the datagrams that the loops have
sent are well-formed queries for the lines of the last file given, in turn and over again, with the
client id given, if the file is a proper one. When the program returns `0` from its loops it has
sent as many as the options say, or one for each line; every one has been answered or the last
`RECV_TIMEOUT` waits have been in vain; and it has printed its report. -/
theorem file_to_wire {options₀ : MdigOptions} {names₀ : Block} {inputs : List MainInput}
    {main : MigMain}
    (hrun : Run mainStep (fun _ _ => True) (.start options₀ names₀) inputs main) :
    (∀ options held m, main = .loops options held m → AsksAsGiven options₀ inputs options m) ∧
    (∀ options held m printed, main = .ended 0 options held m printed →
      AsksAsGiven options₀ inputs options m ∧ m.messagesSent = options.count ∧
        (m.messagesReceived = options.count ∨ idleWaits (systemCalls inputs) = recvTimeout) ∧
        m.report = some printed) := by
  have hreached := mainReached_of_run hrun
  constructor
  · rintro options held m rfl
    cases hreached with
    | loops hentered hpoint => exact hentered.asksAsGiven hpoint
  · rintro options held m printed rfl
    generalize hcode : (0 : ℤ) = code at hreached
    cases hreached with
    | failed => exact absurd hcode (by decide)
    | finished hentered hpoint htext =>
      rw [systemCalls_append]
      have hsent := hentered.ends hpoint
      exact ⟨hentered.asksAsGiven (by simp [hpoint]), hsent.1, hsent.2, htext⟩

/-! ### A run with three queries -/

/-- The loops are in one of their system calls. -/
theorem Mig.Expects.goOn {m : Mig} {i : MigInput} (h : m.Expects i) (options : MdigOptions)
    (held : Held) : MigMain.goOn options held m = some (.loops options held m) := by
  cases hpoint : m.point <;> cases i <;> simp_all [MigMain.goOn, Mig.Expects]

/-- A run of the loops is one of the program. -/
theorem run_mainStep_of_run {options : MdigOptions} {held : Held} {m m' : Mig}
    {is : List MigInput} (hrun : Run migStep (fun _ _ => True) m is m') {start main : MigMain}
    (hstart : MigMain.goOn options held m = some start)
    (hnext : MigMain.goOn options held m' = some main) :
    Run mainStep (fun _ _ => True) start (is.map .call) main := by
  induction hrun generalizing start with
  | nil s =>
    obtain rfl := Option.some.inj (hstart.symm.trans hnext)
    exact .nil start
  | @cons s next s' i is _ hstep hrest ih =>
    obtain rfl := Option.some.inj
      (hstart.symm.trans ((expects_of_migStep hstep).goOn options held))
    obtain ⟨middle, hmiddle⟩ : ∃ middle, MigMain.goOn options held next = some middle := by
      cases hrest with
      | nil => exact ⟨main, hnext⟩
      | cons _ hstep' => exact ⟨_, (expects_of_migStep hstep').goOn options held⟩
    refine .cons trivial ?_ (ih hmiddle hnext)
    rw [mainStep, hstep]
    exact hmiddle

/-- The two lines `a` and `b.c`. -/
def twoLines : List UInt8 := [97, newline, 98, dot, 99, newline]

/-- `3`. -/
def three : CString := ⟨[0x33], by decide⟩

/-- Three queries for them, and a file for the report. -/
def threeOptions : List GivenOption :=
  [.output true, .domains (.ofContents twoLines) .zeroed .zeroed, .server (some 0), .queries three,
    .done]

/-- The state they lead to. -/
def threeState : OptionsState :=
  { OptionsState.initial blankOptions with
    options :=
      { blankOptions with
        sinPort := htons 53, gotQueryNumber := true, queryNumber := 3, domainCount := 2
        domains := some 1, output := .file 0 }
    gotAddress := true
    blocks := ⟨2, [0]⟩
    opened := 1
    result := some (.returned .ok) }

/-- The block of the domains. -/
def twoDomains : Block :=
  ⟨[1, 97, 0, 1, 98, 1, 99, 0, 0, 0],
    [(8, 1), (7, 1), (6, 1), (5, 1), (4, 1), (3, 1), (2, 1), (1, 1), (0, 1)]⟩

/-- Everything succeeds, and the arrays hold what they happen to hold. -/
def fullSetUp : SetUp where
  queries := .zeroed
  sends := some fun _ => ⟨0, 0⟩
  receives := some fun _ => ⟨0, 0⟩
  pairs := some fun _ => ⟨⟨7, 0⟩, 5, ⟨0, 0⟩⟩
  socket := true
  getFlags := true
  setFlags := true
  iobuffer := true

/-- The queries are sent, and two of them are answered. -/
def threeInputs : List MainInput :=
  threeOptions.map .option ++ .setUp fullSetUp :: finalInputs.map .call

/-- What `main` holds when it returns: the domains, the queries, the arrays and the buffer for the
answers have not been released. -/
def finalHeld : Held where
  blocks := ⟨7, [0]⟩
  pointers := [5, 4, 3, 2, 1]
  sockets := ⟨1, [0]⟩
  socket := some 0
  opened := 1
  closed := [.file 0]
  output := .stdout

theorem run_ready : Run mainStep (fun _ _ => True) (.start blankOptions ⟨[], []⟩)
    (threeOptions.map .option) (.ready threeState twoDomains) :=
  .of_foldlM (by decide +kernel)

theorem setUpStep_full : mainStep (.ready threeState twoDomains) (.setUp fullSetUp) =
    some (.loops threeState.options (Held.ofOptions threeState).entered threeMig) := by
  decide +kernel

theorem run_three : ∃ printed, Run mainStep (fun _ _ => True) (.start blankOptions ⟨[], []⟩)
    threeInputs (.ended 0 threeState.options finalHeld finalMig printed) := by
  obtain ⟨printed, hreport⟩ : ∃ printed, finalMig.report = some printed :=
    Option.isSome_iff_exists.mp (by decide +kernel)
  have hnext : MigMain.goOn threeState.options (Held.ofOptions threeState).entered finalMig =
      some (.ended 0 threeState.options finalHeld finalMig printed) := by
    rw [MigMain.goOn, hreport]
    rfl
  exact ⟨printed,
    run_ready.append (.cons trivial setUpStep_full (run_mainStep_of_run run_finalMig rfl hnext))⟩

theorem properFile_twoLines : ProperFile twoLines := by
  refine ⟨by decide, by decide, ?_⟩
  have hlines : fileLines twoLines = [[97], [98, dot, 99]] := by decide
  rw [hlines, List.forall_mem_cons, List.forall_mem_singleton]
  exact ⟨by rw [NameSized]; decide, by rw [NameSized]; decide⟩

theorem file_to_wire_three :
    (∃ printed, finalMig.report = some printed) ∧ finalMig.messagesSent = 3 ∧
      Asks threeState.options [[97], [98, dot, 99]] finalMig := by
  obtain ⟨printed, hrun⟩ := run_three
  obtain ⟨⟨-, -, -, file, hfile, hasks⟩, hsent, -, hreport⟩ := (file_to_wire hrun).2 _ _ _ _ rfl
  obtain rfl : DomainFile.ofContents twoLines = file := Option.some.inj hfile
  exact ⟨⟨printed, hreport⟩, hsent, hasks properFile_twoLines⟩

end DnsTools
