import DnsTools.Mig.NumericOptions
import DnsTools.Server.Dumps

/-!
# The whole server

`get_options` and `main` of `server.c`. The options are read, stdin and the socket are set up, the
buffers and the queue are allocated, and `serve` runs. A step is an option, the setting up, or a
system call of `serve`; what the system answers is an input.

Wherever something fails, `main` releases what it has by then and returns `1`. The queue is not
among it: when the arrays for the timestamps cannot be allocated, its buffer is left.

The handler of the signal is installed only with `--output`, so without it there are no dumps. The
messages of the logger and the texts that `get_options` prints are left out.

## Main results

* `serverReached_of_run` — a run of the program is a run of `get_options`, then the setting up, then
  a run of `serve`
* `server_releases` — what the program releases
* `server_serves` — what holds while it serves
-/

namespace DnsTools

open Memory Strtoul

/-! ### The options -/

/-- `struct server_options`. -/
structure ServerOptions where
  /-- `address.sin_addr`. -/
  sinAddr : UInt32
  /-- `address.sin_port`. -/
  sinPort : UInt16
  /-- `output`. -/
  output : Option CString
deriving DecidableEq, Repr

/-- What `getopt_long` returns, with the argument of the option, or what the system makes of it. -/
inductive ServerOption
  /-- `'h'`. -/
  | help
  /-- `'a'`, with the address that `inet_aton` stores, if the argument is one. -/
  | address (address : Option UInt32)
  /-- `'p'`. -/
  | port (string : CString)
  /-- `'o'`. -/
  | output (name : CString)
  /-- `'?'`. -/
  | invalid
  /-- Any other character. -/
  | unexpected
  /-- `-1`, when there are no more options. -/
  | done
deriving DecidableEq, Repr

/-- The variables of `get_options`. -/
structure ServerOptionsState where
  /-- `*server_options`. -/
  options : ServerOptions
  /-- `got_address`. -/
  gotAddress : Bool
  /-- The return value, once there is one. -/
  result : Option GetOptionsResult
deriving DecidableEq, Repr

/-- The state in front of the loop, for whatever `address.sin_addr` holds. -/
def ServerOptionsState.initial (sinAddr : UInt32) : ServerOptionsState where
  options := { sinAddr, sinPort := htons 53, output := none }
  gotAddress := false
  result := none

/-- `get_options` returns. -/
def ServerOptionsState.leave (s : ServerOptionsState) (result : GetOptionsResult) :
    ServerOptionsState := { s with result := some result }

/-- One turn of the loop of `get_options`; the last one includes what is behind it. -/
def serverOptionStep (s : ServerOptionsState) (i : ServerOption) : Option ServerOptionsState :=
  if s.result.isSome then none
  else match i with
    | .help => some (s.leave .help)
    | .address none => some (s.leave .error)
    | .address (some sinAddr) =>
      some { s with options := { s.options with sinAddr }, gotAddress := true }
    | .port string =>
      let (r, sinPort) := getPortValue string s.options.sinPort
      if r ≠ 0 then some (s.leave .error)
      else some { s with options := { s.options with sinPort := htons sinPort } }
    | .output name => some { s with options := { s.options with output := some name } }
    | .invalid => some (s.leave .error)
    | .unexpected => some (s.leave .error)
    | .done => some (s.leave (if s.gotAddress = false then .error else .ok))

/-! ### What `main` holds -/

/-- `SEND_QUEUE_SIZE`. -/
def sendQueueSize : ℕ := 100 * 1024 * 1024

/-- The blocks and the socket of `main`. A socket has a number like a block. -/
structure ServerHeld where
  /-- The blocks allocated and released. -/
  blocks : Ledger
  /-- `recv_buffer`. -/
  recvBuffer : Option ℕ
  /-- `send_buffer`. -/
  sendBuffer : Option ℕ
  /-- `queue.buffer`. -/
  queue : Option ℕ
  /-- `receives`. -/
  receives : Option ℕ
  /-- `sends`. -/
  sends : Option ℕ
  /-- The sockets opened and closed. -/
  sockets : Ledger
  /-- `s`. -/
  socket : Option ℕ
deriving DecidableEq, Repr

namespace ServerHeld

/-- Nothing yet. -/
def empty : ServerHeld := ⟨⟨0, []⟩, none, none, none, none, none, ⟨0, []⟩, none⟩

/-- The socket. -/
def openSocket (h : ServerHeld) : ServerHeld :=
  { h with sockets := h.sockets.malloc.2, socket := some h.sockets.malloc.1 }

/-- `recv_buffer`. -/
def mallocRecvBuffer (h : ServerHeld) : ServerHeld :=
  { h with blocks := h.blocks.malloc.2, recvBuffer := some h.blocks.malloc.1 }

/-- `send_buffer`. -/
def mallocSendBuffer (h : ServerHeld) : ServerHeld :=
  { h with blocks := h.blocks.malloc.2, sendBuffer := some h.blocks.malloc.1 }

/-- `queue.buffer`, in `make_message_queue`. -/
def mallocQueue (h : ServerHeld) : ServerHeld :=
  { h with blocks := h.blocks.malloc.2, queue := some h.blocks.malloc.1 }

/-- `receives`. -/
def mallocReceives (h : ServerHeld) : ServerHeld :=
  { h with blocks := h.blocks.malloc.2, receives := some h.blocks.malloc.1 }

/-- `sends`. -/
def mallocSends (h : ServerHeld) : ServerHeld :=
  { h with blocks := h.blocks.malloc.2, sends := some h.blocks.malloc.1 }

/-- What `main` does before it returns `1`. -/
def giveUp (h : ServerHeld) : ServerHeld :=
  { h with
    blocks := h.blocks.frees [h.receives, h.sendBuffer, h.recvBuffer]
    sockets := h.sockets.free h.socket }

/-- What it does before it returns `0` behind `serve`. -/
def finish (h : ServerHeld) : ServerHeld :=
  { h with
    blocks := h.blocks.frees [h.sends, h.receives, h.queue, h.sendBuffer, h.recvBuffer]
    sockets := h.sockets.free h.socket }

end ServerHeld

/-! ### The steps -/

/-- What the system answers between the options and `serve`. -/
structure ServerSetUp where
  /-- `fcntl` gives the flags of stdin. -/
  getStdinFlags : Bool
  /-- `fcntl` sets them. -/
  setStdinFlags : Bool
  /-- `socket` succeeds. -/
  socket : Bool
  /-- `fcntl` gives the flags of the socket. -/
  getFlags : Bool
  /-- `fcntl` sets them. -/
  setFlags : Bool
  /-- `bind` succeeds. -/
  bind : Bool
  /-- The allocation of `recv_buffer`. -/
  recvBuffer : Malloc
  /-- That of `send_buffer`. -/
  sendBuffer : Malloc
  /-- That of `make_message_queue`. -/
  queue : Malloc
  /-- `receives` is allocated. -/
  receives : Bool
  /-- `sends` is allocated. -/
  sends : Bool

/-- What an input is about. -/
inductive ServerInput
  /-- The next option. -/
  | option (i : ServerOption)
  /-- What lies between the options and `serve`. -/
  | setUp (a : ServerSetUp)
  /-- A system call of `serve`. -/
  | call (i : SystemResult)

/-- Where `main` is. -/
inductive ServerMain
  /-- In `get_options`. -/
  | options (s : ServerOptionsState)
  /-- Behind it. -/
  | ready (s : ServerOptionsState)
  /-- In `serve`. -/
  | serving (options : ServerOptions) (held : ServerHeld) (server : DumpingServer)
  /-- `main` has returned without serving. -/
  | stopped (code : ℤ) (held : ServerHeld)
  /-- `serve` has returned, and `main` has returned `0`. -/
  | ended (options : ServerOptions) (held : ServerHeld) (server : DumpingServer)
deriving DecidableEq, Repr

/-- The server where `serve` makes its first system call. There are arrays for the timestamps if
there is a file for them. -/
def DumpingServer.start (output : Option CString) (recvBuffer sendBuffer : Block)
    (queue : MessageQueue) : DumpingServer where
  server := .initial recvBuffer sendBuffer queue (output.map fun _ => []) (output.map fun _ => [])
  file := none
  dumps := []

/-- `main` from the arrays for the timestamps to the call of `serve`. -/
def allocateTimestamps (options : ServerOptions) (held : ServerHeld) (server : DumpingServer)
    (a : ServerSetUp) : ServerMain :=
  if options.output = none then .serving options held server
  else if a.receives = false then .stopped 1 held.giveUp
  else
    let held := held.mallocReceives
    if a.sends = false then .stopped 1 held.giveUp
    else .serving options held.mallocSends server

/-- `main` from its buffers to the call of `serve`. -/
def allocateBuffers (options : ServerOptions) (held : ServerHeld) (a : ServerSetUp) : ServerMain :=
  match a.recvBuffer.alloc receiveBufferSize with
  | none => .stopped 1 held.giveUp
  | some recvBuffer =>
    let held := held.mallocRecvBuffer
    match a.sendBuffer.alloc sendBufferSize with
    | none => .stopped 1 held.giveUp
    | some sendBuffer =>
      let held := held.mallocSendBuffer
      match makeMessageQueue a.queue sendQueueSize with
      | none => .stopped 1 held.giveUp
      | some queue =>
        allocateTimestamps options held.mallocQueue
          (.start options.output recvBuffer sendBuffer queue) a

/-- `main` from the return of `get_options` to the call of `serve`. -/
def serverSetUpStep (options : ServerOptions) (a : ServerSetUp) : ServerMain :=
  if a.getStdinFlags = false then .stopped 1 .empty
  else if a.setStdinFlags = false then .stopped 1 .empty
  else if a.socket = false then .stopped 1 .empty
  else
    let held := ServerHeld.empty.openSocket
    if a.getFlags = false then .stopped 1 held.giveUp
    else if a.setFlags = false then .stopped 1 held.giveUp
    else if a.bind = false then .stopped 1 held.giveUp
    else allocateBuffers options held a

/-- One step of `main`. -/
def serverMainStep : ServerMain → ServerInput → Option ServerMain
  | .options s, .option i => do
    let s ← serverOptionStep s i
    match s.result with
    | none => return .options s
    | some .ok => return .ready s
    | some .help => return .stopped 0 .empty
    | some .error => return .stopped 1 .empty
  | .ready s, .setUp a => some (serverSetUpStep s.options a)
  | .serving options held server, .call i => do
    -- the handler is installed only with `--output`
    if i.Signalled ∧ options.output = none then none
    let server ← dumpingStep server i
    if server.server.point = .returned then return .ended options held.finish server
    else return .serving options held server
  | _, _ => none

/-- The start, for whatever the options hold. -/
def ServerMain.start (sinAddr : UInt32) : ServerMain := .options (.initial sinAddr)

/-! ### The options given -/

/-- The address of a `-a`. -/
def ServerOption.addressGiven : ServerOption → Option UInt32
  | .address given => given
  | _ => none

/-- The number of a `-p`. -/
def ServerOption.portGiven : ServerOption → Option UInt16
  | .port string => some (UInt16.ofNat (strtoul 10 string.chars).value)
  | _ => none

/-- The file of a `-o`. -/
def ServerOption.outputGiven : ServerOption → Option CString
  | .output name => some name
  | _ => none

/-- The last option of each kind counts. -/
structure ServerOptionsState.Given (opts : List ServerOption) (s : ServerOptionsState) : Prop where
  /-- The address. -/
  address : (opts.filterMap ServerOption.addressGiven).getLast? =
    if s.gotAddress then some s.options.sinAddr else none
  /-- The port, in the order of the network. -/
  port : s.options.sinPort = htons ((opts.filterMap ServerOption.portGiven).getLast?.getD 53)
  /-- The file for the timestamps. -/
  output : s.options.output = (opts.filterMap ServerOption.outputGiven).getLast?

section Options

variable {s s' : ServerOptionsState} {i : ServerOption} {opts : List ServerOption}

theorem result_of_serverOptionStep (h : serverOptionStep s i = some s') : s.result = none := by
  rw [serverOptionStep.eq_def] at h
  split at h
  · cases h
  · rename_i hresult
    exact Option.not_isSome_iff_eq_none.mp hresult

/-- The last of the values behind one more option. -/
theorem getLast?_filterMap_concat {α β : Type*} (f : α → Option β) (xs : List α) (x : α) :
    ((xs ++ [x]).filterMap f).getLast? = (f x).or (xs.filterMap f).getLast? := by
  rw [List.filterMap_append]
  cases hx : f x with
  | none => rw [List.filterMap_cons_none hx, List.filterMap_nil, List.append_nil, Option.none_or]
  | some y =>
    rw [List.filterMap_cons_some hx, List.filterMap_nil, List.getLast?_concat, Option.some_or]

/-- Everything a turn of `get_options` can do. -/
inductive ServerOptionTurn (s : ServerOptionsState) : ServerOption → ServerOptionsState → Prop
  /-- It returns without the options. -/
  | left {i : ServerOption} {result : GetOptionsResult} (hresult : result ≠ .ok) :
      ServerOptionTurn s i (s.leave result)
  /-- The options are complete. -/
  | done (haddress : s.gotAddress = true) : ServerOptionTurn s .done (s.leave .ok)
  /-- An address is stored. -/
  | address (sinAddr : UInt32) : ServerOptionTurn s (.address (some sinAddr))
      { s with options := { s.options with sinAddr }, gotAddress := true }
  /-- A port is stored. -/
  | port (string : CString) (hzero : (getPortValue string s.options.sinPort).1 = 0) :
      ServerOptionTurn s (.port string)
        { s with options :=
          { s.options with sinPort := htons (getPortValue string s.options.sinPort).2 } }
  /-- A file is stored. -/
  | output (name : CString) : ServerOptionTurn s (.output name)
      { s with options := { s.options with output := some name } }

theorem serverOptionStep_turn (h : serverOptionStep s i = some s') : ServerOptionTurn s i s' := by
  have hrunning : ¬s.result.isSome = true := by simp [result_of_serverOptionStep h]
  rw [serverOptionStep.eq_def, if_neg hrunning] at h
  cases i with
  | help =>
    obtain rfl := Option.some.inj h
    exact .left (by decide)
  | address address =>
    cases address with
    | none =>
      obtain rfl := Option.some.inj h
      exact .left (by decide)
    | some sinAddr =>
      obtain rfl := Option.some.inj h
      exact .address sinAddr
  | port string =>
    dsimp only at h
    by_cases hzero : (getPortValue string s.options.sinPort).1 ≠ 0
    · rw [if_pos hzero] at h
      obtain rfl := Option.some.inj h
      exact .left (by decide)
    · rw [if_neg hzero] at h
      obtain rfl := Option.some.inj h
      exact .port string (not_not.mp hzero)
  | output name =>
    obtain rfl := Option.some.inj h
    exact .output name
  | invalid =>
    obtain rfl := Option.some.inj h
    exact .left (by decide)
  | unexpected =>
    obtain rfl := Option.some.inj h
    exact .left (by decide)
  | done =>
    obtain rfl := Option.some.inj h
    cases haddress : s.gotAddress with
    | false => exact .left (by decide)
    | true => exact .done haddress

/-- An option is kept, or `get_options` returns; it returns `GOR_OK` only with an address. -/
theorem ServerOptionsState.Given.step (h : s.Given opts) (hstep : serverOptionStep s i = some s')
    (hresult : s'.result = none ∨ s'.result = some .ok) :
    s'.Given (opts ++ [i]) ∧ (s'.result = some .ok → s'.gotAddress = true) := by
  have hrunning := result_of_serverOptionStep hstep
  obtain ⟨haddress, hport, houtput⟩ := h
  cases serverOptionStep_turn hstep with
  | left hne =>
    rcases hresult with hresult | hresult
    · cases hresult
    · exact absurd (Option.some.inj hresult) hne
  | done hgot =>
    refine ⟨?_, fun _ => hgot⟩
    constructor <;> rw [getLast?_filterMap_concat]
    · exact haddress
    · exact hport
    · exact houtput
  | address sinAddr =>
    refine ⟨?_, fun _ => rfl⟩
    constructor <;> rw [getLast?_filterMap_concat]
    · rfl
    · exact hport
    · exact houtput
  | port string hzero =>
    refine ⟨?_, fun hok => nomatch hrunning.symm.trans hok⟩
    constructor <;> rw [getLast?_filterMap_concat]
    · exact haddress
    · exact congrArg htons (getPortValue_stored hzero)
    · exact houtput
  | output name =>
    refine ⟨?_, fun hok => nomatch hrunning.symm.trans hok⟩
    constructor <;> rw [getLast?_filterMap_concat]
    · exact haddress
    · exact hport
    · rfl

/-- **What `get_options` returns.** -/
theorem given_of_run {sinAddr : UInt32}
    (hread : Run serverOptionStep (fun _ _ => True) (.initial sinAddr) opts s)
    (hresult : s.result = none ∨ s.result = some .ok) :
    s.Given opts ∧ (s.result = some .ok → s.gotAddress = true) := by
  refine hread.invariant_history (P := fun opts s => (s.result = none ∨ s.result = some .ok) →
    s.Given opts ∧ (s.result = some .ok → s.gotAddress = true)) ?_ ?_ hresult
  · intro _
    exact ⟨⟨rfl, rfl, rfl⟩, fun hok => nomatch hok⟩
  · intro opts s i s' _ ih _ hstep hresult
    exact (ih (.inl (result_of_serverOptionStep hstep))).1.step hstep hresult

end Options

/-! ### Setting up -/

/-- Every block has been released once, but for those kept, and every socket once. -/
structure ServerHeld.Released (kept : List ℕ) (h : ServerHeld) : Prop where
  /-- The blocks. -/
  blocks : (h.blocks.released ++ kept).Perm (List.range h.blocks.allocated)
  /-- The sockets. -/
  sockets : h.sockets.released = List.range h.sockets.allocated

/-- What `main` holds in `serve`. -/
def ServerHeld.served (output : Option CString) : ServerHeld :=
  let held := ServerHeld.empty.openSocket.mallocRecvBuffer.mallocSendBuffer.mallocQueue
  if output = none then held else held.mallocReceives.mallocSends

/-- Everything succeeds until an array for the timestamps cannot be allocated. -/
structure ServerSetUp.LacksTimestamps (a : ServerSetUp) : Prop where
  /-- Stdin has been set up, -/
  stdin : a.getStdinFlags = true ∧ a.setStdinFlags = true
  /-- the socket too, -/
  socket : a.socket = true ∧ a.getFlags = true ∧ a.setFlags = true ∧ a.bind = true
  /-- and there are buffers -/
  buffers : a.recvBuffer.alloc receiveBufferSize ≠ none ∧ a.sendBuffer.alloc sendBufferSize ≠ none
  /-- and a queue. -/
  queue : makeMessageQueue a.queue sendQueueSize ≠ none
  /-- `receives` or `sends` is missing. -/
  arrays : a.receives = false ∨ a.sends = false

/-- Everything between the options and `serve`. -/
inductive ServerSetUpOutcome (options : ServerOptions) (a : ServerSetUp) : ServerMain → Prop
  /-- Something has failed; the queue is left exactly if it is an array for the timestamps. -/
  | stopped {held : ServerHeld} (hreleased : held.Released held.queue.toList)
      (hqueue : held.queue ≠ none ↔ options.output ≠ none ∧ a.LacksTimestamps) :
      ServerSetUpOutcome options a (.stopped 1 held)
  /-- `serve` is called. -/
  | serving {recvBuffer sendBuffer : Block} {queue : MessageQueue}
      (hrecv : recvBuffer.size = receiveBufferSize) (hsend : sendBuffer.size = sendBufferSize)
      (hqueue : makeMessageQueue a.queue sendQueueSize = some queue) :
      ServerSetUpOutcome options a
        (.serving options (.served options.output)
          (.start options.output recvBuffer sendBuffer queue))

theorem allocateTimestamps_outcome (options : ServerOptions) (a : ServerSetUp)
    {recvBuffer sendBuffer : Block} {queue : MessageQueue}
    (hrecv : recvBuffer.size = receiveBufferSize) (hsend : sendBuffer.size = sendBufferSize)
    (hqueue : makeMessageQueue a.queue sendQueueSize = some queue)
    (hlacks : a.receives = false ∨ a.sends = false → a.LacksTimestamps) :
    ServerSetUpOutcome options a (allocateTimestamps options
      ServerHeld.empty.openSocket.mallocRecvBuffer.mallocSendBuffer.mallocQueue
      (.start options.output recvBuffer sendBuffer queue) a) := by
  have hserving : ServerSetUpOutcome options a _ := .serving hrecv hsend hqueue
  rw [ServerHeld.served] at hserving
  rw [allocateTimestamps]
  by_cases houtput : options.output = none
  · rw [if_pos houtput] at hserving ⊢
    exact hserving
  rw [if_neg houtput] at hserving ⊢
  split_ifs with hreceives hsends
  · exact .stopped ⟨by decide, rfl⟩
      (iff_of_true (Option.some_ne_none _) ⟨houtput, hlacks (.inl hreceives)⟩)
  · exact .stopped ⟨by decide, rfl⟩
      (iff_of_true (Option.some_ne_none _) ⟨houtput, hlacks (.inr hsends)⟩)
  · exact hserving

theorem serverSetUpStep_outcome (options : ServerOptions) (a : ServerSetUp) :
    ServerSetUpOutcome options a (serverSetUpStep options a) := by
  -- in front of the queue there is nothing to leave
  have hnone {held : ServerHeld} (hreleased : held.Released []) (hqueue : held.queue = none)
      (hlacks : ¬a.LacksTimestamps) : ServerSetUpOutcome options a (.stopped 1 held) :=
    .stopped (hqueue ▸ hreleased) (iff_of_false (not_not.mpr hqueue) fun h => hlacks h.2)
  rw [serverSetUpStep]
  split_ifs with hgetStdin hsetStdin hsocket hget hset hbind
  · exact hnone ⟨by decide, rfl⟩ rfl fun h => Bool.false_ne_true (hgetStdin.symm.trans h.stdin.1)
  · exact hnone ⟨by decide, rfl⟩ rfl fun h => Bool.false_ne_true (hsetStdin.symm.trans h.stdin.2)
  · exact hnone ⟨by decide, rfl⟩ rfl fun h => Bool.false_ne_true (hsocket.symm.trans h.socket.1)
  · exact hnone ⟨by decide, rfl⟩ rfl fun h => Bool.false_ne_true (hget.symm.trans h.socket.2.1)
  · exact hnone ⟨by decide, rfl⟩ rfl fun h => Bool.false_ne_true (hset.symm.trans h.socket.2.2.1)
  · exact hnone ⟨by decide, rfl⟩ rfl fun h => Bool.false_ne_true (hbind.symm.trans h.socket.2.2.2)
  rw [allocateBuffers]
  cases hrecv : a.recvBuffer.alloc receiveBufferSize with
  | none => exact hnone ⟨by decide, rfl⟩ rfl fun h => h.buffers.1 hrecv
  | some recvBuffer =>
    cases hsend : a.sendBuffer.alloc sendBufferSize with
    | none => exact hnone ⟨by decide, rfl⟩ rfl fun h => h.buffers.2 hsend
    | some sendBuffer =>
      cases hqueue : makeMessageQueue a.queue sendQueueSize with
      | none => exact hnone ⟨by decide, rfl⟩ rfl fun h => h.queue hqueue
      | some queue =>
        refine allocateTimestamps_outcome options a (a.recvBuffer.size_alloc hrecv)
          (a.sendBuffer.size_alloc hsend) hqueue fun harrays => ?_
        rw [Bool.not_eq_false] at hgetStdin hsetStdin hsocket hget hset hbind
        exact ⟨⟨hgetStdin, hsetStdin⟩, ⟨hsocket, hget, hset, hbind⟩,
          ⟨by rw [hrecv]; exact Option.some_ne_none _, by rw [hsend]; exact Option.some_ne_none _⟩,
          by rw [hqueue]; exact Option.some_ne_none _, harrays⟩

/-! ### Runs -/

/-- A system call of `serve`. -/
theorem serverMainStep_call {options : ServerOptions} {held : ServerHeld} {server : DumpingServer}
    {i : SystemResult} {main : ServerMain}
    (h : serverMainStep (.serving options held server) (.call i) = some main) :
    (i.Signalled → options.output ≠ none) ∧ ∃ server', dumpingStep server i = some server' ∧
      (server'.server.point = .returned ∧ main = .ended options held.finish server' ∨
        server'.server.point ≠ .returned ∧ main = .serving options held server') := by
  rw [serverMainStep] at h
  by_cases hdeaf : i.Signalled ∧ options.output = none
  · rw [if_pos hdeaf] at h
    cases h
  rw [if_neg hdeaf] at h
  obtain ⟨server', hcall, h⟩ := Option.bind_eq_some_iff.mp h
  refine ⟨fun hsignalled hnone => hdeaf ⟨hsignalled, hnone⟩, server', hcall, ?_⟩
  by_cases hpoint : server'.server.point = .returned
  · rw [if_pos hpoint] at h
    exact .inl ⟨hpoint, (Option.some.inj h).symm⟩
  · rw [if_neg hpoint] at h
    exact .inr ⟨hpoint, (Option.some.inj h).symm⟩

/-- As long as `serve` does not return, its run is one of `main`. -/
theorem run_serving_of_run {options : ServerOptions} {held : ServerHeld}
    {server server' : DumpingServer} {is : List SystemResult}
    (hrun : Run dumpingStep (fun _ i => i.Signalled → options.output ≠ none) server is server')
    (hpoint : server'.server.point ≠ .returned) :
    Run serverMainStep (fun _ _ => True) (.serving options held server) (is.map .call)
      (.serving options held server') := by
  induction hrun with
  | nil server => exact .nil _
  | @cons server next server' i is hsignal hstep hrest ih =>
    -- either this is the last state, or it makes another step
    have hnext : next.server.point ≠ .returned := by
      cases hrest with
      | nil => exact hpoint
      | cons _ hstep' _ => exact point_of_serveStep (dumpingStep_eq hstep').1
    have hdeaf : ¬(i.Signalled ∧ options.output = none) := fun h => hsignal h.1 h.2
    refine .cons trivial ?_ (ih hpoint)
    rw [serverMainStep, if_neg hdeaf, hstep]
    exact if_neg hnext

/-- `serve` has been called with these options and blocks, and made system calls since. -/
structure Served (sinAddr : UInt32) (opts : List ServerOption) (a : ServerSetUp)
    (is : List SystemResult) (options : ServerOptions) (server : DumpingServer) : Prop where
  /-- The options have been read. -/
  read : ∃ s, Run serverOptionStep (fun _ _ => True) (.initial sinAddr) opts s ∧
    s.result = some .ok ∧ s.options = options
  /-- `serve` has run so far; without a file there has been no dump. -/
  run : ∃ recvBuffer sendBuffer queue, recvBuffer.size = receiveBufferSize ∧
    sendBuffer.size = sendBufferSize ∧ makeMessageQueue a.queue sendQueueSize = some queue ∧
    Run dumpingStep (fun _ i => i.Signalled → options.output ≠ none)
      (.start options.output recvBuffer sendBuffer queue) is server

/-- Where a run of `main` can have got, and how. -/
inductive ServerReached (sinAddr : UInt32) : List ServerInput → ServerMain → Prop
  /-- The options are being read. -/
  | options {opts : List ServerOption} {s : ServerOptionsState}
      (hread : Run serverOptionStep (fun _ _ => True) (.initial sinAddr) opts s)
      (hresult : s.result = none) : ServerReached sinAddr (opts.map .option) (.options s)
  /-- They have been read. -/
  | ready {opts : List ServerOption} {s : ServerOptionsState}
      (hread : Run serverOptionStep (fun _ _ => True) (.initial sinAddr) opts s)
      (hresult : s.result = some .ok) : ServerReached sinAddr (opts.map .option) (.ready s)
  /-- Help has been asked for, or they are not right. -/
  | left {opts : List ServerOption} {code : ℤ} :
      ServerReached sinAddr (opts.map .option) (.stopped code .empty)
  /-- Something has failed in front of `serve`. -/
  | stopped {opts : List ServerOption} {s : ServerOptionsState} {a : ServerSetUp}
      {held : ServerHeld} (hread : Run serverOptionStep (fun _ _ => True) (.initial sinAddr) opts s)
      (hresult : s.result = some .ok)
      (hsetUp : ServerSetUpOutcome s.options a (.stopped 1 held)) :
      ServerReached sinAddr (opts.map .option ++ [.setUp a]) (.stopped 1 held)
  /-- `serve` runs. -/
  | serving {opts : List ServerOption} {a : ServerSetUp} {is : List SystemResult}
      {options : ServerOptions} {server : DumpingServer}
      (hserved : Served sinAddr opts a is options server)
      (hpoint : server.server.point ≠ .returned) :
      ServerReached sinAddr (opts.map .option ++ .setUp a :: is.map .call)
        (.serving options (.served options.output) server)
  /-- It has returned. -/
  | ended {opts : List ServerOption} {a : ServerSetUp} {is : List SystemResult}
      {options : ServerOptions} {server : DumpingServer}
      (hserved : Served sinAddr opts a is options server)
      (hpoint : server.server.point = .returned) :
      ServerReached sinAddr (opts.map .option ++ .setUp a :: is.map .call)
        (.ended options (ServerHeld.served options.output).finish server)

section Runs

variable {sinAddr : UInt32} {inputs : List ServerInput} {main main' : ServerMain} {i : ServerInput}

theorem ServerReached.step (h : ServerReached sinAddr inputs main)
    (hstep : serverMainStep main i = some main') :
    ServerReached sinAddr (inputs ++ [i]) main' := by
  cases h with
  | @options opts s hread hresult =>
    cases i with
    | setUp a => cases hstep
    | call i => cases hstep
    | option i =>
      obtain ⟨s', hoption, hnext⟩ := Option.bind_eq_some_iff.mp hstep
      have hread' := hread.append (.single trivial hoption)
      have hmap : opts.map ServerInput.option ++ [.option i] =
          (opts ++ [i]).map ServerInput.option := by rw [List.map_append, List.map_singleton]
      rw [hmap]
      cases hresult' : s'.result with
      | none =>
        rw [hresult'] at hnext
        obtain rfl := Option.some.inj hnext
        exact .options hread' hresult'
      | some result =>
        rw [hresult'] at hnext
        cases result with
        | ok =>
          obtain rfl := Option.some.inj hnext
          exact .ready hread' hresult'
        | help =>
          obtain rfl := Option.some.inj hnext
          exact .left
        | error =>
          obtain rfl := Option.some.inj hnext
          exact .left
  | @ready opts s hread hresult =>
    cases i with
    | option i => cases hstep
    | call i => cases hstep
    | setUp a =>
      have houtcome := serverSetUpStep_outcome s.options a
      rw [Option.some.inj hstep] at houtcome
      cases houtcome with
      | stopped hreleased hqueue => exact .stopped hread hresult (.stopped hreleased hqueue)
      | @serving recvBuffer sendBuffer queue hrecv hsend hqueue =>
        have hserved : Served sinAddr opts a [] s.options
            (.start s.options.output recvBuffer sendBuffer queue) :=
          ⟨⟨s, hread, hresult, rfl⟩, recvBuffer, sendBuffer, queue, hrecv, hsend, hqueue, .nil _⟩
        exact .serving hserved nofun
  | left => cases hstep
  | stopped => cases hstep
  | @serving opts a is options server hserved hpoint =>
    cases i with
    | option i => cases hstep
    | setUp a => cases hstep
    | call i =>
      obtain ⟨hsignal, server', hcall, hnext⟩ := serverMainStep_call hstep
      obtain ⟨hread, recvBuffer, sendBuffer, queue, hrecv, hsend, hqueue, hrun⟩ := hserved
      have hserved' : Served sinAddr opts a (is ++ [i]) options server' :=
        ⟨hread, recvBuffer, sendBuffer, queue, hrecv, hsend, hqueue,
          hrun.append (.single hsignal hcall)⟩
      have hinputs : opts.map ServerInput.option ++ .setUp a :: is.map .call ++ [.call i] =
          opts.map ServerInput.option ++ .setUp a :: (is ++ [i]).map .call := by simp
      rw [hinputs]
      rcases hnext with ⟨hpoint', rfl⟩ | ⟨hpoint', rfl⟩
      · exact .ended hserved' hpoint'
      · exact .serving hserved' hpoint'
  | ended => cases hstep

/-- **The runs of `main`.** -/
theorem serverReached_of_run
    (hrun : Run serverMainStep (fun _ _ => True) (.start sinAddr) inputs main) :
    ServerReached sinAddr inputs main :=
  hrun.invariant_history (ServerReached.options (.nil _) rfl) fun _ _ _ _ _ h _ hstep =>
    h.step hstep

/-- The buffer of the queue is left: a file has been given for the timestamps, and everything
succeeds but the allocation of their arrays. -/
def QueueLeft (inputs : List ServerInput) : Prop :=
  ∃ (opts : List ServerOption) (a : ServerSetUp), inputs = opts.map .option ++ [.setUp a] ∧
    (opts.filterMap ServerOption.outputGiven).getLast? ≠ none ∧ a.LacksTimestamps

/-- **What the server releases.** While it serves it has released nothing. When `main` returns every
socket and every block has been released once, but for the buffer of the queue exactly where the
arrays for the timestamps cannot be allocated. -/
theorem server_releases
    (hrun : Run serverMainStep (fun _ _ => True) (.start sinAddr) inputs main) :
    (∀ options held server, main = .serving options held server →
      held.blocks.released = [] ∧ held.sockets = ⟨1, []⟩ ∧
        held.blocks.allocated = if options.output = none then 3 else 5) ∧
    (∀ code held, main = .stopped code held → held.Released held.queue.toList ∧
      (held.queue ≠ none ↔ QueueLeft inputs)) ∧
    (∀ options held server, main = .ended options held server → held.Released []) := by
  have hreached := serverReached_of_run hrun
  refine ⟨?_, ?_, ?_⟩
  · rintro options held server rfl
    cases hreached with
    | serving =>
      rw [ServerHeld.served]
      split_ifs <;> exact ⟨rfl, rfl, rfl⟩
  · rintro code held rfl
    cases hreached with
    | @left opts =>
      refine ⟨⟨by decide, rfl⟩, iff_of_false (not_not.mpr rfl) ?_⟩
      rintro ⟨opts', a, hinputs, -⟩
      have hmem : ServerInput.setUp a ∈ opts.map ServerInput.option :=
        hinputs ▸ List.mem_append_right _ (List.mem_singleton_self _)
      obtain ⟨opt, -, hopt⟩ := List.mem_map.mp hmem
      cases hopt
    | @stopped opts s a held hread hresult hsetUp =>
      have houtput := (given_of_run hread (.inr hresult)).1.output
      cases hsetUp with
      | stopped hreleased hqueue =>
        refine ⟨hreleased, hqueue.trans ⟨fun ⟨hsome, hlacks⟩ => ?_, ?_⟩⟩
        · exact ⟨opts, a, rfl, houtput ▸ hsome, hlacks⟩
        · rintro ⟨opts', a', hinputs, hsome, hlacks⟩
          obtain ⟨hopts, ha⟩ := List.append_inj' hinputs rfl
          obtain rfl : opts = opts' :=
            List.map_injective_iff.mpr (fun _ _ h => ServerInput.option.inj h) hopts
          obtain rfl : a = a' := ServerInput.setUp.inj (List.singleton_inj.mp ha)
          exact ⟨houtput ▸ hsome, hlacks⟩
  · rintro options held server rfl
    cases hreached with
    | ended =>
      rw [ServerHeld.served]
      split_ifs <;> exact ⟨by decide, rfl⟩

/-! ### What holds while the server serves -/

/-- The options of a list of inputs. -/
def serverOptionsOf (inputs : List ServerInput) : List ServerOption :=
  inputs.filterMap fun
    | .option i => some i
    | _ => none

/-- The system calls of `serve` in a list of inputs. -/
def callsOf (inputs : List ServerInput) : List SystemResult :=
  inputs.filterMap fun
    | .call i => some i
    | _ => none

/-- Nothing has been recorded or dumped. -/
structure DumpingServer.Unstamped (server : DumpingServer) : Prop where
  /-- `receives` is `NULL`. -/
  receives : server.server.receives = none
  /-- So is `sends`. -/
  sends : server.server.sends = none
  /-- There has been no dump. -/
  dumps : server.dumps = []
  /-- There is no file. -/
  file : server.file = none

/-- What holds while the server serves. -/
structure ServerMain.Serves (inputs : List ServerInput) (options : ServerOptions)
    (server : DumpingServer) : Prop where
  /-- The address is the last one given. -/
  address : ((serverOptionsOf inputs).filterMap ServerOption.addressGiven).getLast? =
    some options.sinAddr
  /-- The port is the last one given, or 53. -/
  port : options.sinPort =
    htons (((serverOptionsOf inputs).filterMap ServerOption.portGiven).getLast?.getD 53)
  /-- The file for the timestamps is the last one given, if there is one. -/
  output : options.output =
    ((serverOptionsOf inputs).filterMap ServerOption.outputGiven).getLast?
  /-- What has been sent, and then what is in the queue, are the answers to the datagrams that came
  in, in their order. -/
  answers : ∃ contents, Represents server.server.queue contents ∧
    (datagrams (callsOf inputs)).map Datagram.reply = (server.server.sent ++ contents).map some
  /-- With `--output` there are timestamps. -/
  stamped : options.output ≠ none →
    server.Stamped ((callsOf inputs).flatMap SystemResult.readings)
  /-- Without it there are none, and no file. -/
  unstamped : options.output = none → server.Unstamped

section Calls

variable {output : Option CString} {recvBuffer sendBuffer : Block} {queue : MessageQueue}
  {is : List SystemResult} {server : DumpingServer}

/-- As long as `serve` runs, the datagrams on record are those that came in. -/
theorem queued_of_run {env : DumpingServer → SystemResult → Prop}
    (hrun : Run dumpingStep env (.start output recvBuffer sendBuffer queue) is server)
    (hpoint : server.server.point ≠ .returned) : server.server.queued = datagrams is := by
  refine hrun.invariant_history (P := fun is server => server.server.point ≠ .returned →
    server.server.queued = datagrams is) (fun _ => rfl) ?_ hpoint
  intro is s i s' _ ih _ hstep hpoint
  have hqueued := ih (point_of_serveStep (dumpingStep_eq hstep).1)
  rw [datagrams_append_singleton, ← hqueued]
  cases dumpingStep_stamps hstep with
  | kept hdatagram _ _ hsame => rw [hsame.queued, hdatagram, Option.toList_none, List.append_nil]
  | dumped hsignalled _ _ hsame =>
    obtain ⟨r, rfl⟩ := hsignalled
    exact hsame.queued.trans (List.append_nil _).symm
  | received d clock hdatagram _ _ _ _ _ hqueued' =>
    rw [hqueued', hdatagram, Option.toList_some]
  | sent e clock hdatagram _ _ _ _ _ hqueued' =>
    rw [hqueued', hdatagram, Option.toList_none, List.append_nil]
  | failed hreturned => exact absurd hreturned hpoint

/-- The data are in order. -/
theorem kept_of_run {env : DumpingServer → SystemResult → Prop} {malloc : Malloc} {size : ℕ}
    (hrecv : recvBuffer.size = receiveBufferSize) (hsend : sendBuffer.size = sendBufferSize)
    (hqueue : makeMessageQueue malloc size = some queue)
    (hrun : Run dumpingStep env (.start output recvBuffer sendBuffer queue) is server) :
    server.server.Kept :=
  hrun.invariant (P := fun s => s.server.Kept)
    (fun _ _ _ h _ hstep => serveStep_kept h (dumpingStep_eq hstep).1)
    (.inl ⟨[], Server.inOrder_initial hrecv hsend hqueue _ _⟩)

/-- Without a file there are no arrays, and no signal is caught. -/
theorem unstamped_of_run
    (hrun : Run dumpingStep (fun _ i => ¬i.Signalled)
      (.start none recvBuffer sendBuffer queue) is server) : server.Unstamped := by
  refine hrun.invariant ?_ ⟨rfl, rfl, rfl, rfl⟩
  intro s i s' h hquiet hstep
  cases dumpingStep_stamps hstep with
  | kept _ hfile hdumps hsame =>
    exact ⟨hsame.receives.trans h.receives, hsame.sends.trans h.sends, hdumps.trans h.dumps,
      hfile.trans h.file⟩
  | dumped hsignalled =>
    obtain ⟨r, rfl⟩ := hsignalled
    exact absurd nofun hquiet
  | received d clock _ _ hfile hdumps hreceives hsends =>
    rw [h.receives] at hreceives
    exact ⟨(Option.some.inj hreceives).symm, hsends.trans h.sends, hdumps.trans h.dumps,
      hfile.trans h.file⟩
  | sent e clock _ _ hfile hdumps hreceives hsends =>
    rw [h.sends] at hsends
    exact ⟨hreceives.trans h.receives, (Option.some.inj hsends).symm, hdumps.trans h.dumps,
      hfile.trans h.file⟩
  | failed _ hfile hdumps hreceives hsends =>
    exact ⟨hreceives.trans h.receives, hsends.trans h.sends, hdumps.trans h.dumps,
      hfile.trans h.file⟩

end Calls

theorem serverOptionsOf_append (opts : List ServerOption) (a : ServerSetUp)
    (is : List SystemResult) :
    serverOptionsOf (opts.map .option ++ .setUp a :: is.map .call) = opts := by
  simp [serverOptionsOf, List.filterMap_map]

theorem callsOf_append (opts : List ServerOption) (a : ServerSetUp) (is : List SystemResult) :
    callsOf (opts.map .option ++ .setUp a :: is.map .call) = is := by
  simp [callsOf, List.filterMap_map]

/-- **What holds while the server serves.** It is bound to the last address and port given, and the
last file given is that for the timestamps; what it has sent and what is in its queue are the
answers to the datagrams that came in, in their order; and with `--output`, and only then, there are
timestamps. -/
theorem server_serves {options : ServerOptions} {held : ServerHeld} {server : DumpingServer}
    (hrun : Run serverMainStep (fun _ _ => True) (.start sinAddr) inputs
      (.serving options held server)) : ServerMain.Serves inputs options server := by
  cases serverReached_of_run hrun with
  | @serving opts a is options server hserved hpoint =>
    obtain ⟨⟨s, hread, hresult, rfl⟩, recvBuffer, sendBuffer, queue, hrecv, hsend, hqueue,
      hcalls⟩ := hserved
    obtain ⟨hgiven, hgot⟩ := given_of_run hread (.inr hresult)
    have hopts := serverOptionsOf_append opts a is
    have hcallsOf := callsOf_append opts a is
    constructor
    case address => rw [hopts, hgiven.address, if_pos (hgot hresult)]
    case port =>
      rw [hopts]
      exact hgiven.port
    case output =>
      rw [hopts]
      exact hgiven.output
    case answers =>
      rw [hcallsOf, ← queued_of_run hcalls hpoint]
      obtain ⟨contents, h⟩ | hreturned := kept_of_run hrecv hsend hqueue hcalls
      · exact ⟨contents, h.queue, h.order⟩
      · exact absurd hreturned hpoint
    case stamped =>
      intro houtput
      rw [hcallsOf]
      obtain ⟨name, hname⟩ := Option.ne_none_iff_exists'.mp houtput
      rw [hname] at hcalls
      exact stamped_of_run hrecv hsend hqueue (hcalls.mono fun _ _ _ => trivial)
    case unstamped =>
      intro houtput
      rw [houtput] at hcalls
      exact unstamped_of_run (hcalls.mono fun _ _ hquiet hsignalled => hquiet hsignalled rfl)

end Runs

/-! ### Two runs -/

/-- A server on the local address, with a file for its timestamps. -/
def localInputs : List ServerInput :=
  [.option (.address (some 0x0100007f)), .option (.output ⟨[0x74], by decide⟩), .option .done]

/-- Everything succeeds. -/
def readySetUp : ServerSetUp :=
  { getStdinFlags := true, setStdinFlags := true, socket := true, getFlags := true, setFlags := true
    bind := true, recvBuffer := .zeroed, sendBuffer := .zeroed, queue := .zeroed, receives := true
    sends := true }

/-- An array for the timestamps cannot be allocated. -/
def failedInputs : List ServerInput := localInputs ++ [.setUp { readySetUp with receives := false }]

theorem server_releases_failed : ∃ held,
    Run serverMainStep (fun _ _ => True) (.start 0) failedInputs (.stopped 1 held) ∧
      held.Released held.queue.toList ∧ held.queue = some 2 ∧ QueueLeft failedInputs := by
  have hrun : Run serverMainStep (fun _ _ => True) (.start 0) failedInputs _ := .of_foldlM rfl
  obtain ⟨hreleased, hleft⟩ := (server_releases hrun).2.1 _ _ rfl
  exact ⟨_, hrun, hreleased, rfl, hleft.mp (Option.some_ne_none _)⟩

/-- The file of its timestamps. -/
def localOutput : Option CString := some ⟨[0x74], by decide⟩

/-- Its options. -/
def localOptions : ServerOptions := ⟨0x0100007f, htons 53, localOutput⟩

/-- It in front of its first system call. -/
def localServer : DumpingServer :=
  .start localOutput freshServer.recvBuffer freshServer.sendBuffer
    ⟨sendQueueSize, ⟨List.replicate sendQueueSize 0, []⟩, 0, 0⟩

theorem run_localServer :
    Run serverMainStep (fun _ _ => True) (.start 0) (localInputs ++ [.setUp readySetUp])
      (.serving localOptions (.served localOutput) localServer) :=
  .of_foldlM rfl

/-- Three datagrams come in, an answer is sent, and then the timestamps are dumped. -/
theorem server_serves_signalled : ∃ server,
    Run serverMainStep (fun _ _ => True) (.start 0)
        (localInputs ++ [.setUp readySetUp] ++ signalledInputs.map .call)
        (.serving localOptions (.served localOutput) server) ∧
      server.server.queued = threeDatagrams ∧ server.server.sent = threeReplies.take 1 ∧
      ServerMain.Serves (localInputs ++ [.setUp readySetUp] ++ signalledInputs.map .call)
        localOptions server := by
  obtain ⟨server, hserved, -, hqueued, hsent, hpoint⟩ := exists_run_signalled
    size_recvBuffer_freshServer size_sendBuffer_freshServer
    (show makeMessageQueue .zeroed sendQueueSize = some localServer.server.queue from rfl)
    (by decide)
  have hcalls : Run dumpingStep (fun _ i => i.Signalled → localOptions.output ≠ none) localServer
      signalledInputs server := hserved.mono fun _ _ _ _ => Option.some_ne_none _
  have hrun := run_localServer.append (run_serving_of_run hcalls (by simp [hpoint]))
  exact ⟨server, hrun, hqueued, hsent, server_serves hrun⟩

end DnsTools
