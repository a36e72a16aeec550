import DnsTools.Mig.Report
import DnsTools.Server.Wakeups

/-!
# The timestamps of the server

With `--output` the server takes a timestamp behind every datagram whose answer it has queued and
behind every answer it has sent, up to `TIMESTAMPS_MAXLENGTH` of each. A signal makes it write them
to the file and start anew, so the timestamps of a run come in windows: those of the dumps, and the
one that is not dumped yet. A dump replaces the one before it in the file.

`DumpingServer` is `serve` with this file. `Stamped` says what the timestamps of all windows tell
about the datagrams and the answers of the run, and `stamped_of_run` that it holds at every moment.

## What a window may lack

A full array takes no more timestamps, and nothing tells that some are missing: the later ones of
the window are gone. So as long as no array is full there is one timestamp for each datagram and for
each answer, and in general they are a part of the times that the clock has shown, in its order.
When `serve` fails behind a datagram, the timestamp of that datagram is missing as well.

## The order

The k-th timestamp of an answer is not before the k-th one of a datagram. The answers are sent in
the order of the datagrams (`ServeOrder`), so an answer has the number of its datagram; but the two
are counted over all windows, and a datagram and its answer are in different windows if a signal
came in between. This is why the statement is about `receives` and `sends` of all windows, and not
about a dump.

## What is assumed

Nothing of the datagrams, the network or the moments of the signals. A file that cannot be opened
ends `serve`. The order assumes that the clock does not go back.

The loops that print the timestamps have the shape of those that print the report of mig, and are
the ones of `Report`.

## Main results

* `dumpingStep_stamps` — what a step does to the timestamps
* `run_dumpingStep_of_quiet` — without a signal a run is one of `serve`
* `stamped_of_run` — what the timestamps of all windows tell of a run
-/

namespace DnsTools

/-- The timestamps of a window. -/
structure Dump where
  /-- `receives`. -/
  receives : List Timespec
  /-- `sends`. -/
  sends : List Timespec
deriving DecidableEq, Repr

/-- What `dump_timestamps` writes. -/
def Dump.text (dump : Dump) : Option (List Char) := do
  let receives ← printEntries (fun i => (dump.receives[i]?).map printTime) dump.receives.length
  let sends ← printEntries (fun i => (dump.sends[i]?).map printTime) dump.sends.length
  return "\x7b\"receives\":\n\t[".toList ++ receives ++ "],\n \"sends\":\n\t[".toList ++ sends ++
    "]\n\x7d\n".toList

/-- The window that is not dumped yet. -/
def Server.window (s : Server) : Dump := ⟨s.receives.getD [], s.sends.getD []⟩

/-- The server with the file of `--output`. -/
structure DumpingServer where
  /-- The variables of `serve`. -/
  server : Server
  /-- What the file contains, once something has been dumped. -/
  file : Option (List Char)
  /-- History: the windows dumped. -/
  dumps : List Dump
deriving DecidableEq, Repr

/-- A signal has asked for a dump. -/
def SystemResult.Signalled : SystemResult → Prop
  | .select dump _ => dump ≠ none
  | _ => False

instance : DecidablePred SystemResult.Signalled
  | .select dump _ => inferInstanceAs (Decidable (dump ≠ none))
  | .recvfrom _ => isFalse id
  | .fread _ _ => isFalse id
  | .sendto _ => isFalse id

/-- One system call of `serve`, with the dump in front of it. -/
def dumpingStep (s : DumpingServer) (i : SystemResult) : Option DumpingServer := do
  let server ← serveStep s.server i
  match i with
  | .select (some true) _ =>
    return { server, file := s.server.window.text, dumps := s.dumps ++ [s.server.window] }
  | _ => return { s with server }

/-- The server with an empty file, where `serve` makes its first system call. -/
def DumpingServer.initial (recvBuffer sendBuffer : Memory.Block) (queue : MessageQueue) :
    DumpingServer :=
  { server := .initial recvBuffer sendBuffer queue (some []) (some []), file := none, dumps := [] }

/-- The times that the clock has shown behind a call. -/
def SystemResult.readings : SystemResult → List Timespec
  | .recvfrom (.datagram _ clock) => clock.toList
  | .sendto (.returned _ clock) => clock.toList
  | _ => []

/-! ### What a step does to the timestamps

Most of `serve` does not touch them: waiting, reading from stdin and the turns of its loops without
a datagram. `SameStamps` is for all of this; what is left are a datagram, an answer and a dump. -/

variable {s s' t : Server} {i : SystemResult}

/-- The timestamps are the same, and so is what they stand for. -/
structure Server.SameStamps (s s' : Server) : Prop where
  /-- `receives`. -/
  receives : s'.receives = s.receives
  /-- `sends`. -/
  sends : s'.sends = s.sends
  /-- The datagrams. -/
  queued : s'.queued = s.queued
  /-- The answers. -/
  sent : s'.sent = s.sent

namespace Server.SameStamps

theorem trans (h : s.SameStamps t) (h' : t.SameStamps s') : s.SameStamps s' :=
  ⟨h'.receives.trans h.receives, h'.sends.trans h.sends, h'.queued.trans h.queued,
    h'.sent.trans h.sent⟩

theorem afterSending (s : Server) : s.SameStamps s.afterSending := by
  rw [Server.afterSending]
  split <;> exact ⟨rfl, rfl, rfl, rfl⟩

theorem continueSending (s : Server) : s.SameStamps s.continueSending := by
  rw [Server.continueSending]
  split
  · exact afterSending s
  · exact ⟨rfl, rfl, rfl, rfl⟩

theorem startSending (s : Server) : s.SameStamps s.startSending := by
  rw [Server.startSending]
  split
  · split
    · exact continueSending s
    · exact ⟨rfl, rfl, rfl, rfl⟩
  · exact ⟨rfl, rfl, rfl, rfl⟩

theorem startReading (s : Server) : s.SameStamps s.startReading := by
  rw [Server.startReading]
  split
  · exact ⟨rfl, rfl, rfl, rfl⟩
  · exact (⟨rfl, rfl, rfl, rfl⟩ : s.SameStamps { s with readStdin := true }).trans
      (startSending _)

theorem startReceiving (s : Server) : s.SameStamps s.startReceiving := by
  rw [Server.startReceiving]
  split
  · exact ⟨rfl, rfl, rfl, rfl⟩
  · exact (⟨rfl, rfl, rfl, rfl⟩ : s.SameStamps { s with readSocket := true }).trans
      (startReading _)

theorem prepareSelect (s : Server) : s.SameStamps s.prepareSelect := by
  rw [Server.prepareSelect]
  split <;> exact ⟨rfl, rfl, rfl, rfl⟩

theorem afterSelect (s : Server) (r : SelectResult) : s.SameStamps (s.afterSelect r) := by
  cases r with
  | ready socket stdin write =>
    refine trans ?_ (startReceiving _)
    exact ⟨rfl, rfl, rfl, rfl⟩
  | _ => exact ⟨rfl, rfl, rfl, rfl⟩

end Server.SameStamps

/-- A turn of `recv_all` after which the loop goes on. -/
theorem recvAll_again {r : RecvResult} (h : recvAll s r = some (t, .again)) :
    ∃ d clock receives, r = .datagram d clock ∧
      recordTimestamp s.receives clock = some receives ∧ t.receives = receives ∧
      t.sends = s.sends ∧ t.queued = s.queued ++ [d] ∧ t.sent = s.sent := by
  cases r with
  | again => cases h
  | failed => cases h
  | datagram d clock =>
    obtain ⟨recvBuffer, -, h⟩ := Option.bind_eq_some_iff.mp h
    obtain ⟨answer, -, h⟩ := Option.bind_eq_some_iff.mp h
    cases answer with
    | none => cases h
    | some p =>
      obtain ⟨message, -, h⟩ := Option.bind_eq_some_iff.mp h
      obtain ⟨⟨r, queue⟩, -, h⟩ := Option.bind_eq_some_iff.mp h
      dsimp only at h
      split at h
      · cases h
      · cases hrecord : recordTimestamp s.receives clock with
        | none =>
          rw [hrecord] at h
          cases h
        | some receives =>
          rw [hrecord] at h
          cases h
          exact ⟨d, clock, receives, rfl, hrecord, rfl, rfl, rfl, rfl⟩

/-- The turn with which it is done. -/
theorem recvAll_done {r : RecvResult} (h : recvAll s r = some (t, .done)) : r = .again ∧ t = s := by
  cases r with
  | again => exact ⟨rfl, (Prod.mk.inj (Option.some.inj h)).1.symm⟩
  | failed => cases h
  | datagram d clock =>
    obtain ⟨recvBuffer, -, h⟩ := Option.bind_eq_some_iff.mp h
    obtain ⟨answer, -, h⟩ := Option.bind_eq_some_iff.mp h
    cases answer with
    | none => cases h
    | some p =>
      obtain ⟨message, -, h⟩ := Option.bind_eq_some_iff.mp h
      obtain ⟨⟨r, queue⟩, -, h⟩ := Option.bind_eq_some_iff.mp h
      dsimp only at h
      split at h
      · cases h
      · split at h <;> cases h

/-- A turn of `send_all` after which the loop goes on. -/
theorem sendAll_again {r : SendResult} (h : sendAll s r = some (t, .again)) :
    ∃ n clock sends e, r = .returned n clock ∧ recordTimestamp s.sends clock = some sends ∧
      t.sends = sends ∧ t.receives = s.receives ∧ t.queued = s.queued ∧ t.sent = s.sent ++ [e] := by
  obtain ⟨got, -, h⟩ := Option.bind_eq_some_iff.mp h
  cases got with
  | none => cases h
  | some got =>
    obtain ⟨e, -, h⟩ := Option.bind_eq_some_iff.mp h
    cases r with
    | again => cases h
    | failed => cases h
    | returned n clock =>
      dsimp only at h
      split at h
      · cases h
      · cases hrecord : recordTimestamp s.sends clock with
        | none =>
          rw [hrecord] at h
          cases h
        | some sends =>
          rw [hrecord] at h
          cases h
          exact ⟨n, clock, sends, _, rfl, hrecord, rfl, rfl, rfl, rfl⟩

/-- The turn with which it is done. -/
theorem sendAll_done {r : SendResult} (h : sendAll s r = some (t, .done)) : t = s := by
  obtain ⟨got, -, h⟩ := Option.bind_eq_some_iff.mp h
  cases got with
  | none => cases h
  | some got =>
    obtain ⟨e, -, h⟩ := Option.bind_eq_some_iff.mp h
    cases r with
    | again => exact (Prod.mk.inj (Option.some.inj h)).1.symm
    | failed => cases h
    | returned n clock =>
      dsimp only at h
      split at h
      · cases h
      · split at h <;> cases h

/-- A turn that fails takes no timestamp. -/
theorem recvAll_failed {r : RecvResult} (h : recvAll s r = some (t, .failed)) :
    t.receives = s.receives ∧ t.sends = s.sends := by
  cases r with
  | again => cases h
  | failed =>
    cases h
    exact ⟨rfl, rfl⟩
  | datagram d clock =>
    obtain ⟨recvBuffer, -, h⟩ := Option.bind_eq_some_iff.mp h
    obtain ⟨answer, -, h⟩ := Option.bind_eq_some_iff.mp h
    cases answer with
    | none =>
      cases h
      exact ⟨rfl, rfl⟩
    | some p =>
      obtain ⟨message, -, h⟩ := Option.bind_eq_some_iff.mp h
      obtain ⟨⟨r, queue⟩, -, h⟩ := Option.bind_eq_some_iff.mp h
      dsimp only at h
      split at h
      · cases h
        exact ⟨rfl, rfl⟩
      · split at h <;> cases h
        exact ⟨rfl, rfl⟩

theorem sendAll_failed {r : SendResult} (h : sendAll s r = some (t, .failed)) :
    t.receives = s.receives ∧ t.sends = s.sends := by
  obtain ⟨got, -, h⟩ := Option.bind_eq_some_iff.mp h
  cases got with
  | none =>
    cases h
    exact ⟨rfl, rfl⟩
  | some got =>
    obtain ⟨e, -, h⟩ := Option.bind_eq_some_iff.mp h
    cases r with
    | again => cases h
    | failed =>
      cases h
      exact ⟨rfl, rfl⟩
    | returned n clock =>
      dsimp only at h
      split at h
      · cases h
        exact ⟨rfl, rfl⟩
      · split at h <;> cases h
        exact ⟨rfl, rfl⟩

/-- What a step does to the timestamps. -/
inductive StampStep (s : DumpingServer) (i : SystemResult) (s' : DumpingServer) : Prop
  /-- Nothing. -/
  | kept (hdatagram : i.datagram = none) (hfile : s'.file = s.file) (hdumps : s'.dumps = s.dumps)
      (hsame : s.server.SameStamps s'.server)
  /-- They are dumped, and start anew. -/
  | dumped (hsignalled : ∃ r, i = .select (some true) r) (hfile : s'.file = s.server.window.text)
      (hdumps : s'.dumps = s.dumps ++ [s.server.window])
      (hsame : ({ s.server with
        receives := s.server.receives.map fun _ => []
        sends := s.server.sends.map fun _ => [] } : Server).SameStamps s'.server)
  /-- The answer to a datagram is queued, and the clock is read. -/
  | received (d : Datagram) (clock : Option Timespec) (hdatagram : i.datagram = some d)
      (hreadings : i.readings = clock.toList) (hfile : s'.file = s.file)
      (hdumps : s'.dumps = s.dumps)
      (hreceives : recordTimestamp s.server.receives clock = some s'.server.receives)
      (hsends : s'.server.sends = s.server.sends)
      (hqueued : s'.server.queued = s.server.queued ++ [d])
      (hsent : s'.server.sent = s.server.sent)
  /-- An answer is sent, and the clock is read. -/
  | sent (e : Entry) (clock : Option Timespec) (hdatagram : i.datagram = none)
      (hreadings : i.readings = clock.toList) (hfile : s'.file = s.file)
      (hdumps : s'.dumps = s.dumps)
      (hreceives : s'.server.receives = s.server.receives)
      (hsends : recordTimestamp s.server.sends clock = some s'.server.sends)
      (hqueued : s'.server.queued = s.server.queued)
      (hsent : s'.server.sent = s.server.sent ++ [e])
  /-- `recv_all` or `send_all` fails. -/
  | failed (hreturned : s'.server.point = .returned) (hfile : s'.file = s.file)
      (hdumps : s'.dumps = s.dumps) (hreceives : s'.server.receives = s.server.receives)
      (hsends : s'.server.sends = s.server.sends)

/-- What the file contains afterwards, and which windows have been dumped. -/
theorem dumpingStep_eq {s s' : DumpingServer} (h : dumpingStep s i = some s') :
    serveStep s.server i = some s'.server ∧
      ((∃ r, i = .select (some true) r) ∧ s'.file = s.server.window.text ∧
          s'.dumps = s.dumps ++ [s.server.window] ∨
        (∀ r, i ≠ .select (some true) r) ∧ s'.file = s.file ∧ s'.dumps = s.dumps) := by
  obtain ⟨server, hserver, h⟩ := Option.bind_eq_some_iff.mp h
  split at h
  · cases h
    exact ⟨hserver, .inl ⟨⟨_, rfl⟩, rfl, rfl⟩⟩
  · rename_i hother
    cases h
    exact ⟨hserver, .inr ⟨hother, rfl, rfl⟩⟩

/-- **What a step does.** One case for each place where `serve` may be, and its outcome. -/
theorem dumpingStep_stamps {s s' : DumpingServer} (h : dumpingStep s i = some s') :
    StampStep s i s' := by
  obtain ⟨hserver, hdump⟩ := dumpingStep_eq h
  generalize hs' : s'.server = t at hserver
  have hkept : (∀ r, i ≠ .select (some true) r) → s'.file = s.file ∧ s'.dumps = s.dumps := by
    intro hother
    rcases hdump with ⟨⟨r, hi⟩, -⟩ | ⟨-, hfile, hdumps⟩
    · exact absurd hi (hother r)
    · exact ⟨hfile, hdumps⟩
  cases serveStep_outcome hserver with
  | @dumpFailed dump r hpoint hnone =>
    -- the file cannot be opened, so it is as it was
    obtain rfl : dump = some false := by
      rcases dump with _ | _ | _
      · cases hnone
      · rfl
      · cases hnone
    obtain ⟨hfile, hdumps⟩ := hkept (by simp)
    exact .kept rfl hfile hdumps (hs' ▸ ⟨rfl, rfl, rfl, rfl⟩)
  | @selected dump r t hpoint hsome =>
    -- with or without a signal, the set-up of `pselect` and its outcome take no timestamp
    have hsame := (Server.SameStamps.prepareSelect t).trans (.afterSelect _ r)
    rcases dump with _ | _ | _
    · obtain ⟨hfile, hdumps⟩ := hkept (by simp)
      cases hsome
      exact .kept rfl hfile hdumps (hs' ▸ hsame)
    · cases hsome
    · obtain ⟨-, hfile, hdumps⟩ | ⟨hother, -⟩ := hdump
      · cases hsome
        exact .dumped ⟨r, rfl⟩ hfile hdumps (hs' ▸ hsame)
      · exact absurd rfl (hother r)
  | receiving hpoint hrecv =>
    obtain ⟨hfile, hdumps⟩ := hkept (by simp)
    obtain ⟨d, clock, receives, rfl, hrecord, rfl, hsends, hqueued, hsent⟩ := recvAll_again hrecv
    rw [← hs'] at hrecord hsends hqueued hsent
    exact .received d clock rfl rfl hfile hdumps hrecord hsends hqueued hsent
  | received hpoint hrecv =>
    obtain ⟨hfile, hdumps⟩ := hkept (by simp)
    obtain ⟨rfl, rfl⟩ := recvAll_done hrecv
    exact .kept rfl hfile hdumps (hs' ▸ .startReading _)
  | receiveFailed hpoint hrecv =>
    obtain ⟨hfile, hdumps⟩ := hkept (by simp)
    obtain ⟨hreceives, hsends⟩ := recvAll_failed hrecv
    exact .failed (by rw [hs']; rfl) hfile hdumps (by rw [hs']; exact hreceives)
      (by rw [hs']; exact hsends)
  | stopped hpoint hcode =>
    obtain ⟨hfile, hdumps⟩ := hkept (by simp)
    exact .kept rfl hfile hdumps (hs' ▸ ⟨rfl, rfl, rfl, rfl⟩)
  | read hpoint hcode =>
    obtain ⟨hfile, hdumps⟩ := hkept (by simp)
    exact .kept rfl hfile hdumps (hs' ▸ .startSending _)
  | @sending r t hpoint hsend =>
    obtain ⟨hfile, hdumps⟩ := hkept (by simp)
    obtain ⟨n, clock, sends, e, rfl, hrecord, rfl, hreceives, hqueued, hsent⟩ :=
      sendAll_again hsend
    obtain ⟨hsameReceives, hsameSends, hsameQueued, hsameSent⟩ :=
      Server.SameStamps.continueSending t
    rw [← hs'] at hsameReceives hsameSends hsameQueued hsameSent
    refine .sent e clock rfl rfl hfile hdumps (hsameReceives.trans hreceives) ?_
      (hsameQueued.trans hqueued) (hsameSent.trans hsent)
    rw [hsameSends, hrecord]
  | sent hpoint hsend =>
    obtain ⟨hfile, hdumps⟩ := hkept (by simp)
    obtain rfl := sendAll_done hsend
    exact .kept rfl hfile hdumps (hs' ▸ .afterSending _)
  | sendFailed hpoint hsend =>
    obtain ⟨hfile, hdumps⟩ := hkept (by simp)
    obtain ⟨hreceives, hsends⟩ := sendAll_failed hsend
    exact .failed (by rw [hs']; rfl) hfile hdumps (by rw [hs']; exact hreceives)
      (by rw [hs']; exact hsends)

/-! ### Without and with a signal

A signal only adds a dump, so every run of `serve` without one is a run here, with the file as it
was. -/

/-- Without a signal a step is that of `serve`. -/
theorem dumpingStep_of_quiet {s : DumpingServer} (hquiet : ¬i.Signalled)
    (h : serveStep s.server i = some t) : dumpingStep s i = some { s with server := t } := by
  rw [dumpingStep, h]
  cases i with
  | select dump r =>
    obtain rfl : dump = none := not_not.mp hquiet
    rfl
  | _ => rfl

theorem run_dumpingStep_of_quiet {is : List SystemResult} {s : DumpingServer}
    {env : Server → SystemResult → Prop} (hquiet : ∀ i ∈ is, ¬i.Signalled)
    (h : Run serveStep env s.server is t) :
    Run dumpingStep (fun _ _ => True) s is { s with server := t } := by
  induction is generalizing s with
  | nil =>
    cases h
    exact .nil s
  | cons i is ih =>
    cases h with
    | cons _ hstep hrest =>
      exact .cons trivial (dumpingStep_of_quiet (hquiet i List.mem_cons_self) hstep)
        (ih (fun j hj => hquiet j (List.mem_cons_of_mem i hj)) hrest)

/-- Datagrams that come in and answers that are sent are no signals. -/
theorem not_signalled_of_mem_traffic {ds : List Datagram} {es : List Entry} {now : Timespec}
    (h : i ∈ traffic ds es now) : ¬i.Signalled := by
  simp only [traffic, receiving, sending, List.mem_append, List.mem_cons, List.mem_map,
    List.not_mem_nil, or_false] at h
  rcases h with (((rfl | ⟨d, -, rfl⟩) | rfl | rfl) | ⟨e, -, rfl⟩) | rfl <;>
    simp [SystemResult.Signalled]

/-- Behind a signal the timestamps are dumped, and the server waits on. -/
theorem exists_dumpingStep_signalled {s : DumpingServer} (hpoint : s.server.point = .selecting) :
    ∃ server, dumpingStep s (.select (some true) .timeout) =
        some { server, file := s.server.window.text, dumps := s.dumps ++ [s.server.window] } ∧
      server.point = .selecting ∧ server.queued = s.server.queued ∧
      server.sent = s.server.sent := by
  have hserver : serveStep s.server (.select (some true) .timeout) = some
      (({ s.server with
          receives := s.server.receives.map fun _ => []
          sends := s.server.sends.map fun _ => [] } : Server).prepareSelect.afterSelect
        .timeout) := by
    simp only [serveStep, hpoint, Server.dumpTimestamps]
  refine ⟨_, by rw [dumpingStep, hserver]; rfl, ?_⟩
  rw [Server.prepareSelect]
  split_ifs
  · exact ⟨hpoint, rfl, rfl⟩
  · exact ⟨hpoint, rfl, rfl⟩

/-! ### What the timestamps of all windows tell

The invariant is about lists that are joined over all windows, of which a step changes the last one
only: it gets a timestamp more (`Grown`), or it is dumped and an empty one takes its place. -/

/-- With room in the array the time is put behind the others, without it is dropped. -/
theorem recordTimestamp_some {stamps : List Timespec} {clock : Option Timespec}
    {after : Option (List Timespec)} (h : recordTimestamp (some stamps) clock = some after) :
    (∃ now, clock = some now ∧ stamps.length < timestampsMaxlength ∧
        after = some (stamps ++ [now])) ∨
      timestampsMaxlength ≤ stamps.length ∧ after = some stamps := by
  rw [recordTimestamp] at h
  split at h
  · rename_i hroom
    obtain ⟨now, hclock, hafter⟩ := Option.map_eq_some_iff.mp h
    exact .inl ⟨now, hclock, hroom, hafter.symm⟩
  · rename_i hfull
    exact .inr ⟨by omega, (Option.some.inj h).symm⟩

namespace DumpingServer

variable {s s' : DumpingServer} {readings more : List Timespec}

/-- All windows, from the first dump to the one that is not dumped yet. -/
def windows (s : DumpingServer) : List Dump := s.dumps ++ [s.server.window]

/-- The timestamps of the datagrams, of all windows. -/
def receives (s : DumpingServer) : List Timespec := s.windows.flatMap Dump.receives

/-- The timestamps of the answers, of all windows. -/
def sends (s : DumpingServer) : List Timespec := s.windows.flatMap Dump.sends

/-- No array has become full. -/
def NotFull (s : DumpingServer) : Prop :=
  ∀ w ∈ s.windows, w.receives.length < timestampsMaxlength ∧
    w.sends.length < timestampsMaxlength

theorem receives_eq (s : DumpingServer) :
    s.receives = s.dumps.flatMap Dump.receives ++ s.server.window.receives := by
  simp [receives, windows]

theorem sends_eq (s : DumpingServer) :
    s.sends = s.dumps.flatMap Dump.sends ++ s.server.window.sends := by
  simp [sends, windows]

/-- What holds of the timestamps, with the times that the clock has shown. -/
structure Stamped (s : DumpingServer) (readings : List Timespec) : Prop where
  /-- There are arrays. -/
  arrays : ∃ receives sends, s.server.receives = some receives ∧ s.server.sends = some sends
  /-- They have room for every window. -/
  room : ∀ w ∈ s.windows, w.receives.length ≤ timestampsMaxlength ∧
    w.sends.length ≤ timestampsMaxlength
  /-- The timestamps of the datagrams are times of the clock, in the order of the clock. -/
  receives : s.receives.Sublist readings
  /-- So are those of the answers. -/
  sends : s.sends.Sublist readings
  /-- There is one for each datagram answered and one for each answer sent. -/
  counts : s.NotFull → s.server.point ≠ .returned →
    s.receives.length = s.server.queued.length ∧ s.sends.length = s.server.sent.length
  /-- No answer is sent before its datagram has come. -/
  order : s.NotFull → readings.Pairwise (fun t u => t.nsec ≤ u.nsec) →
    ∀ (k : ℕ) (r w : Timespec), s.receives[k]? = some r → s.sends[k]? = some w → r.nsec ≤ w.nsec
  /-- The file contains the last dump. -/
  file : s.file = s.dumps.getLast?.bind Dump.text

/-- One window with nothing in it, and no file. -/
theorem stamped_initial (recvBuffer sendBuffer : Memory.Block) (queue : MessageQueue) :
    (initial recvBuffer sendBuffer queue).Stamped [] where
  arrays := ⟨[], [], rfl, rfl⟩
  room := by
    intro w hw
    obtain rfl := List.mem_singleton.mp hw
    exact ⟨Nat.zero_le _, Nat.zero_le _⟩
  receives := List.nil_sublist _
  sends := List.nil_sublist _
  counts := fun _ _ => ⟨rfl, rfl⟩
  order := by
    intro _ _ k r w hr
    cases hr
  file := rfl

theorem window_mem (s : DumpingServer) : s.server.window ∈ s.windows :=
  List.mem_append_right _ (List.mem_singleton_self _)

/-- The last window has grown, and the others are the same. -/
structure Grown (s s' : DumpingServer) (newReceives newSends : List Timespec) : Prop where
  /-- The windows dumped. -/
  dumps : s'.dumps = s.dumps
  /-- The timestamps of the datagrams. -/
  receives : s'.server.window.receives = s.server.window.receives ++ newReceives
  /-- Those of the answers. -/
  sends : s'.server.window.sends = s.server.window.sends ++ newSends

variable {newReceives newSends : List Timespec}

/-- What is put behind the last window is put behind all of them. -/
theorem Grown.receives_eq (h : s.Grown s' newReceives newSends) :
    s'.receives = s.receives ++ newReceives := by
  rw [DumpingServer.receives_eq, DumpingServer.receives_eq, h.dumps, h.receives, List.append_assoc]

theorem Grown.sends_eq (h : s.Grown s' newReceives newSends) :
    s'.sends = s.sends ++ newSends := by
  rw [DumpingServer.sends_eq, DumpingServer.sends_eq, h.dumps, h.sends, List.append_assoc]

/-- The other windows are those of before. -/
theorem Grown.windows (h : s.Grown s' newReceives newSends) {w : Dump} (hw : w ∈ s'.windows) :
    w ∈ s.windows ∨ w = s'.server.window := by
  rcases List.mem_append.mp hw with hw | hw
  · exact .inl (List.mem_append_left _ (h.dumps ▸ hw))
  · exact .inr (List.mem_singleton.mp hw)

/-- An array that is not full was not full before. -/
theorem Grown.notFull (h : s.Grown s' newReceives newSends) (hfull : s'.NotFull) : s.NotFull := by
  intro w hw
  rcases List.mem_append.mp hw with hw | hw
  · exact hfull w (List.mem_append_left _ (h.dumps ▸ hw))
  · obtain rfl := List.mem_singleton.mp hw
    obtain ⟨hreceives, hsends⟩ := hfull _ s'.window_mem
    rw [h.receives, List.length_append] at hreceives
    rw [h.sends, List.length_append] at hsends
    exact ⟨by omega, by omega⟩

/-- A step that dumps nothing. -/
theorem Stamped.of_grown (h : s.Stamped readings) (hgrown : s.Grown s' newReceives newSends)
    (hpoint : s.server.point ≠ .returned)
    (harrays : ∃ receives sends, s'.server.receives = some receives ∧
      s'.server.sends = some sends ∧ receives.length ≤ timestampsMaxlength ∧
        sends.length ≤ timestampsMaxlength)
    (hreceives : newReceives.Sublist more) (hsends : newSends.Sublist more)
    (hcounts : s'.NotFull → s'.server.point ≠ .returned →
      s'.server.queued.length = s.server.queued.length + newReceives.length ∧
        s'.server.sent.length = s.server.sent.length + newSends.length)
    (horder : s.NotFull → (readings ++ more).Pairwise (fun t u => t.nsec ≤ u.nsec) →
      ∀ (k : ℕ) (r w : Timespec), (s.receives ++ newReceives)[k]? = some r →
        (s.sends ++ newSends)[k]? = some w → r.nsec ≤ w.nsec)
    (hfile : s'.file = s.file) : s'.Stamped (readings ++ more) := by
  obtain ⟨receives, sends, hreceives', hsends', hroom⟩ := harrays
  constructor
  · exact ⟨receives, sends, hreceives', hsends'⟩
  · intro w hw
    rcases hgrown.windows hw with hw | rfl
    · exact h.room w hw
    · rw [Server.window, hreceives', hsends']
      exact hroom
  · rw [hgrown.receives_eq]
    exact h.receives.append hreceives
  · rw [hgrown.sends_eq]
    exact h.sends.append hsends
  · intro hfull hpoint'
    obtain ⟨hqueued, hsent⟩ := hcounts hfull hpoint'
    obtain ⟨hreceived, hanswered⟩ := h.counts (hgrown.notFull hfull) hpoint
    rw [hgrown.receives_eq, hgrown.sends_eq, List.length_append, List.length_append, hqueued, hsent,
      hreceived, hanswered]
    exact ⟨rfl, rfl⟩
  · intro hfull hclock k r w
    rw [hgrown.receives_eq, hgrown.sends_eq]
    exact horder (hgrown.notFull hfull) hclock k r w
  · rw [hfile, hgrown.dumps]
    exact h.file

/-- Without new timestamps the order is as it was. -/
theorem Stamped.order_same (h : s.Stamped readings) (hfull : s.NotFull)
    (hclock : (readings ++ more).Pairwise fun t u => t.nsec ≤ u.nsec) (k : ℕ) (r w : Timespec)
    (hr : (s.receives ++ [])[k]? = some r) (hw : (s.sends ++ [])[k]? = some w) :
    r.nsec ≤ w.nsec := by
  rw [List.append_nil] at hr hw
  exact h.order hfull (List.pairwise_append.mp hclock).1 k r w hr hw

/-- A step that takes no timestamp, because there is nothing to take one of or no room for it. -/
theorem Stamped.of_unchanged (h : s.Stamped readings) (hpoint : s.server.point ≠ .returned)
    (hreceives : s'.server.receives = s.server.receives) (hsends : s'.server.sends = s.server.sends)
    (hcounts : s'.NotFull → s'.server.point ≠ .returned →
      s'.server.queued = s.server.queued ∧ s'.server.sent = s.server.sent)
    (hfile : s'.file = s.file) (hdumps : s'.dumps = s.dumps) : s'.Stamped (readings ++ more) := by
  have hgrown : s.Grown s' [] [] := by
    refine ⟨hdumps, ?_, ?_⟩
    · rw [List.append_nil, Server.window, Server.window, hreceives]
    · rw [List.append_nil, Server.window, Server.window, hsends]
  obtain ⟨receives, sends, hreceives', hsends'⟩ := h.arrays
  have hroom := h.room _ s.window_mem
  rw [Server.window, hreceives', hsends'] at hroom
  refine h.of_grown hgrown hpoint
    ⟨receives, sends, hreceives.trans hreceives', hsends.trans hsends', hroom⟩
    (List.nil_sublist _) (List.nil_sublist _) ?_ h.order_same hfile
  intro hfull hpoint'
  obtain ⟨hqueued, hsent⟩ := hcounts hfull hpoint'
  rw [hqueued, hsent]
  exact ⟨rfl, rfl⟩

/-- The dump. All windows together are the same, with an empty one behind them, and what the file
contains is the text of the one that was the last. -/
theorem Stamped.of_dumped (h : s.Stamped readings) (hpoint : s.server.point ≠ .returned)
    (hfile : s'.file = s.server.window.text) (hdumps : s'.dumps = s.dumps ++ [s.server.window])
    (hsame : ({ s.server with
      receives := s.server.receives.map fun _ => []
      sends := s.server.sends.map fun _ => [] } : Server).SameStamps s'.server) :
    s'.Stamped (readings ++ more) := by
  obtain ⟨receives, sends, hreceives, hsends⟩ := h.arrays
  have hreceives' : s'.server.receives = some [] := by rw [hsame.receives, hreceives]; rfl
  have hsends' : s'.server.sends = some [] := by rw [hsame.sends, hsends]; rfl
  have hwindow : s'.server.window = ⟨[], []⟩ := by
    rw [Server.window, hreceives', hsends']
    rfl
  have hwindows : s'.windows = s.windows ++ [⟨[], []⟩] := by
    rw [windows, windows, hdumps, hwindow]
  have hallReceives : s'.receives = s.receives := by
    rw [DumpingServer.receives, DumpingServer.receives, hwindows, List.flatMap_append]
    exact List.append_nil _
  have hallSends : s'.sends = s.sends := by
    rw [DumpingServer.sends, DumpingServer.sends, hwindows, List.flatMap_append]
    exact List.append_nil _
  have hnotFull : s'.NotFull → s.NotFull := fun hfull w hw =>
    hfull w (hwindows ▸ List.mem_append_left _ hw)
  constructor
  · exact ⟨[], [], hreceives', hsends'⟩
  · intro w hw
    rcases List.mem_append.mp (hwindows ▸ hw) with hw | hw
    · exact h.room w hw
    · obtain rfl := List.mem_singleton.mp hw
      exact ⟨Nat.zero_le _, Nat.zero_le _⟩
  · rw [hallReceives]
    exact h.receives.trans (List.sublist_append_left _ _)
  · rw [hallSends]
    exact h.sends.trans (List.sublist_append_left _ _)
  · intro hfull _
    rw [hallReceives, hallSends, hsame.queued, hsame.sent]
    exact h.counts (hnotFull hfull) hpoint
  · intro hfull hclock
    rw [hallReceives, hallSends]
    exact h.order (hnotFull hfull) (List.pairwise_append.mp hclock).1
  · rw [hfile, hdumps, List.getLast?_concat]
    rfl

/-- A new time of the clock is not before any timestamp. -/
theorem Stamped.le_reading {stamps : List Timespec} (hstamps : stamps.Sublist readings)
    {now : Timespec} (hclock : (readings ++ [now]).Pairwise fun t u => t.nsec ≤ u.nsec)
    {k : ℕ} {r : Timespec} (hr : stamps[k]? = some r) : r.nsec ≤ now.nsec := by
  have hmem : r ∈ readings := hstamps.subset (List.mem_of_getElem? hr)
  exact (List.pairwise_append.mp hclock).2.2 r hmem now (List.mem_singleton_self _)

/-- The timestamp of a datagram, which has not been answered yet. It is not compared with any
timestamp of an answer, since there are fewer of these. -/
theorem Stamped.of_received (h : s.Stamped readings) (hpoint : s.server.point ≠ .returned)
    (hbehind : s.server.sent.length ≤ s.server.queued.length) {clock : Option Timespec}
    {d : Datagram} (hreceives : recordTimestamp s.server.receives clock = some s'.server.receives)
    (hsends : s'.server.sends = s.server.sends)
    (hqueued : s'.server.queued = s.server.queued ++ [d])
    (hsent : s'.server.sent = s.server.sent) (hfile : s'.file = s.file)
    (hdumps : s'.dumps = s.dumps) : s'.Stamped (readings ++ clock.toList) := by
  obtain ⟨receives, sends, hbefore, hsome⟩ := h.arrays
  rw [hbefore] at hreceives
  have hroom := h.room _ s.window_mem
  rw [Server.window, hbefore, hsome] at hroom
  -- there is room in the array, or the timestamp is dropped
  rcases recordTimestamp_some hreceives with ⟨now, rfl, hlt, hafter⟩ | ⟨hfull, hafter⟩
  · have hgrown : s.Grown s' [now] [] := by
      refine ⟨hdumps, ?_, ?_⟩
      · rw [Server.window, Server.window, hafter, hbefore]
        rfl
      · rw [List.append_nil, Server.window, Server.window, hsends]
    refine h.of_grown hgrown hpoint
      ⟨receives ++ [now], sends, hafter, hsends.trans hsome, ?_, hroom.2⟩
      (List.Sublist.refl _) (List.nil_sublist _) ?_ ?_ hfile
    · rw [List.length_append, List.length_singleton]
      exact hlt
    · intro _ _
      rw [hqueued, hsent, List.length_append]
      exact ⟨rfl, rfl⟩
    · intro hfull hclock k r w hr hw
      obtain ⟨hreceived, hanswered⟩ := h.counts hfull hpoint
      rw [List.append_nil] at hw
      -- There is no answer yet to the datagram that has just come.
      have hk : k < s.receives.length := by
        have hlt := (List.getElem?_eq_some_iff.mp hw).1
        omega
      rw [List.getElem?_append_left hk] at hr
      exact h.order hfull (List.pairwise_append.mp hclock).1 k r w hr hw
  · refine h.of_unchanged hpoint (hafter.trans hbefore.symm) hsends ?_ hfile hdumps
    intro hnotFull
    have hlt := (hnotFull _ s'.window_mem).1
    rw [Server.window, hafter] at hlt
    exact absurd hfull (Nat.not_le.mpr hlt)

/-- The timestamp of an answer, whose datagram has come before. It is the latest time that the clock
has shown, so it is not before the timestamp of any datagram. -/
theorem Stamped.of_sent (h : s.Stamped readings) (hpoint : s.server.point ≠ .returned)
    {clock : Option Timespec} {e : Entry} (hreceives : s'.server.receives = s.server.receives)
    (hsends : recordTimestamp s.server.sends clock = some s'.server.sends)
    (hqueued : s'.server.queued = s.server.queued)
    (hsent : s'.server.sent = s.server.sent ++ [e]) (hfile : s'.file = s.file)
    (hdumps : s'.dumps = s.dumps) : s'.Stamped (readings ++ clock.toList) := by
  obtain ⟨receives, sends, hsome, hbefore⟩ := h.arrays
  rw [hbefore] at hsends
  have hroom := h.room _ s.window_mem
  rw [Server.window, hbefore, hsome] at hroom
  rcases recordTimestamp_some hsends with ⟨now, rfl, hlt, hafter⟩ | ⟨hfull, hafter⟩
  · have hgrown : s.Grown s' [] [now] := by
      refine ⟨hdumps, ?_, ?_⟩
      · rw [List.append_nil, Server.window, Server.window, hreceives]
      · rw [Server.window, Server.window, hafter, hbefore]
        rfl
    refine h.of_grown hgrown hpoint
      ⟨receives, sends ++ [now], hreceives.trans hsome, hafter, hroom.1, ?_⟩
      (List.nil_sublist _) (List.Sublist.refl _) ?_ ?_ hfile
    · rw [List.length_append, List.length_singleton]
      exact hlt
    · intro _ _
      rw [hqueued, hsent, List.length_append]
      exact ⟨rfl, rfl⟩
    · intro hfull hclock k r w hr hw
      rw [List.append_nil] at hr
      -- an answer of before, or the new one
      by_cases hk : k < s.sends.length
      · rw [List.getElem?_append_left hk] at hw
        exact h.order hfull (List.pairwise_append.mp hclock).1 k r w hr hw
      · rw [List.getElem?_append_right (by omega)] at hw
        obtain rfl : w = now := List.mem_singleton.mp (List.mem_of_getElem? hw)
        exact le_reading h.receives hclock hr
  · refine h.of_unchanged hpoint hreceives (hafter.trans hbefore.symm) ?_ hfile hdumps
    intro hnotFull
    have hlt := (hnotFull _ s'.window_mem).2
    rw [Server.window, hafter] at hlt
    exact absurd hfull (Nat.not_le.mpr hlt)

/-- The answers sent are no more than those queued. -/
theorem sent_le_queued (hkept : s.server.Kept) (hpoint : s.server.point ≠ .returned) :
    s.server.sent.length ≤ s.server.queued.length := by
  obtain ⟨contents, h⟩ | hreturned := hkept
  · have hlength := congrArg List.length h.order
    simp only [List.length_map, List.length_append] at hlength
    omega
  · exact absurd hreturned hpoint

/-- **One step.** -/
theorem Stamped.step (h : s.Stamped readings) (hkept : s.server.Kept)
    (hstep : dumpingStep s i = some s') : s'.Stamped (readings ++ i.readings) := by
  have hpoint : s.server.point ≠ .returned := point_of_serveStep (dumpingStep_eq hstep).1
  cases dumpingStep_stamps hstep with
  | kept _ hfile hdumps hsame =>
    exact h.of_unchanged hpoint hsame.receives hsame.sends
      (fun _ _ => ⟨hsame.queued, hsame.sent⟩) hfile hdumps
  | dumped _ hfile hdumps hsame => exact h.of_dumped hpoint hfile hdumps hsame
  | received d clock _ hreadings hfile hdumps hreceives hsends hqueued hsent =>
    rw [hreadings]
    exact h.of_received hpoint (sent_le_queued hkept hpoint) hreceives hsends hqueued hsent hfile
      hdumps
  | sent e clock _ hreadings hfile hdumps hreceives hsends hqueued hsent =>
    rw [hreadings]
    exact h.of_sent hpoint hreceives hsends hqueued hsent hfile hdumps
  | failed hreturned hfile hdumps hreceives hsends =>
    exact h.of_unchanged hpoint hreceives hsends (fun _ hne => absurd hreturned hne) hfile hdumps

end DumpingServer

/-- What holds of the timestamps at every moment of a run. -/
theorem stamped_of_run {malloc : Memory.Malloc} {size : ℕ} {recvBuffer sendBuffer : Memory.Block}
    {queue : MessageQueue} {is : List SystemResult} {s : DumpingServer}
    (hrecv : recvBuffer.size = receiveBufferSize) (hsend : sendBuffer.size = sendBufferSize)
    (hqueue : makeMessageQueue malloc size = some queue)
    (hrun : Run dumpingStep (fun _ _ => True) (.initial recvBuffer sendBuffer queue) is s) :
    s.Stamped (is.flatMap SystemResult.readings) := by
  -- that no more answers are sent than datagrams came in is part of the invariant of `serve`
  have hinv : s.server.Kept ∧ s.Stamped (is.flatMap SystemResult.readings) := by
    refine hrun.invariant_history (P := fun is s => s.server.Kept ∧
      s.Stamped (is.flatMap SystemResult.readings)) ?_ ?_
    · exact ⟨.inl ⟨[], Server.inOrder_initial hrecv hsend hqueue _ _⟩,
        DumpingServer.stamped_initial _ _ _⟩
    · rintro is s i s' - ⟨hkept, h⟩ - hstep
      refine ⟨serveStep_kept hkept (dumpingStep_eq hstep).1, ?_⟩
      rw [List.flatMap_append, List.flatMap_singleton]
      exact h.step hkept hstep
  exact hinv.2

/-! ### Three datagrams and a signal -/

/-- Three datagrams come in, an answer is sent until the network takes no more, and then there is a
signal. -/
def signalledInputs : List SystemResult :=
  traffic threeDatagrams (threeReplies.take 1) ⟨1, 0⟩ ++ [.select (some true) .timeout]

/-- The dump has a timestamp for each datagram and for the answer. -/
theorem exists_run_signalled {malloc : Memory.Malloc} {size : ℕ}
    {recvBuffer sendBuffer : Memory.Block} {queue : MessageQueue}
    (hrecv : recvBuffer.size = receiveBufferSize) (hsend : sendBuffer.size = sendBufferSize)
    (hqueue : makeMessageQueue malloc size = some queue)
    (hroom : (threeDatagrams.map Datagram.room).sum < size) : ∃ s,
    Run dumpingStep (fun _ _ => True) (.initial recvBuffer sendBuffer queue) signalledInputs s ∧
      s.dumps = [⟨List.replicate 3 ⟨1, 0⟩, [⟨1, 0⟩]⟩] ∧ s.server.queued = threeDatagrams ∧
      s.server.sent = threeReplies.take 1 ∧ s.server.point = .selecting := by
  obtain ⟨server, hserved, hqueued, hsent, -, hpoint⟩ :=
    exists_run_threeDatagrams hrecv hsend hqueue hroom (some []) (some [])
  have hbefore : Run dumpingStep (fun _ _ => True) (.initial recvBuffer sendBuffer queue)
      (traffic threeDatagrams (threeReplies.take 1) ⟨1, 0⟩) ⟨server, none, []⟩ :=
    run_dumpingStep_of_quiet (fun _ => not_signalled_of_mem_traffic) hserved
  -- In front of the signal there is one window, and the counts give its timestamps.
  have hwindow : server.window = ⟨List.replicate 3 ⟨1, 0⟩, [⟨1, 0⟩]⟩ := by
    have h := stamped_of_run hrecv hsend hqueue hbefore
    obtain ⟨m, hm, hreceives⟩ := List.sublist_replicate_iff.mp
      (show List.Sublist server.window.receives (List.replicate 4 ⟨1, 0⟩) from
        List.append_nil server.window.receives ▸ h.receives)
    obtain ⟨n, hn, hsends⟩ := List.sublist_replicate_iff.mp
      (show List.Sublist server.window.sends (List.replicate 4 ⟨1, 0⟩) from
        List.append_nil server.window.sends ▸ h.sends)
    have hnotFull : DumpingServer.NotFull ⟨server, none, []⟩ := by
      intro w hw
      obtain rfl := List.mem_singleton.mp hw
      rw [hreceives, hsends, List.length_replicate, List.length_replicate, timestampsMaxlength]
      omega
    obtain ⟨hreceived, hanswered⟩ := h.counts hnotFull (by simp [hpoint])
    simp only [DumpingServer.receives_eq, DumpingServer.sends_eq, List.flatMap_nil, List.nil_append,
      hreceives, hsends, List.length_replicate, hqueued, hsent] at hreceived hanswered
    obtain rfl : m = 3 := hreceived
    obtain rfl : n = 1 := hanswered
    exact congrArg₂ Dump.mk hreceives hsends
  obtain ⟨server', hstep, hpoint', hqueued', hsent'⟩ :=
    exists_dumpingStep_signalled (s := ⟨server, none, []⟩) hpoint
  refine ⟨_, hbefore.append (.single trivial hstep), ?_, hqueued'.trans hqueued,
    hsent'.trans hsent, hpoint'⟩
  rw [hwindow]
  rfl

end DnsTools
