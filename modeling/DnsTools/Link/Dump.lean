import DnsTools.Link.Report
import DnsTools.Server.Dumps

/-!
# From the timestamps of the server to the analyser

What the server dumps is a JSON text with the sections `receives` and `sends` of a report, and the
analyser reads from it the timestamps of the last dump. A dump has no `pairs`.

## Main results

* `dumps_of_run` — what the timestamps and the file tell of a run of the server
-/

namespace DnsTools

open Json Memory

/-! ### The text of a dump -/

/-- The dump as one text. -/
def dumpText (receives sends : List Timespec) : List Char :=
  '{' :: header "receives".toList (printed printTime receives ++
    ']' :: ',' :: '\n' :: ' ' :: header "sends".toList (printed printTime sends ++
      [']', '\n', '}', '\n']))

theorem receives_open {cs : List Char} :
    "\x7b\"receives\":\n\t[".toList ++ cs = '{' :: header "receives".toList cs := by
  simp only [header, String.reduceToList, List.cons_append, List.nil_append]

theorem sends_append {cs : List Char} :
    "],\n \"sends\":\n\t[".toList ++ cs =
      ']' :: ',' :: '\n' :: ' ' :: header "sends".toList cs := by
  simp only [header, String.reduceToList, List.cons_append, List.nil_append]

theorem Dump.text_eq (dump : Dump) : dump.text = some (dumpText dump.receives dump.sends) := by
  rw [Dump.text, printEntries_eq rfl, printEntries_eq rfl]
  simp only [Option.bind_eq_bind, Option.bind_some, List.append_assoc, receives_open, sends_append,
    close_eq]
  rfl

/-- The sections of a dump. -/
def Dump.sections (dump : Dump) : List (List Char × Json) :=
  [("receives".toList, .array (dump.receives.map timeJson)),
    ("sends".toList, .array (dump.sends.map timeJson))]

/-- The dump is a JSON text, and this is what it says. -/
theorem Dump.decode_text (dump : Dump) :
    decode (dumpText dump.receives dump.sends) = some (.object dump.sections) := by
  have hreceived : dump.receives.length ≤ (printed printTime dump.receives).length :=
    length_le_printed
  have hsent : dump.sends.length ≤ (printed printTime dump.sends).length := length_le_printed
  have hlength : dump.receives.length + dump.sends.length + 10 ≤
      (dumpText dump.receives dump.sends).length := by
    simp only [dumpText, header, List.length_append, List.length_cons]
    omega
  obtain ⟨fuel, hfuel⟩ : ∃ fuel, (dumpText dump.receives dump.sends).length = fuel + 3 :=
    ⟨(dumpText dump.receives dump.sends).length - 3, by omega⟩
  -- The members, from the last one to the first.
  have hsends : members (fuel + 2)
      (header "sends".toList (printed printTime dump.sends ++ [']', '\n', '}', '\n'])) =
        some ([("sends".toList, .array (dump.sends.map timeJson))], ['\n']) :=
    members_header_last (by simp [PlainKey])
      (value_times dump.sends rfl (show 1 + dump.sends.length ≤ fuel by omega))
  have hreceives := members_header_more "receives".toList (by simp [PlainKey])
    (value_times dump.receives rfl (show 1 + dump.receives.length ≤ fuel + 1 by omega)) hsends
  refine decode_eq ?_ (show skip ['\n'] = [] from rfl)
  rw [hfuel]
  refine value_object rfl ?_ hreceives
  rw [head_header]
  decide

/-! ### What the analyser reads -/

/-- The timestamps as numbers. -/
def Dump.data (dump : Dump) : Analyser.Data where
  sends := dump.sends.map fun t => (t.nsec : ℤ)
  receives := (dump.receives.map fun t => (t.nsec : ℤ)).filter (0 < ·)
  pairs := []

theorem Dump.sections_eq (dump : Dump) : Analyser.sections dump.sections = some dump.data := by
  have hreceives : Analyser.get dump.sections "receives".toList (.array []) =
      .array (dump.receives.map timeJson) := rfl
  have hsends : Analyser.get dump.sections "sends".toList (.array []) =
      .array (dump.sends.map timeJson) := rfl
  have hpairs : Analyser.get dump.sections "pairs".toList (.array []) = .array [] := rfl
  rw [Analyser.sections, hreceives, hsends, hpairs, asInts_times, asInts_times]
  rfl

theorem Dump.jload_text (dump : Dump) :
    Analyser.jload (dumpText dump.receives dump.sends) = some dump.data := by
  rw [Analyser.jload, dump.decode_text]
  exact dump.sections_eq

/-! ### The file of a run -/

/-- What the timestamps and the file tell, with the times that the clock has shown. -/
structure DumpingServer.Accounted (s : DumpingServer) (readings : List Timespec) : Prop where
  /-- The timestamps of all windows. -/
  stamped : s.Stamped readings
  /-- There is a text in the file as soon as there has been a dump. -/
  file : s.file = none ↔ s.dumps = []
  /-- It is that of the last window dumped. -/
  read : ∀ text, s.file = some text → ∃ dump, s.dumps.getLast? = some dump ∧
    decode text = some (.object dump.sections) ∧ Analyser.jload text = some dump.data

/-- **The timestamps of a run.** As long as no array is full there is one timestamp for each
datagram answered and for each answer sent, over all dumps and in their order, and what is read
from the file is the last dump. -/
theorem dumps_of_run {malloc : Malloc} {size : ℕ} {recvBuffer sendBuffer : Block}
    {queue : MessageQueue} {is : List SystemResult} {s : DumpingServer}
    (hrecv : recvBuffer.size = receiveBufferSize) (hsend : sendBuffer.size = sendBufferSize)
    (hqueue : makeMessageQueue malloc size = some queue)
    (hrun : Run dumpingStep (fun _ _ => True) (.initial recvBuffer sendBuffer queue) is s) :
    s.Accounted (is.flatMap SystemResult.readings) := by
  have h := stamped_of_run hrecv hsend hqueue hrun
  refine ⟨h, ?_, ?_⟩
  · rw [h.file]
    cases hlast : s.dumps.getLast? with
    | none => exact ⟨fun _ => List.getLast?_eq_none_iff.mp hlast, fun _ => rfl⟩
    | some dump =>
      rw [Option.bind_some, dump.text_eq]
      constructor
      · intro hnone
        cases hnone
      · intro hdumps
        rw [hdumps] at hlast
        cases hlast
  · intro text htext
    rw [h.file] at htext
    obtain ⟨dump, hlast, htext⟩ := Option.bind_eq_some_iff.mp htext
    obtain rfl := Option.some.inj (dump.text_eq.symm.trans htext)
    exact ⟨dump, hlast, dump.decode_text, dump.jload_text⟩

/-- The server with its file, in front of its first system call. -/
def freshDumpingServer : DumpingServer :=
  .initial freshServer.recvBuffer freshServer.sendBuffer freshServer.queue

/-- Three datagrams come in, an answer is sent, and a signal makes the server dump the four
timestamps. -/
theorem dumps_of_run_signalled : ∃ s,
    Run dumpingStep (fun _ _ => True) freshDumpingServer signalledInputs s ∧
      s.dumps = [⟨List.replicate 3 ⟨1, 0⟩, [⟨1, 0⟩]⟩] ∧
      s.Accounted (signalledInputs.flatMap SystemResult.readings) := by
  obtain ⟨s, hrun, hdumps, -⟩ := exists_run_signalled size_recvBuffer_freshServer
    size_sendBuffer_freshServer makeMessageQueue_freshServer (by decide)
  exact ⟨s, hrun, hdumps, dumps_of_run size_recvBuffer_freshServer size_sendBuffer_freshServer
    makeMessageQueue_freshServer hrun⟩

end DnsTools
