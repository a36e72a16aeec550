import DnsTools.Lib.BufferedWriter
import DnsTools.Lib.Lines

/-!
# Writing the memory log

`log.go` of the package `mem`: a log is a file behind a buffered writer behind a JSON encoder, and
`log.write` flushes and syncs after every value. `json.Marshal` is a parameter that may refuse a
value; the file is a sink that may take fewer bytes than it is given, and whose `Sync` may fail.

## Two kinds of errors

A value that cannot be encoded leaves no trace: the encoder forgets the error, and the next value is
written as if nothing had happened. An error of the file is final. The buffered writer keeps it, so
nothing is written any more, and every call fails.

The two are kept apart by `Log.Given`: the file holds all lines it was given, or it holds a first
part of them and the writer has failed. A `Sync` that fails is neither; the bytes are in the file,
and the next call goes on.

## Main results

* `Log.Given.write` — what one call does
* `log_first_part` — the file always holds a first part of the lines of the values, all of them
  after a write that succeeds, and nothing more after one that the file has refused
-/

namespace DnsTools

open Scanner

/-- `os.File`: what `Write` and `Sync` do with its state. -/
structure LogFile (σ : Type*) extends Sink σ where
  /-- `Sync`, and whether it succeeds. -/
  sync : σ → σ × Bool
  /-- It changes nothing in the file. -/
  content_sync : ∀ s, content (sync s).1 = content s
  /-- Whether `Close` succeeds. -/
  close : σ → Bool

/-- `log`. The writer has the file. -/
structure Log (σ : Type*) where
  /-- `w`. -/
  w : BufferedWriter σ
  /-- `e` has seen an error of the writer. -/
  failed : Bool
deriving DecidableEq, Repr

/-- `createLog`, for a file that `os.Create` has made. -/
def createLog {σ : Type*} (f : σ) : Log σ := { w := .new f, failed := false }

namespace Log

variable {σ V : Type*} (file : LogFile σ) (marshal : V → Option (List UInt8))

/-- `json.Encoder.Encode`. It keeps an error of the writer, but not one of the value. -/
def encode (l : Log σ) (v : V) : Log σ × Bool :=
  if l.failed then (l, false)
  else match marshal v with
    | none => (l, false)
    | some text =>
      let (w, ok) := l.w.write file.toSink BufferedWriter.defaultSize (text ++ [newline])
      ({ w, failed := !ok }, ok)

/-- `log.write`. -/
def write (l : Log σ) (v : V) : Log σ × Bool :=
  match encode file marshal l v with
  | (l, false) => (l, false)
  | (l, true) =>
    match l.w.flush file.toSink with
    | (w, false) => ({ l with w }, false)
    | (w, true) =>
      let (wr, ok) := file.sync w.wr
      ({ l with w := { w with wr } }, ok)

/-- Several calls of `log.write`, with what they return. -/
def writes (l : Log σ) : List V → Log σ × List Bool
  | [] => (l, [])
  | v :: vs =>
    let (l, ok) := write file marshal l v
    let (l, oks) := writes l vs
    (l, ok :: oks)

/-- `log.close`: what is in the buffer is flushed, and the file is closed in any case. -/
def close (l : Log σ) : Log σ × Bool :=
  let (w, ok) := l.w.flush file.toSink
  ({ l with w }, ok && file.close w.wr)

/-- What is in the file. -/
def content (l : Log σ) : List UInt8 := file.content l.w.wr

/-! ### What is in the file -/

/-- The texts of the values that can be encoded. -/
def texts (vs : List V) : List (List UInt8) := vs.filterMap marshal

/-- The log has been given these texts: they are all in the file, or a first part of their lines is
and the file has refused the rest. -/
inductive Given (l : Log σ) (texts : List (List UInt8)) : Prop
  | whole (hw : l.w.failed = false) (hfailed : l.failed = false) (hbuffer : l.w.buffer = [])
      (hcontent : l.content file = unlines texts)
  | cut (hw : l.w.failed = true) (hcontent : l.content file <+: unlines texts)

variable {file marshal} {l l' : Log σ} {v : V} {vs : List V} {ok : Bool}
  {given : List (List UInt8)}

theorem Given.content_le (h : l.Given file given) : l.content file <+: unlines given := by
  cases h with
  | whole _ _ _ hcontent => exact hcontent ▸ List.prefix_refl _
  | cut _ hcontent => exact hcontent

/-- What is given to a log that has failed does not matter. -/
theorem Given.append_of_failed (h : l.Given file given) (hw : l.w.failed = true)
    (texts : List (List UInt8)) : l.Given file (given ++ texts) := by
  refine .cut hw (h.content_le.trans ?_)
  rw [unlines_append]
  exact List.prefix_append _ _

/-- A log whose writer has failed writes nothing. -/
theorem write_of_failed (hw : l.w.failed = true) (h : write file marshal l v = (l', ok)) :
    l'.w = l.w ∧ ok = false := by
  rw [write, encode] at h
  split_ifs at h with hfailed
  · cases h
    exact ⟨rfl, rfl⟩
  · cases hmarshal : marshal v with
    | none =>
      rw [hmarshal] at h
      cases h
      exact ⟨rfl, rfl⟩
    | some text =>
      simp only [hmarshal, BufferedWriter.write_of_failed hw] at h
      cases h
      exact ⟨rfl, rfl⟩

/-- What one call does. -/
theorem Given.write (h : l.Given file given) (hwrite : write file marshal l v = (l', ok)) :
    l'.Given file (given ++ (marshal v).toList) ∧ (ok = true → l'.w.failed = false) := by
  cases h with
  | cut hw hcontent =>
    obtain ⟨hsame, rfl⟩ := write_of_failed hw hwrite
    refine ⟨.append_of_failed (.cut ?_ ?_) ?_ _, nofun⟩
    · rw [hsame, hw]
    · rwa [content, hsame]
    · rw [hsame, hw]
  | whole hw hfailed hbuffer hcontent =>
    rw [Log.write, encode, if_neg (Bool.eq_false_iff.mp hfailed)] at hwrite
    cases hmarshal : marshal v with
    | none =>
      rw [hmarshal] at hwrite
      cases hwrite
      rw [Option.toList_none, List.append_nil]
      exact ⟨.whole hw hfailed hbuffer hcontent, nofun⟩
    | some text =>
      obtain ⟨w, ok₁, hencode⟩ : ∃ w ok₁, l.w.write file.toSink BufferedWriter.defaultSize
        (text ++ [newline]) = (w, ok₁) := ⟨_, _, rfl⟩
      have htook := BufferedWriter.write_took hw hencode
      have hstream : l.w.stream file.toSink ++ (text ++ [newline]) = unlines (given ++ [text]) := by
        rw [unlines_append, ← hcontent, BufferedWriter.stream, hbuffer, List.append_nil, content]
        simp [unlines]
      rw [Option.toList_some]
      simp only [hmarshal, hencode] at hwrite
      cases ok₁ with
      | false =>
        cases hwrite
        exact ⟨.cut htook.failed_eq (hstream ▸ htook.content_le), nofun⟩
      | true =>
        obtain ⟨w', ok₂, hflush⟩ : ∃ w' ok₂, w.flush file.toSink = (w', ok₂) := ⟨_, _, rfl⟩
        obtain ⟨hflushed, hdone⟩ := BufferedWriter.flush_took htook.failed_eq hflush
        have hall := htook.append hflushed
        rw [List.append_nil] at hall
        simp only [hflush] at hwrite
        cases ok₂ with
        | false =>
          cases hwrite
          exact ⟨.cut hall.failed_eq (hstream ▸ hall.content_le), nofun⟩
        | true =>
          cases hwrite
          obtain ⟨hempty, hwritten⟩ := hdone rfl
          refine ⟨.whole hall.failed_eq rfl hempty ?_, fun _ => hall.failed_eq⟩
          rw [content, file.content_sync, hwritten, htook.stream_eq rfl, hstream]

theorem given_createLog {f : σ} (hempty : file.content f = []) : (createLog f).Given file [] :=
  .whole rfl rfl rfl hempty

theorem writes_cons {oks : List Bool} (h : writes file marshal l (v :: vs) = (l', oks)) :
    ∃ l₁ ok oks', Log.write file marshal l v = (l₁, ok) ∧
      writes file marshal l₁ vs = (l', oks') ∧ oks = ok :: oks' := by
  cases h
  exact ⟨_, _, _, rfl, rfl, rfl⟩

theorem Given.writes {oks : List Bool} (h : l.Given file given)
    (hwrites : writes file marshal l vs = (l', oks)) :
    l'.Given file (given ++ texts marshal vs) ∧
      (oks.getLast? = some true → l'.w.failed = false) := by
  induction vs generalizing l given oks with
  | nil =>
    cases hwrites
    exact ⟨(List.append_nil given).symm ▸ h, nofun⟩
  | cons v vs ih =>
    obtain ⟨l₁, ok, oks', hwrite, hrest, rfl⟩ := writes_cons hwrites
    obtain ⟨hgiven, hok⟩ := h.write hwrite
    obtain ⟨hgiven', hlast⟩ := ih hgiven hrest
    have htexts : given ++ texts marshal (v :: vs) =
        given ++ (marshal v).toList ++ texts marshal vs := by
      rw [texts, List.filterMap_cons]
      cases marshal v <;> simp [texts]
    refine ⟨htexts ▸ hgiven', fun htrue => ?_⟩
    cases vs with
    | nil =>
      cases hrest
      exact hok (Option.some.inj htrue)
    | cons v' vs =>
      obtain ⟨l₂, ok', oks'', -, -, rfl⟩ := writes_cons hrest
      exact hlast (by rwa [List.getLast?_cons_cons] at htrue)

/-- Once the file has refused bytes it is left alone. -/
theorem writes_of_failed {oks : List Bool} (hw : l.w.failed = true)
    (h : Log.writes file marshal l vs = (l', oks)) : l'.w = l.w ∧ ∀ ok ∈ oks, ok = false := by
  induction vs generalizing l oks with
  | nil =>
    cases h
    exact ⟨rfl, nofun⟩
  | cons v vs ih =>
    obtain ⟨l₁, ok, oks', hwrite, hrest, rfl⟩ := writes_cons h
    obtain ⟨hsame, rfl⟩ := write_of_failed hw hwrite
    obtain ⟨hsame', hall⟩ := ih (hsame ▸ hw) hrest
    exact ⟨hsame'.trans hsame, List.forall_mem_cons.mpr ⟨rfl, hall⟩⟩

/-- `log.close` writes nothing that is not there. -/
theorem Given.close (h : l.Given file given) : (l.close file).1.content file = l.content file ∧
    ((l.close file).2 = true → l.content file = unlines given) := by
  cases h with
  | whole hw hfailed hbuffer hcontent =>
    rw [Log.close, BufferedWriter.flush, if_neg (Bool.eq_false_iff.mp hw), if_pos hbuffer]
    exact ⟨rfl, fun _ => hcontent⟩
  | cut hw hcontent =>
    rw [Log.close, BufferedWriter.flush_of_failed hw]
    exact ⟨rfl, fun hok => absurd hok (by simp)⟩

end Log

open Log

variable {σ V : Type*} {file : LogFile σ} {marshal : V → Option (List UInt8)} {f : σ} {l : Log σ}
  {vs : List V} {oks : List Bool}

/-- **The log is a first part of what it was given.** Whatever values cannot be encoded, however few
bytes the file takes and whenever it cannot be synced: the file holds a first part of the lines of
the values that can be, and all of them if the last write succeeded or the log can be closed. If it
lacks something it stays as it is, and every further write fails; so there is never a hole in it. -/
theorem log_first_part (hempty : file.content f = [])
    (h : writes file marshal (createLog f) vs = (l, oks)) :
    l.content file <+: unlines (texts marshal vs) ∧
    (oks.getLast? = some true → l.content file = unlines (texts marshal vs)) ∧
    (l.close file).1.content file = l.content file ∧
    ((l.close file).2 = true → l.content file = unlines (texts marshal vs)) ∧
    (l.content file ≠ unlines (texts marshal vs) → ∀ (vs' : List V) (l' : Log σ) (oks' : List Bool),
      writes file marshal l vs' = (l', oks') →
        l'.content file = l.content file ∧ ∀ ok ∈ oks', ok = false) := by
  obtain ⟨hgiven, hlast⟩ := (given_createLog hempty).writes h
  rw [List.nil_append] at hgiven
  refine ⟨hgiven.content_le, fun htrue => ?_, hgiven.close.1, hgiven.close.2, ?_⟩
  · cases hgiven with
    | whole _ _ _ hcontent => exact hcontent
    | cut hw => rw [hlast htrue] at hw; cases hw
  · intro hlacks vs' l' oks' h'
    cases hgiven with
    | whole _ _ _ hcontent => exact absurd hcontent hlacks
    | cut hw =>
      obtain ⟨hsame, hall⟩ := writes_of_failed hw h'
      exact ⟨by rw [content, content, hsame], hall⟩

/-- A file that has room for so many bytes. -/
def fullDisk (room : ℕ) : LogFile (List UInt8) where
  write s p := (s ++ p.take (room - s.length), (p.take (room - s.length)).length)
  content s := s
  content_write s p := by simp
  sync s := (s, true)
  content_sync _ := rfl
  close _ := true

/-- Small numbers are written as one digit, and others cannot be. -/
def marshalDigit (n : ℕ) : Option (List UInt8) := if n < 10 then some [0x30 + n.toUInt8] else none

theorem log_first_part_digits :
    ((writes (fullDisk 5) marshalDigit (createLog []) [7, 12, 8, 9, 6]).1.content (fullDisk 5) =
      [0x37, 0x0a, 0x38, 0x0a, 0x39]) ∧
    (writes (fullDisk 5) marshalDigit (createLog []) [7, 12, 8, 9, 6]).2 =
      [true, false, true, false, false] ∧
    [0x37, 0x0a, 0x38, 0x0a, 0x39] <+: unlines (texts marshalDigit [7, 12, 8, 9, 6]) := by
  have hcontent : (writes (fullDisk 5) marshalDigit (createLog []) [7, 12, 8, 9, 6]).1.content
      (fullDisk 5) = [0x37, 0x0a, 0x38, 0x0a, 0x39] := by decide
  have hwrites : writes (fullDisk 5) marshalDigit (createLog []) [7, 12, 8, 9, 6] =
      (_, [true, false, true, false, false]) := rfl
  have h := log_first_part rfl hwrites
  exact ⟨hcontent, by decide, h.1⟩

end DnsTools
