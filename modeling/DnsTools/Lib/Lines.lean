import DnsTools.Lib.Scanner

/-!
# Writing lines and reading them

Texts written one after another, each with a newline behind it, are read back by a scanner as they
were; of a file that ends too early, the texts in front of the end are, and perhaps a part of the
next one. The texts have no newlines in them, no carriage returns, and the scanner's buffer holds
each of them.

## Main results

* `scan_unlines` — the texts are read back
* `scan_first_part` — and a first part of the file gives a first part of them
-/

namespace Scanner

/-- The texts, each with a newline behind it. -/
def unlines (texts : List (List UInt8)) : List UInt8 := texts.flatMap fun text => text ++ [newline]

/-- A text that is one line. -/
structure Plain (limit : ℕ) (text : List UInt8) : Prop where
  /-- It has no newline. -/
  newline : newline ∉ text
  /-- And no carriage return. -/
  carriageReturn : carriageReturn ∉ text
  /-- It fits into the buffer. -/
  short : text.length < limit

variable {limit : ℕ} {text : List UInt8} {texts : List (List UInt8)}

theorem unlines_append (texts texts' : List (List UInt8)) :
    unlines (texts ++ texts') = unlines texts ++ unlines texts' := List.flatMap_append

theorem Plain.of_first_part {part : List UInt8} (h : Plain limit text) (hpart : part <+: text) :
    Plain limit part where
  newline hmem := h.newline (hpart.subset hmem)
  carriageReturn hmem := h.carriageReturn (hpart.subset hmem)
  short := Nat.lt_of_le_of_lt hpart.length_le h.short

theorem Plain.dropCR_eq (h : Plain limit text) : dropCR text = text :=
  if_neg fun hlast => h.carriageReturn (List.mem_of_getLast? hlast)

/-- The pieces of some texts and a rest. -/
theorem splitOn_unlines (h : ∀ text ∈ texts, Plain limit text) (rest : List UInt8) :
    (unlines texts ++ rest).splitOn newline = texts ++ rest.splitOn newline := by
  induction texts with
  | nil => rfl
  | cons text texts ih =>
    obtain ⟨htext, htexts⟩ := List.forall_mem_cons.mp h
    have hcons : unlines (text :: texts) ++ rest = text ++ newline :: (unlines texts ++ rest) := by
      simp [unlines]
    rw [hcons, List.splitOn_append_cons_self_of_not_mem htext.newline, ih htexts, List.cons_append]

/-- The lines of some texts and a last piece. -/
theorem linesOf_append_singleton (h : ∀ text ∈ texts, Plain limit text) (last : List UInt8) :
    linesOf (texts ++ [last]) = texts ++ linesOf [last] := by
  induction texts with
  | nil => rfl
  | cons text texts ih =>
    obtain ⟨htext, htexts⟩ := List.forall_mem_cons.mp h
    obtain ⟨piece, pieces, hpieces⟩ : ∃ piece pieces, texts ++ [last] = piece :: pieces :=
      List.exists_cons_of_ne_nil (List.concat_ne_nil _ _)
    rw [List.cons_append, hpieces, linesOf_cons_cons, ← hpieces, ih htexts, htext.dropCR_eq,
      List.cons_append]

/-- What is read from some texts and a part of one. -/
theorem scan_unlines_append (h : ∀ text ∈ texts, Plain limit text) {part : List UInt8}
    (hpart : Plain limit part) :
    scan limit ((unlines texts ++ part).splitOn newline) =
      ⟨texts ++ if part = [] then [] else [part], false⟩ := by
  rw [splitOn_unlines h, List.splitOn_eq_singleton hpart.newline]
  rw [scan_of_fits, linesOf_append_singleton h, linesOf, hpart.dropCR_eq]
  intro piece hpiece
  rcases List.mem_append.mp hpiece with hpiece | hpiece
  · exact (h piece hpiece).short
  · exact List.mem_singleton.mp hpiece ▸ hpart.short

/-- **What is written is read back.** -/
theorem scan_unlines (hlimit : 0 < limit) (h : ∀ text ∈ texts, Plain limit text) :
    scan limit ((unlines texts).splitOn newline) = ⟨texts, false⟩ := by
  have hnil : Plain limit [] := ⟨List.not_mem_nil, List.not_mem_nil, hlimit⟩
  have hscan := scan_unlines_append h hnil
  rwa [List.append_nil, if_pos rfl, List.append_nil] at hscan

/-- A first part of a file ends behind a line or within one. -/
theorem first_part_unlines {file : List UInt8} (h : file <+: unlines texts) :
    ∃ k part, file = unlines (texts.take k) ++ part ∧
      (part = [] ∨ ∃ text ∈ texts[k]?, part <+: text) := by
  induction texts generalizing file with
  | nil =>
    obtain rfl := List.prefix_nil.mp h
    exact ⟨0, [], rfl, .inl rfl⟩
  | cons text texts ih =>
    have hcons : unlines (text :: texts) = (text ++ [newline]) ++ unlines texts := rfl
    rw [hcons] at h
    rcases List.prefix_or_prefix_of_prefix h (List.prefix_append _ _) with hshort | ⟨rest, rfl⟩
    · rcases List.prefix_concat_iff.mp hshort with rfl | hpart
      · exact ⟨1, [], by simp [unlines], .inl rfl⟩
      · exact ⟨0, file, rfl, .inr ⟨text, rfl, hpart⟩⟩
    · obtain ⟨k, part, rfl, hpart⟩ := ih ((List.prefix_append_right_inj _).mp h)
      exact ⟨k + 1, part, by rw [List.take_succ_cons, ← List.append_assoc]; rfl, hpart⟩

/-- **A file that ends too early.** The texts up to its end are read, and perhaps a part of the next
one. -/
theorem scan_first_part {file : List UInt8} (hlimit : 0 < limit)
    (h : ∀ text ∈ texts, Plain limit text) (hfile : file <+: unlines texts) :
    ∃ k part, scan limit (file.splitOn newline) =
        ⟨texts.take k ++ if part = [] then [] else [part], false⟩ ∧
      (part = [] ∨ ∃ text ∈ texts[k]?, part <+: text) := by
  obtain ⟨k, part, rfl, hpart⟩ := first_part_unlines hfile
  refine ⟨k, part, ?_, hpart⟩
  refine scan_unlines_append (fun text htext => h text (List.mem_of_mem_take htext)) ?_
  rcases hpart with rfl | ⟨text, htext, hpart⟩
  · exact ⟨List.not_mem_nil, List.not_mem_nil, hlimit⟩
  · exact (h text (List.mem_of_getElem? htext)).of_first_part hpart

end Scanner
