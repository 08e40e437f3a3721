import KeyAudit.Proofs.Text.Lines
import KeyAudit.Proofs.Toml.Returned.Document
import KeyAudit.Template

namespace KeyAudit

namespace Text

variable {content x : Bytes} {cs : List Char}

def withReturns {α : Type} [DecidableEq α] (cr lf : α) (s : List α) : List α :=
  s.flatMap fun a ↦ if a = lf then [cr, lf] else [a]

section

variable {α : Type} [DecidableEq α] {cr lf a : α} {s : List α}

theorem withReturns_append (cr lf : α) (s t : List α) :
    withReturns cr lf (s ++ t) = withReturns cr lf s ++ withReturns cr lf t := List.flatMap_append

theorem withReturns_lineFeed (cr lf : α) (s : List α) :
    withReturns cr lf (lf :: s) = cr :: lf :: withReturns cr lf s := by
  rw [withReturns, List.flatMap_cons, if_pos rfl]
  exact List.cons_append

theorem withReturns_cons_of_ne (h : a ≠ lf) (s : List α) :
    withReturns cr lf (a :: s) = a :: withReturns cr lf s := by
  rw [withReturns, List.flatMap_cons, if_neg h]
  exact List.singleton_append

theorem withReturns_of_notMem (h : lf ∉ s) : withReturns cr lf s = s := by
  induction s with
  | nil => exact List.flatMap_nil
  | cons a s ih =>
    rw [withReturns_cons_of_ne (List.ne_of_not_mem_cons h).symm, ih (List.not_mem_of_not_mem_cons h)]

end

/-- A file without a CR has the same lines, whether they end with LF or with CR LF. -/
theorem lines_withReturns (h : carriageReturn ∉ content) :
    lines (withReturns carriageReturn lineFeed content) = lines content := by
  induction content using lines_induction with
  | nil => rfl
  | last x hx hne => rw [withReturns_of_notMem hx]
  | lineFeed x rest hx ih =>
    rw [List.mem_append, List.mem_cons, not_or, not_or] at h
    obtain ⟨hcr, -, hrest⟩ := h
    have hsplit : withReturns carriageReturn lineFeed (x ++ lineFeed :: rest) =
        (x ++ [carriageReturn]) ++ lineFeed :: withReturns carriageReturn lineFeed rest := by
      rw [withReturns_append, withReturns_of_notMem hx, withReturns_lineFeed, List.append_assoc,
        List.singleton_append]
    have hx' : lineFeed ∉ x ++ [carriageReturn] := by
      rw [List.mem_append, List.mem_singleton, not_or]
      exact ⟨hx, by decide⟩
    have hlast : x.getLast? ≠ some carriageReturn := fun hl ↦ hcr (List.mem_of_getLast? hl)
    rw [hsplit, lines_lineFeed hx', lines_lineFeed hx, ih hrest, withoutReturn, withoutReturn,
      if_neg hlast, List.getLast?_concat, if_pos rfl, List.dropLast_concat]

theorem encode_withReturns (cs : List Char) :
    encode (withReturns '\r' '\n' cs) = withReturns carriageReturn lineFeed (encode cs) := by
  induction cs with
  | nil => rfl
  | cons c cs ih =>
    by_cases hc : c = '\n'
    · subst hc
      rw [withReturns_lineFeed, encode_cons, encode_cons, encode_cons, ih]
      exact (withReturns_lineFeed carriageReturn lineFeed (encode cs)).symm
    · have hbytes : lineFeed ∉ String.utf8EncodeChar c := by
        intro hmem
        rcases utf8EncodeChar_cases c with ⟨b, -, hb, hcb⟩ | hge
        · rw [hb, List.mem_singleton] at hmem
          exact hc (hcb.trans (hmem ▸ rfl))
        · exact hge _ hmem (by decide)
      rw [withReturns_cons_of_ne hc, encode_cons, encode_cons, ih, withReturns_append,
        withReturns_of_notMem hbytes]

theorem return_notMem_of_encode (h : carriageReturn ∉ encode cs) : '\r' ∉ cs :=
  fun hc ↦ h (List.mem_flatMap.2 ⟨'\r', hc, by decide⟩)

theorem ofUtf8?_withReturns (h : carriageReturn ∉ content) :
    ofUtf8? (withReturns carriageReturn lineFeed content) =
      (ofUtf8? content).map fun s ↦ String.ofList (withReturns '\r' '\n' s.toList) := by
  cases hs : ofUtf8? content with
  | some s =>
    rw [eq_encode_of_ofUtf8? hs, ← encode_withReturns, ofUtf8?_encode, Option.map_some]
  | none =>
    rw [Option.map_none, ← Option.not_isSome_iff_eq_none, ← forall_lines_isSome_ofUtf8?,
      lines_withReturns h, forall_lines_isSome_ofUtf8?, hs]
    exact Bool.false_ne_true

end Text

open Text

namespace Toml

variable {s : List Char}

theorem returned_withReturns (h : '\r' ∉ s) : Returned s (withReturns '\r' '\n' s) := by
  induction s with
  | nil => exact .nil
  | cons c s ih =>
    rw [List.mem_cons, not_or] at h
    obtain ⟨hc, hs⟩ := h
    by_cases hn : c = '\n'
    · subst hn
      rw [withReturns_lineFeed]
      exact .lineEnd (ih hs)
    · have hbreak : isBreak c = false := by
        rw [isBreak, beq_false_of_ne hn, beq_false_of_ne (Ne.symm hc), Bool.false_or]
      rw [withReturns_cons_of_ne hn]
      exact .cons hbreak (ih hs)

/-- A document without a CR says the same, whether its lines end with LF or with CR LF. It may be one
that cannot be read. -/
theorem Document.ofText?_withReturns (h : '\r' ∉ s) :
    ofText? (withReturns '\r' '\n' s) = ofText? s := (ofText?_returned (returned_withReturns h)).symm

end Toml

theorem Template.ofToml?_withReturns {content : String} (h : '\r' ∉ content.toList) :
    ofToml? (String.ofList (withReturns '\r' '\n' content.toList)) = ofToml? content := by
  rw [ofToml?, ofToml?, String.toList_ofList, Toml.Document.ofText?_withReturns h]

end KeyAudit
