import KeyAudit.Proofs.Text.Encoding
import KeyAudit.Text.Lines

namespace KeyAudit.Text

variable {x rest content : Bytes}

def withoutReturn (x : Bytes) : Bytes :=
  if x.getLast? = some carriageReturn then x.dropLast else x

theorem closedLine_reverse (x : Bytes) : closedLine x.reverse = withoutReturn x := by
  rcases List.eq_nil_or_concat x with rfl | ⟨x, b, rfl⟩
  · rfl
  · rw [List.concat_eq_append, List.reverse_concat, closedLine, withoutReturn, List.getLast?_concat,
      List.dropLast_concat]
    simp

theorem cutLines_append (hx : lineFeed ∉ x) (line : Bytes) (done : List Bytes) :
    cutLines (x ++ rest) line done = cutLines rest (x.reverse ++ line) done := by
  induction x generalizing line with
  | nil => rfl
  | cons b x ih =>
    have hb : b ≠ lineFeed := (List.ne_of_not_mem_cons hx).symm
    rw [List.cons_append, cutLines, if_neg hb, ih (List.not_mem_of_not_mem_cons hx),
      List.reverse_cons, List.append_assoc]
    rfl

theorem lines_lineFeed (hx : lineFeed ∉ x) :
    lines (x ++ lineFeed :: rest) = withoutReturn x :: lines rest := by
  rw [lines, cutLines_append hx, cutLines, if_pos rfl, cutLines_done, List.append_nil,
    closedLine_reverse]
  rfl

theorem lines_last (hx : lineFeed ∉ x) (hne : x ≠ []) : lines x = [x] := by
  have h : cutLines (x ++ []) [] [] = cutLines [] (x.reverse ++ []) [] := cutLines_append hx [] []
  rw [List.append_nil, List.append_nil] at h
  rw [lines, h]
  cases hr : x.reverse with
  | nil => exact absurd (List.reverse_eq_nil_iff.1 hr) hne
  | cons b r =>
    rw [cutLines, ← hr, List.reverse_reverse]
    rfl

theorem lines_induction {motive : Bytes → Prop} (nil : motive [])
    (last : ∀ x, lineFeed ∉ x → x ≠ [] → motive x)
    (lineFeed : ∀ x rest, lineFeed ∉ x → motive rest → motive (x ++ lineFeed :: rest))
    (content : Bytes) : motive content := by
  induction hl : content.length using Nat.strongRecOn generalizing content with
  | ind k ih =>
    by_cases h : Text.lineFeed ∈ content
    · obtain ⟨x, rest, rfl, hx⟩ := List.eq_append_cons_of_mem h
      refine lineFeed x rest hx (ih rest.length ?_ rest rfl)
      rw [← hl, List.length_append, List.length_cons]
      omega
    · by_cases hne : content = []
      · exact hne ▸ nil
      · exact last content h hne

theorem isSome_ofUtf8?_withoutReturn : (ofUtf8? (withoutReturn x)).isSome ↔ (ofUtf8? x).isSome := by
  unfold withoutReturn
  split
  · rename_i h
    obtain ⟨y, rfl⟩ := List.getLast?_eq_some_iff.1 h
    rw [List.dropLast_concat, isSome_ofUtf8?_append_cons (by decide)]
    exact (and_iff_left (by decide)).symm
  · exact Iff.rfl

theorem forall_lines_isSome_ofUtf8? (content : Bytes) :
    (∀ line ∈ lines content, (ofUtf8? line).isSome) ↔ (ofUtf8? content).isSome := by
  induction content using lines_induction with
  | nil => exact ⟨fun _ ↦ by decide, fun _ _ h ↦ nomatch h⟩
  | last x hx hne => simp [lines_last hx hne]
  | lineFeed x rest hx ih =>
    rw [lines_lineFeed hx, List.forall_mem_cons, ih, isSome_ofUtf8?_withoutReturn,
      isSome_ofUtf8?_append_cons (by decide)]

def StartsLine (before : Bytes) : Prop := ∀ b ∈ before.getLast?, b = lineFeed

/-- A line reaches from the start or from an LF to the next LF, without one CR in front of that; or to the
end, if anything stands there. -/
inductive IsLine (content : Bytes) : Bytes → Prop
  | closed (before x after : Bytes) : StartsLine before → lineFeed ∉ x →
    content = before ++ (x ++ lineFeed :: after) → IsLine content (withoutReturn x)
  | last (before x : Bytes) : StartsLine before → lineFeed ∉ x → x ≠ [] →
    content = before ++ x → IsLine content x

theorem startsLine_nil : StartsLine [] := nofun

theorem startsLine_append_cons {before : Bytes} :
    StartsLine (x ++ lineFeed :: before) ↔ StartsLine before := by
  unfold StartsLine
  rw [List.getLast?_append, List.getLast?_cons]
  cases before.getLast? <;> simp

theorem append_lineFeed_inj {y rest' : Bytes} (hx : lineFeed ∉ x) (hy : lineFeed ∉ y)
    (h : x ++ lineFeed :: rest = y ++ lineFeed :: rest') : x = y ∧ rest = rest' := by
  rcases List.append_eq_append_iff.1 h with ⟨as, rfl, has⟩ | ⟨as, rfl, has⟩
  · cases as with
    | nil => exact ⟨(List.append_nil x).symm, (List.cons.inj has).2⟩
    | cons b as => exact absurd (by simp [(List.cons.inj has).1]) hy
  · cases as with
    | nil => exact ⟨List.append_nil y, (List.cons.inj has).2.symm⟩
    | cons b as => exact absurd (by simp [(List.cons.inj has).1]) hx

theorem StartsLine.eq_nil_or {before tail : Bytes} (hb : StartsLine before) (hx : lineFeed ∉ x)
    (h : x ++ lineFeed :: rest = before ++ tail) :
    before = [] ∨ ∃ before', before = x ++ lineFeed :: before' ∧ StartsLine before' ∧
      rest = before' ++ tail := by
  rcases List.eq_nil_or_concat before with rfl | ⟨b, c, rfl⟩
  · exact .inl rfl
  obtain rfl : c = lineFeed := hb c (by simp)
  have hmem : lineFeed ∈ b.concat lineFeed := by simp
  obtain ⟨y, before', he, hy⟩ := List.eq_append_cons_of_mem hmem
  rw [he, List.append_assoc, List.cons_append] at h
  obtain ⟨rfl, rfl⟩ := append_lineFeed_inj hx hy h
  exact .inr ⟨before', he, startsLine_append_cons.1 (he ▸ hb), rfl⟩

theorem isLine_lineFeed (hx : lineFeed ∉ x) {line : Bytes} :
    IsLine (x ++ lineFeed :: rest) line ↔ line = withoutReturn x ∨ IsLine rest line := by
  constructor
  · intro h
    rcases h with ⟨before, y, after, hb, hy, h⟩ | ⟨before, y, hb, hy, hne, h⟩
    · rcases hb.eq_nil_or hx h with rfl | ⟨before', rfl, hb', hr⟩
      · exact .inl (congrArg withoutReturn (append_lineFeed_inj hx hy h).1.symm)
      · exact .inr (.closed before' y after hb' hy hr)
    · rcases hb.eq_nil_or hx h with rfl | ⟨before', rfl, hb', hr⟩
      · rw [List.nil_append] at h
        exact absurd (h ▸ List.mem_append_right x List.mem_cons_self) hy
      · exact .inr (.last before' _ hb' hy hne hr)
  · intro h
    rcases h with rfl | ⟨before, y, after, hb, hy, h⟩ | ⟨before, y, hb, hy, hne, h⟩
    · exact .closed [] x rest startsLine_nil hx rfl
    · exact .closed (x ++ lineFeed :: before) y after (startsLine_append_cons.2 hb) hy (by simp [h])
    · exact .last (x ++ lineFeed :: before) _ (startsLine_append_cons.2 hb) hy hne (by simp [h])

theorem isLine_last (hx : lineFeed ∉ x) {line : Bytes} : IsLine x line ↔ x ≠ [] ∧ line = x := by
  have hbefore {before tail : Bytes} (hb : StartsLine before) (h : x = before ++ tail) :
      before = [] := by
    rcases List.eq_nil_or_concat before with rfl | ⟨b, c, rfl⟩
    · rfl
    · obtain rfl : c = lineFeed := hb c (by simp)
      exact absurd (by simp [h]) hx
  constructor
  · intro h
    rcases h with ⟨before, y, after, hb, hy, h⟩ | ⟨before, y, hb, hy, hne, h⟩
    · exact absurd (by simp [h]) hx
    · obtain rfl := hbefore hb h
      rw [List.nil_append] at h
      exact ⟨h ▸ hne, h.symm⟩
  · intro h
    obtain ⟨hne, rfl⟩ := h
    exact .last [] line startsLine_nil hx hne rfl

/-- The lines of a file are what stands between its line ends. -/
theorem mem_lines {line : Bytes} : line ∈ lines content ↔ IsLine content line := by
  induction content using lines_induction with
  | nil => simp [isLine_last, lines, cutLines]
  | last x hx hne => simp [lines_last hx hne, isLine_last hx, hne]
  | lineFeed x rest hx ih => rw [lines_lineFeed hx, List.mem_cons, ih, isLine_lineFeed hx]

end KeyAudit.Text
