import KeyAudit.Proofs.Text.Lines

namespace KeyAudit.Text

variable {x κ rest content : Bytes}

/-- The bytes stand somewhere in the content, other than with a CR at their end that an LF follows. -/
def StandsIn (κ content : Bytes) : Prop :=
  ∃ before after, content = before ++ (κ ++ after) ∧
    ¬ (κ.getLast? = some carriageReturn ∧ after.head? = some lineFeed)

theorem standsIn_iff_infix (h : κ.getLast? ≠ some carriageReturn) :
    StandsIn κ content ↔ κ <:+: content := by
  constructor
  · intro hs
    obtain ⟨before, after, rfl, -⟩ := hs
    exact ⟨before, after, List.append_assoc before κ after⟩
  · intro hi
    obtain ⟨before, after, rfl⟩ := hi
    exact ⟨before, after, List.append_assoc before κ after, fun hr ↦ h hr.1⟩

theorem infix_withoutReturn : κ <:+: withoutReturn x ↔
    ∃ before after, x = before ++ (κ ++ after) ∧
      ¬ (κ.getLast? = some carriageReturn ∧ after = []) := by
  unfold withoutReturn
  split
  · rename_i hx
    obtain ⟨y, rfl⟩ := List.getLast?_eq_some_iff.1 hx
    rw [List.dropLast_concat]
    constructor
    · intro h
      obtain ⟨before, after, rfl⟩ := h
      exact ⟨before, after ++ [carriageReturn], by simp, by simp⟩
    · intro h
      obtain ⟨before, after, h, hr⟩ := h
      rcases List.eq_nil_or_concat after with rfl | ⟨after, c, rfl⟩
      · rcases List.eq_nil_or_concat κ with rfl | ⟨κ, c, rfl⟩
        · exact List.nil_infix
        · rw [List.append_nil, List.concat_eq_append, ← List.append_assoc] at h
          obtain rfl := (List.append_singleton_inj.1 h).2
          exact absurd ⟨by simp, rfl⟩ hr
      · rw [List.concat_eq_append, ← List.append_assoc, ← List.append_assoc] at h
        exact ⟨before, after, (List.append_singleton_inj.1 h).1.symm⟩
  · rename_i hx
    constructor
    · intro h
      obtain ⟨before, after, rfl⟩ := h
      refine ⟨before, after, List.append_assoc before κ after, ?_⟩
      intro hr
      obtain ⟨hlast, rfl⟩ := hr
      exact hx (by rw [List.append_nil, List.getLast?_append, hlast]; rfl)
    · intro h
      obtain ⟨before, after, rfl, -⟩ := h
      exact ⟨before, after, List.append_assoc before κ after⟩

theorem eq_append_of_append_lineFeed {before after : Bytes} (hne : κ ≠ []) (hκ : lineFeed ∉ κ)
    (h : x ++ lineFeed :: rest = before ++ (κ ++ after)) :
    (∃ tail, x = before ++ (κ ++ tail) ∧ after = tail ++ lineFeed :: rest) ∨
      ∃ before', rest = before' ++ (κ ++ after) := by
  rcases List.append_eq_append_iff.1 h with ⟨z, rfl, hz⟩ | ⟨z, rfl, hz⟩
  · cases z with
    | nil =>
      obtain ⟨c, κ, rfl⟩ := List.exists_cons_of_ne_nil hne
      exact absurd (by simp [(List.cons.inj hz).1]) hκ
    | cons c z => exact .inr ⟨z, (List.cons.inj hz).2⟩
  · rcases List.append_eq_append_iff.1 hz with ⟨tail, rfl, ha⟩ | ⟨tail, rfl, ha⟩
    · exact .inl ⟨tail, rfl, ha⟩
    · cases tail with
      | nil => exact .inl ⟨[], by simp, ha.symm⟩
      | cons c tail => exact absurd (by simp [(List.cons.inj ha).1]) hκ

theorem standsIn_append_lineFeed (hx : lineFeed ∉ x) (hne : κ ≠ []) (hκ : lineFeed ∉ κ) :
    StandsIn κ (x ++ lineFeed :: rest) ↔ κ <:+: withoutReturn x ∨ StandsIn κ rest := by
  rw [infix_withoutReturn]
  constructor
  · intro h
    obtain ⟨before, after, h, hr⟩ := h
    obtain ⟨tail, rfl, rfl⟩ | ⟨before', rfl⟩ := eq_append_of_append_lineFeed hne hκ h
    · refine .inl ⟨before, tail, rfl, ?_⟩
      intro hend
      obtain ⟨hlast, rfl⟩ := hend
      exact hr ⟨hlast, rfl⟩
    · exact .inr ⟨before', after, rfl, hr⟩
  · intro h
    obtain ⟨before, after, rfl, hr⟩ | ⟨before, after, rfl, hr⟩ := h
    · refine ⟨before, after ++ lineFeed :: rest, by simp, ?_⟩
      intro hend
      cases after with
      | nil => exact hr ⟨hend.1, rfl⟩
      | cons c after => exact hx (by simp [Option.some.inj hend.2])
    · exact ⟨x ++ lineFeed :: before, after, by simp, hr⟩

/-- A search line by line is a search in the whole content, save for a CR that belongs to a line end. -/
theorem exists_mem_lines_having (hne : κ ≠ []) (hκ : lineFeed ∉ κ) :
    (∃ line ∈ lines content, κ <:+: line) ↔ StandsIn κ content := by
  induction content using lines_induction with
  | nil => simp [lines, cutLines, StandsIn, hne]
  | last x hx hx' =>
    simp only [lines_last hx hx', List.mem_singleton, exists_eq_left]
    constructor
    · intro h
      obtain ⟨before, after, rfl⟩ := h
      refine ⟨before, after, List.append_assoc before κ after, ?_⟩
      intro hr
      exact hx (List.mem_append_right _ (List.mem_of_head? hr.2))
    · intro h
      obtain ⟨before, after, rfl, -⟩ := h
      exact ⟨before, after, List.append_assoc before κ after⟩
  | lineFeed x rest hx ih =>
    rw [standsIn_append_lineFeed hx hne hκ, ← ih, lines_lineFeed hx]
    simp only [List.mem_cons, exists_eq_or_imp]

theorem lineFeed_not_mem_of_mem_lines {line : Bytes} (h : line ∈ lines content) :
    lineFeed ∉ line := by
  cases mem_lines.1 h with
  | closed before x after hb hx he =>
    unfold withoutReturn
    split
    · exact fun hm ↦ hx (List.dropLast_subset x hm)
    · exact hx
  | last before x hb hx hne he => exact hx

theorem exists_mem_lines : (∃ line, line ∈ lines content) ↔ content ≠ [] := by
  induction content using lines_induction with
  | nil => simp [lines, cutLines]
  | last x hx hne => simp [lines_last hx hne, hne]
  | lineFeed x rest hx => exact iff_of_true ⟨_, lines_lineFeed hx ▸ List.mem_cons_self⟩ (by simp)

end KeyAudit.Text
