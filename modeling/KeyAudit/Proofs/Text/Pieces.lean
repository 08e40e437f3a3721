import KeyAudit.Proofs.Text.Lines

namespace KeyAudit.Text

variable {x rest b piece : Bytes}

/-- What each LF ends, and what stands behind the last LF if anything does. A CR counts as any other byte. -/
def pieces (b : Bytes) : List Bytes :=
  if (b.splitOn lineFeed).getLast? = some [] then (b.splitOn lineFeed).dropLast
  else b.splitOn lineFeed

theorem pieces_lineFeed (hx : lineFeed ∉ x) : pieces (x ++ lineFeed :: rest) = x :: pieces rest := by
  obtain ⟨y, ys, hrest⟩ := List.exists_cons_of_ne_nil (List.splitOn_ne_nil lineFeed rest)
  rw [pieces, pieces, List.splitOn_append_cons_self_of_not_mem hx, hrest, List.getLast?_cons_cons,
    List.dropLast_cons_cons]
  split <;> rfl

theorem pieces_last (hx : lineFeed ∉ x) (hne : x ≠ []) : pieces x = [x] := by
  rw [pieces, List.splitOn_eq_singleton hx, if_neg]
  simpa using hne

theorem lineFeed_notMem_of_mem_pieces (h : piece ∈ pieces b) : lineFeed ∉ piece := by
  induction b using lines_induction with
  | nil => cases h
  | last x hx hne =>
    rw [pieces_last hx hne, List.mem_singleton] at h
    exact h ▸ hx
  | lineFeed x rest hx ih =>
    rw [pieces_lineFeed hx] at h
    rcases List.mem_cons.1 h with rfl | h
    · exact hx
    · exact ih h

end KeyAudit.Text
