import KeyAudit.Proofs.Toml.Returned.Scalar

namespace KeyAudit.Toml

variable {s t : List Char}

theorem bareKey_returned (h : Returned s t) : ReadAlike (bareKey s) (bareKey t) := by
  rw [bareKey, bareKey, takeWhile_returned h ⟨rfl, rfl⟩]
  split
  · exact .none
  · exact .some ⟨rfl, dropWhile_returned h ⟨rfl, rfl⟩⟩

theorem keyPart_returned (h : Returned s t) : ReadAlike (keyPart s) (keyPart t) := by
  have hblank := skipBlank_returned h
  have hpart : ReadAlike ((lineText (skipBlank s)).or (bareKey (skipBlank s)))
      ((lineText (skipBlank t)).or (bareKey (skipBlank t))) :=
    or_rel (lineText_returned hblank) (bareKey_returned hblank)
  exact hpart.map fun _ _ _ h ↦ ⟨rfl, skipBlank_returned h⟩

theorem key_returned (h : Returned s t) : ReadAlike (key s) (key t) := by
  have hkeys : ReadAlike (keyParts.sepBy '.' s) (keyParts.sepBy '.' t) :=
    sepBy_returned (fun _ _ ↦ keyPart_returned) rfl h
  rw [key, key]
  obtain ⟨hs, ht⟩ | ⟨path, s', t', hs, ht, h'⟩ := hkeys.cases
  · rw [hs, ht]
    exact .none
  · rw [hs, ht]
    rw [Option.filter_some, Option.filter_some]
    dsimp only
    split
    · exact .some ⟨rfl, h'⟩
    · exact .none

theorem scalar_returned (h : Returned s t) : ReadAlike (scalar s) (scalar t) := by
  rw [scalar, scalar]
  obtain ⟨hs, ht⟩ | ⟨x, s', t', hs, ht, h'⟩ := (text_returned h).cases
  · rw [hs, ht]
    have hwords := or_rel (word_returned h (w := ['t', 'r', 'u', 'e']) rfl)
      (word_returned h (w := ['f', 'a', 'l', 's', 'e']) rfl)
    have hplain := or_rel hwords (or_rel (moment_returned h) (number_returned h))
    exact map_rel hplain fun _ _ h ↦ ⟨rfl, h⟩
  · rw [hs, ht]
    exact .some ⟨rfl, h'⟩

section

variable {value : Reader Item} (hvalue : IgnoresReturns value)
include hvalue

theorem arrayItem_returned (h : Returned s t) : ReadAlike (arrayItem value s) (arrayItem value t) :=
  (hvalue _ _ (skipLayout_returned h false)).map fun _ _ _ h ↦ ⟨rfl, skipLayout_returned h false⟩

theorem arrayTail_returned (h : Returned s t) : ReadAlike (arrayTail value s) (arrayTail value t) := by
  have hend {s t : List Char} (h : Returned s t) : LeaveAlike (arrayEnd s) (arrayEnd t) := by
    rw [arrayEnd, arrayEnd]
    obtain ⟨hs, ht⟩ | ⟨s', t', hs, ht, h'⟩ := cases_of_rel (expect_returned h (c := ',') rfl)
    · rw [hs, ht]
      exact expect_returned h rfl
    · rw [hs, ht]
      exact expect_returned (skipLayout_returned h' false) rfl
  have hlayout := skipLayout_returned h false
  rw [arrayTail, arrayTail]
  obtain ⟨hs, ht⟩ | ⟨s', t', hs, ht, h'⟩ := cases_of_rel (expect_returned hlayout (c := ']') rfl)
  · rw [hs, ht]
    refine (sepBy_returned (fun _ _ ↦ arrayItem_returned hvalue) rfl hlayout).bind ?_
    intro vs s t h
    refine bind_rel (hend h) ?_
    intro s t h
    exact .some ⟨rfl, h⟩
  · rw [hs, ht]
    exact .some ⟨rfl, h'⟩

theorem pair_returned (h : Returned s t) : ReadAlike (pair value s) (pair value t) := by
  refine (key_returned h).bind ?_
  intro path s t h
  refine bind_rel (expect_returned h rfl) ?_
  intro s t h
  refine (hvalue _ _ (skipBlank_returned h)).bind ?_
  intro v s t h
  exact .some ⟨rfl, skipBlank_returned h⟩

theorem inlineTail_returned (h : Returned s t) :
    ReadAlike (inlineTail value s) (inlineTail value t) := by
  have hblank := skipBlank_returned h
  rw [inlineTail, inlineTail]
  obtain ⟨hs, ht⟩ | ⟨s', t', hs, ht, h'⟩ := cases_of_rel (expect_returned hblank (c := '}') rfl)
  · rw [hs, ht]
    refine (sepBy_returned (fun _ _ ↦ pair_returned hvalue) rfl hblank).bind ?_
    intro ps s t h
    refine bind_rel (expect_returned h rfl) ?_
    intro s t h
    change ReadAlike ((Entries.addPairs [] ps).bind _) ((Entries.addPairs [] ps).bind _)
    cases Entries.addPairs [] ps with
    | none => exact .none
    | some es => exact .some ⟨rfl, h⟩
  · rw [hs, ht]
    exact .some ⟨rfl, h'⟩

theorem bracketed_returned (h : Returned s t) : ReadAlike (bracketed value s) (bracketed value t) := by
  rw [bracketed, bracketed]
  obtain ⟨hs, ht⟩ | ⟨s', t', hs, ht, h'⟩ := cases_of_rel (expect_returned h (c := '[') rfl)
  case inr =>
    rw [hs, ht]
    exact arrayTail_returned hvalue h'
  rw [hs, ht]
  dsimp only
  obtain ⟨hs, ht⟩ | ⟨s', t', hs, ht, h'⟩ := cases_of_rel (expect_returned h (c := '{') rfl)
  · rw [hs, ht]
    exact scalar_returned h
  · rw [hs, ht]
    exact inlineTail_returned hvalue h'

end

theorem value_returned (depth : Nat) : IgnoresReturns (value depth) := by
  induction depth with
  | zero => exact fun _ _ ↦ scalar_returned
  | succ depth ih => exact fun _ _ ↦ bracketed_returned ih

theorem headerTail_returned {closing : List Char} (h : Returned s t) (kind : HeaderKind)
    (hclosing : closing.any isBreak = false) :
    ReadAlike (headerTail kind closing s) (headerTail kind closing t) := by
  refine (key_returned h).bind ?_
  intro path s t h
  refine bind_rel (word_returned h hclosing) ?_
  intro s t h
  refine bind_rel (lineEnd_returned h) ?_
  intro s t h
  exact .some ⟨rfl, h⟩

theorem pairLine_returned (h : Returned s t) : ReadAlike (pairLine s) (pairLine t) := by
  refine (pair_returned (value_returned depthLimit) h).bind ?_
  intro p s t h
  refine bind_rel (lineEnd_returned h) ?_
  intro s t h
  exact .some ⟨rfl, h⟩

theorem lineBody_returned (h : Returned s t) : ReadAlike (lineBody s) (lineBody t) := by
  rw [lineBody, lineBody]
  obtain ⟨hs, ht⟩ | ⟨s', t', hs, ht, h'⟩ := cases_of_rel (word_returned h (w := ['[', '[']) rfl)
  case inr =>
    rw [hs, ht]
    exact headerTail_returned h' .element rfl
  rw [hs, ht]
  dsimp only
  obtain ⟨hs, ht⟩ | ⟨s', t', hs, ht, h'⟩ := cases_of_rel (expect_returned h (c := '[') rfl)
  case inr =>
    rw [hs, ht]
    exact headerTail_returned h' .table rfl
  rw [hs, ht]
  dsimp only
  obtain ⟨hs, ht⟩ | ⟨s', t', hs, ht, h'⟩ := cases_of_rel (lineEnd_returned h)
  · rw [hs, ht]
    exact pairLine_returned h
  · rw [hs, ht]
    exact .some ⟨rfl, h'⟩

theorem lines_ignoreReturns : IgnoresReturns lines := by
  intro s t h
  change ReadAlike (line s) (line t)
  rw [line, line]
  by_cases hs : s = []
  · rw [if_pos hs, if_pos (h.eq_nil_iff.1 hs)]
    exact .none
  · rw [if_neg hs, if_neg (hs ∘ h.eq_nil_iff.2)]
    exact lineBody_returned (skipBlank_returned h)

/-- The grammar ends lines with LF and with CR LF in the same places, so that a document says the same
with either. -/
theorem Document.ofText?_returned (h : Returned s t) : ofText? s = ofText? t := by
  have hmark : Returned (dropMark s) (dropMark t) := getD_rel (expect_returned h rfl) h
  obtain ⟨hlines, hrest⟩ := many_returned lines_ignoreReturns hmark
  rw [ofText?, ofText?]
  generalize lines.many (dropMark s) = x at hlines hrest
  generalize lines.many (dropMark t) = y at hlines hrest
  obtain ⟨ls, u⟩ := x
  obtain ⟨ls', v⟩ := y
  obtain rfl : ls = ls' := hlines
  cases hrest <;> rfl

end KeyAudit.Toml
