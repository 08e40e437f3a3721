import KeyAudit.Proofs.Toml.Returned.Basic

namespace KeyAudit.Toml

variable {p : Char → Bool} {c : Char} {s t : List Char}

theorem digit_returned (h : Returned s t) : ReadAlike (digit s) (digit t) := by
  cases h with
  | nil => exact .none
  | cons _ h =>
    rw [digit, digit]
    split
    · exact .some ⟨rfl, h⟩
    · exact .none
  | lineEnd => exact .none

theorem twoDigits_returned (h : Returned s t) : ReadAlike (twoDigits s) (twoDigits t) := by
  refine (digit_returned h).bind ?_
  intro a s t h
  refine (digit_returned h).bind ?_
  intro b s t h
  exact .some ⟨rfl, h⟩

theorem date_returned (h : Returned s t) : LeaveAlike (date s) (date t) := by
  refine (twoDigits_returned h).bind ?_
  intro century s t h
  refine (twoDigits_returned h).bind ?_
  intro year s t h
  refine bind_rel (expect_returned h rfl) ?_
  intro s t h
  refine (twoDigits_returned h).bind ?_
  intro month s t h
  refine bind_rel (expect_returned h rfl) ?_
  intro s t h
  refine (twoDigits_returned h).bind ?_
  intro day s t h
  exact guard_rel (.some h)

theorem secondFraction_returned (h : Returned s t) :
    Returned (secondFraction s) (secondFraction t) := by
  have hdigit : ReadAlike ((expect '.' s).bind digit) ((expect '.' t).bind digit) :=
    bind_rel (expect_returned h rfl) fun _ _ h ↦ digit_returned h
  rw [secondFraction, secondFraction]
  obtain ⟨hs, ht⟩ | ⟨_, s', t', hs, ht, h'⟩ := hdigit.cases
  · rw [hs, ht]
    exact h
  · rw [hs, ht]
    exact dropWhile_returned h' ⟨rfl, rfl⟩

theorem clock_returned (h : Returned s t) : LeaveAlike (clock s) (clock t) := by
  refine (twoDigits_returned h).bind ?_
  intro hour s t h
  refine bind_rel (expect_returned h rfl) ?_
  intro s t h
  refine (twoDigits_returned h).bind ?_
  intro minute s t h
  refine bind_rel (expect_returned h rfl) ?_
  intro s t h
  refine (twoDigits_returned h).bind ?_
  intro second s t h
  exact guard_rel (.some (secondFraction_returned h))

theorem offset_returned (h : Returned s t) : LeaveAlike (offset s) (offset t) := by
  cases h with
  | nil => exact .none
  | @cons c s t _ h =>
    rw [offset, offset]
    by_cases hutc : c = 'Z' ∨ c = 'z'
    · rw [if_pos hutc, if_pos hutc]
      exact .some h
    rw [if_neg hutc, if_neg hutc]
    by_cases hsign : isSign c = true
    · rw [if_pos hsign, if_pos hsign]
      refine (twoDigits_returned h).bind ?_
      intro hour s t h
      refine bind_rel (expect_returned h rfl) ?_
      intro s t h
      refine (twoDigits_returned h).bind ?_
      intro minute s t h
      exact guard_rel (.some h)
    · rw [if_neg hsign, if_neg hsign]
      exact .none
  | lineEnd => exact .none

theorem moment_returned (h : Returned s t) : LeaveAlike (moment s) (moment t) := by
  rw [moment, moment]
  obtain ⟨hs, ht⟩ | ⟨s', t', hs, ht, h'⟩ := cases_of_rel (date_returned h)
  · rw [hs, ht]
    exact clock_returned h
  · rw [hs, ht]
    cases h' with
    | nil => exact .some .nil
    | @cons c s t hc h =>
      have hclock : LeaveAlike (if isDateTimeSeparator c then clock s else none)
          (if isDateTimeSeparator c then clock t else none) := by
        split
        · exact clock_returned h
        · exact .none
      dsimp only
      obtain ⟨hu, hv⟩ | ⟨u, v, hu, hv, hrest⟩ := cases_of_rel hclock
      · rw [hu, hv]
        exact .some (.cons hc h)
      · rw [hu, hv]
        exact .some (getD_rel (offset_returned hrest) hrest)
    | lineEnd h => exact .some (.lineEnd h)

theorem digitsFrom_returned {done : List Char} (h : Returned s t)
    (hp : p '\n' = false ∧ p '\r' = false) :
    (digitsFrom p done s).1 = (digitsFrom p done t).1 ∧
      Returned (digitsFrom p done s).2 (digitsFrom p done t).2 := by
  fun_induction digitsFrom p done s generalizing t with
  | case1 done c r hc ih =>
    cases h with
    | cons hmark h =>
      cases h with
      | cons hbreak h =>
        rw [digitsFrom, if_pos hc]
        exact ih h
      | lineEnd => simp [hp.1] at hc
  | case2 done c r hc =>
    cases h with
    | cons hmark h =>
      cases h with
      | cons hbreak h =>
        rw [digitsFrom, if_neg hc]
        exact ⟨rfl, .cons hmark (.cons hbreak h)⟩
      | lineEnd h =>
        rw [digitsFrom, if_neg (by simp [hp.2])]
        exact ⟨rfl, .cons hmark (.lineEnd h)⟩
  | case3 done c r hmark hc ih =>
    cases h with
    | cons hbreak h =>
      rw [digitsFrom, if_pos hc]
      · exact ih h
      · exact fun d u he hu ↦ (h.exists_cons hu).elim fun _ ⟨_, hr⟩ ↦ hmark _ _ he hr
    | lineEnd => simp [hp.1] at hc
  | case4 done c r hmark hc =>
    cases h with
    | cons hbreak h =>
      rw [digitsFrom, if_neg hc]
      · exact ⟨rfl, .cons hbreak h⟩
      · exact fun d u he hu ↦ (h.exists_cons hu).elim fun _ ⟨_, hr⟩ ↦ hmark _ _ he hr
    | lineEnd h =>
      rw [digitsFrom, if_neg (by simp [hp.2])]
      · exact ⟨rfl, .lineEnd h⟩
      · exact fun d u he ↦ absurd he (by decide)
  | case5 done =>
    cases h
    exact ⟨rfl, .nil⟩

theorem digits_returned (h : Returned s t) (hp : p '\n' = false ∧ p '\r' = false) :
    ReadAlike (digits p s) (digits p t) := by
  cases h with
  | nil => exact .none
  | cons _ h =>
    rw [digits, digits]
    split
    · exact .some (digitsFrom_returned h hp)
    · exact .none
  | lineEnd =>
    rw [digits, digits, if_neg (by simp [hp.1]), if_neg (by simp [hp.2])]
    exact .none

theorem wholeDigits_returned (h : Returned s t) : ReadAlike (wholeDigits s) (wholeDigits t) := by
  rw [wholeDigits, wholeDigits]
  obtain ⟨hs, ht⟩ | ⟨s', t', hs, ht, h'⟩ := cases_of_rel (expect_returned h (c := '0') rfl)
  · rw [hs, ht]
    exact digits_returned h ⟨rfl, rfl⟩
  · rw [hs, ht]
    exact .some ⟨rfl, h'⟩

theorem fraction_returned (h : Returned s t) : ReadAlike (fraction s) (fraction t) := by
  rw [fraction, fraction]
  obtain ⟨hs, ht⟩ | ⟨s', t', hs, ht, h'⟩ := cases_of_rel (expect_returned h (c := '.') rfl)
  · rw [hs, ht]
    exact .some ⟨rfl, h⟩
  · rw [hs, ht]
    exact digits_returned h' ⟨rfl, rfl⟩

theorem sign_returned (h : Returned s t) : (sign s).1 = (sign t).1 ∧ Returned (sign s).2 (sign t).2 := by
  rw [sign, sign]
  obtain ⟨hs, ht⟩ | ⟨s', t', hs, ht, h'⟩ := cases_of_rel (expect_returned h (c := '-') rfl)
  · rw [hs, ht]
    exact ⟨rfl, getD_rel (expect_returned h rfl) h⟩
  · rw [hs, ht]
    exact ⟨rfl, h'⟩

theorem exponentValue_returned (h : Returned s t) (negative : Bool) :
    ReadAlike (exponentValue negative s) (exponentValue negative t) :=
  (digits_returned h ⟨rfl, rfl⟩).map fun _ _ _ h ↦ ⟨rfl, h⟩

theorem exponent_returned (h : Returned s t) : ReadAlike (exponent s) (exponent t) := by
  have hletter : LeaveAlike ((expect 'e' s).or (expect 'E' s)) ((expect 'e' t).or (expect 'E' t)) :=
    or_rel (expect_returned h rfl) (expect_returned h rfl)
  rw [exponent, exponent]
  obtain ⟨hs, ht⟩ | ⟨s', t', hs, ht, h'⟩ := cases_of_rel hletter
  · rw [hs, ht]
    exact .some ⟨rfl, h⟩
  · rw [hs, ht]
    obtain ⟨hsign, hrest⟩ := sign_returned h'
    dsimp only
    rw [hsign]
    exact exponentValue_returned hrest _

theorem decimal_returned (h : Returned s t) (negative : Bool) :
    LeaveAlike (decimal negative s) (decimal negative t) := by
  refine (wholeDigits_returned h).bind ?_
  intro whole s t h
  refine (fraction_returned h).bind ?_
  intro part s t h
  refine (exponent_returned h).bind ?_
  intro e s t h
  exact guard_rel (.some h)

theorem based_returned (h : Returned s t) (base : Nat) : LeaveAlike (based base s) (based base t) := by
  refine (digits_returned h ⟨rfl, rfl⟩).bind ?_
  intro ds s t h
  exact guard_rel (.some h)

theorem radix_returned (h : Returned s t) : ReadAlike (radix s) (radix t) := by
  have hbase (w : List Char) (hw : w.any isBreak = false) (base : Nat) :
      ReadAlike ((word w s).map (base, ·)) ((word w t).map (base, ·)) :=
    map_rel (word_returned h hw) fun _ _ h ↦ ⟨rfl, h⟩
  exact or_rel (hbase _ rfl 16) (or_rel (hbase _ rfl 8) (hbase _ rfl 2))

theorem signed_returned (h : Returned s t) (negative : Bool) :
    LeaveAlike (signed negative s) (signed negative t) :=
  or_rel (or_rel (word_returned h rfl) (word_returned h rfl)) (decimal_returned h negative)

theorem number_returned (h : Returned s t) : LeaveAlike (number s) (number t) := by
  rw [number, number]
  obtain ⟨hs, ht⟩ | ⟨base, s', t', hs, ht, h'⟩ := (radix_returned h).cases
  · rw [hs, ht]
    obtain ⟨hsign, hrest⟩ := sign_returned h
    dsimp only
    rw [hsign]
    exact signed_returned hrest _
  · rw [hs, ht]
    exact based_returned h' base

theorem take_returned (h : Returned s t) (n : Nat) :
    (n ≤ s.length ∧ n ≤ t.length ∧ s.take n = t.take n ∧ Returned (s.drop n) (t.drop n)) ∨
      (s.length < n ∧ t.length < n) ∨ ('\n' ∈ s.take n ∧ '\r' ∈ t.take n) := by
  induction n generalizing s t with
  | zero => exact .inl ⟨Nat.zero_le _, Nat.zero_le _, rfl, h⟩
  | succ n ih =>
    cases h with
    | nil => exact .inr (.inl ⟨Nat.succ_pos n, Nat.succ_pos n⟩)
    | lineEnd => exact .inr (.inr ⟨List.mem_cons_self, List.mem_cons_self⟩)
    | @cons c s t hc h =>
      obtain ⟨hs, ht, htake, hdrop⟩ | ⟨hs, ht⟩ | ⟨hs, ht⟩ := ih h
      · exact .inl ⟨Nat.succ_le_succ hs, Nat.succ_le_succ ht, congrArg (c :: ·) htake, hdrop⟩
      · exact .inr (.inl ⟨Nat.succ_lt_succ hs, Nat.succ_lt_succ ht⟩)
      · exact .inr (.inr ⟨List.mem_cons_of_mem c hs, List.mem_cons_of_mem c ht⟩)

theorem hexFrom_eq_none {cs : List Char} (hc : Text.hexDigit? c = none) (hmem : c ∈ cs) (n : Nat) :
    Text.hexFrom n cs = none := by
  induction cs generalizing n with
  | nil => cases hmem
  | cons d cs ih =>
    rw [Text.hexFrom]
    obtain rfl | hmem := List.mem_cons.1 hmem
    · rw [hc, Option.bind_none]
    · cases Text.hexDigit? d with
      | none => rfl
      | some v => exact ih hmem _

theorem codePoint_eq_none {n : Nat} (hc : Text.hexDigit? c = none) (hmem : c ∈ s.take n) :
    codePoint n s = none := by
  rw [codePoint, Text.hexValue, hexFrom_eq_none hc hmem]
  exact ite_self none

theorem codePoint_returned (h : Returned s t) (n : Nat) :
    ReadAlike (codePoint n s) (codePoint n t) := by
  obtain ⟨hs, ht, htake, hdrop⟩ | ⟨hs, ht⟩ | ⟨hs, ht⟩ := take_returned h n
  · rw [codePoint, codePoint, if_pos hs, if_pos ht, htake]
    cases (Text.hexValue (t.take n)).bind Text.scalar? with
    | none => exact .none
    | some c => exact .some ⟨rfl, hdrop⟩
  · rw [codePoint, codePoint, if_neg (by omega), if_neg (by omega)]
    exact .none
  · rw [codePoint_eq_none (by decide) hs, codePoint_eq_none (by decide) ht]
    exact .none

theorem escape_returned (h : Returned s t) : ReadAlike (escape s) (escape t) := by
  cases h with
  | nil => exact .none
  | @cons c s t _ h =>
    rw [escape, escape]
    split
    · exact codePoint_returned h 4
    split
    · exact codePoint_returned h 8
    · cases shortEscape? c with
      | none => exact .none
      | some x => exact .some ⟨rfl, h⟩
  | lineEnd => exact .none

theorem basicFrom_of_escape {done : List Char} (s : List Char) :
    basicFrom done ('\\' :: s) = (escape s).bind fun (x, r) ↦ basicFrom (x :: done) r := by
  rw [basicFrom, if_neg (by decide), if_pos rfl]
  split <;> rename_i he <;> rw [he] <;> rfl

theorem basicFrom_of_ne {done : List Char} (hquote : c ≠ '"') (hback : c ≠ '\\') (s : List Char) :
    basicFrom done (c :: s) = if isLegal c then basicFrom (c :: done) s else none := by
  rw [basicFrom, if_neg hquote, if_neg hback]

theorem basicFrom_returned (h : Returned s t) (done : List Char) :
    ReadAlike (basicFrom done s) (basicFrom done t) := by
  induction hn : s.length using Nat.strongRecOn generalizing s t done with
  | ind n ih =>
    cases h with
    | nil =>
      rw [basicFrom]
      exact .none
    | lineEnd =>
      rw [basicFrom_of_ne (by decide) (by decide), basicFrom_of_ne (by decide) (by decide)]
      exact .none
    | @cons c s t hc h =>
      have hlt : s.length < n := by
        rw [← hn]
        exact Nat.lt_succ_self _
      by_cases hquote : c = '"'
      · rw [basicFrom, basicFrom, if_pos hquote, if_pos hquote]
        exact .some ⟨rfl, h⟩
      by_cases hback : c = '\\'
      · subst hback
        rw [basicFrom_of_escape, basicFrom_of_escape]
        obtain ⟨hs, ht⟩ | ⟨x, s', t', hs, ht, h'⟩ := (escape_returned h).cases
        · rw [hs, ht]
          exact .none
        · rw [hs, ht]
          exact ih _ (Nat.lt_trans (escape_shorter hs) hlt) h' _ rfl
      · rw [basicFrom_of_ne hquote hback, basicFrom_of_ne hquote hback]
        split
        · exact ih _ hlt h _ rfl
        · exact .none

theorem literalFrom_returned (h : Returned s t) (done : List Char) :
    ReadAlike (literalFrom done s) (literalFrom done t) := by
  induction h generalizing done with
  | nil => exact .none
  | lineEnd => exact .none
  | @cons c s t _ h ih =>
    rw [literalFrom, literalFrom]
    split
    · exact .some ⟨rfl, h⟩
    split
    · exact ih _
    · exact .none

theorem closing_returned {quote : Char} (h : Returned s t) (hq : isBreak quote = false)
    (done : List Char) : (closing quote done s).1 = (closing quote done t).1 ∧
      Returned (closing quote done s).2 (closing quote done t).2 := by
  rw [closing, closing]
  obtain ⟨hs, ht⟩ | ⟨s', t', hs, ht, h'⟩ := cases_of_rel (expect_returned h hq)
  · rw [hs, ht]
    exact ⟨rfl, h⟩
  rw [hs, ht]
  dsimp only
  obtain ⟨hs, ht⟩ | ⟨s'', t'', hs, ht, h''⟩ := cases_of_rel (expect_returned h' hq)
  · rw [hs, ht]
    exact ⟨rfl, h'⟩
  · rw [hs, ht]
    exact ⟨rfl, h''⟩

theorem literalPart_returned (h : Returned s t) : ReadAlike (literalPart s) (literalPart t) := by
  unfold literalPart
  obtain ⟨hs, ht⟩ | ⟨s', t', hs, ht, h'⟩ := cases_of_rel (newline_returned h)
  · rw [hs, ht]
    cases h with
    | nil => exact .none
    | lineEnd => cases hs
    | cons _ h =>
      dsimp only
      split
      · exact .some ⟨rfl, h⟩
      · exact .none
  · rw [hs, ht]
    exact .some ⟨rfl, h'⟩

theorem escapedPart_returned (h : Returned s t) : ReadAlike (escapedPart s) (escapedPart t) := by
  rw [escapedPart, escapedPart]
  obtain ⟨hs, ht⟩ | ⟨s', t', hs, ht, h'⟩ := cases_of_rel (newline_returned (skipBlank_returned h))
  · rw [hs, ht]
    exact (escape_returned h).map fun _ _ _ h ↦ ⟨rfl, h⟩
  · rw [hs, ht]
    exact .some ⟨rfl, skipBreaks_returned h'⟩

theorem basicPart_returned (h : Returned s t) : ReadAlike (basicPart s) (basicPart t) := by
  rw [basicPart, basicPart]
  obtain ⟨hs, ht⟩ | ⟨s', t', hs, ht, h'⟩ := cases_of_rel (expect_returned h (c := '\\') rfl)
  · rw [hs, ht]
    exact literalPart_returned h
  · rw [hs, ht]
    exact escapedPart_returned h'

theorem partsFrom_eq (part : Reader (List Char)) (quote : Char) (done s : List Char) :
    partsFrom part quote done s = match word [quote, quote, quote] s with
      | some r => some (closing quote done r)
      | none => (part.read s).bind fun (x, r) ↦ partsFrom part quote (x ++ done) r := by
  rw [partsFrom]
  cases word [quote, quote, quote] s with
  | some r => rfl
  | none =>
    dsimp only
    split <;> rename_i h <;> rw [h] <;> rfl

theorem partsFrom_returned {part : Reader (List Char)} {quote : Char} (hpart : IgnoresReturns part)
    (hquote : isBreak quote = false) (h : Returned s t) (done : List Char) :
    ReadAlike (partsFrom part quote done s) (partsFrom part quote done t) := by
  induction hn : s.length using Nat.strongRecOn generalizing s t done with
  | ind n ih =>
    subst hn
    have hquotes : [quote, quote, quote].any isBreak = false := by simp [hquote]
    rw [partsFrom_eq, partsFrom_eq]
    obtain ⟨hs, ht⟩ | ⟨s', t', hs, ht, h'⟩ := cases_of_rel (word_returned h hquotes)
    · rw [hs, ht]
      dsimp only
      obtain ⟨hs, ht⟩ | ⟨x, s', t', hs, ht, h'⟩ := (hpart s t h).cases
      · rw [hs, ht]
        exact .none
      · rw [hs, ht]
        exact ih _ (part.shorter hs) h' _ rfl
    · rw [hs, ht]
      exact .some (closing_returned h' hquote done)

theorem dropLineEnd_returned (h : Returned s t) : Returned (dropLineEnd s) (dropLineEnd t) :=
  getD_rel (newline_returned h) h

theorem lineText_returned (h : Returned s t) : ReadAlike (lineText s) (lineText t) :=
  or_rel (bind_rel (expect_returned h rfl) fun _ _ h ↦ basicFrom_returned h [])
    (bind_rel (expect_returned h rfl) fun _ _ h ↦ literalFrom_returned h [])

theorem text_returned (h : Returned s t) : ReadAlike (text s) (text t) := by
  rw [text, text]
  obtain ⟨hs, ht⟩ | ⟨s', t', hs, ht, h'⟩ := cases_of_rel (word_returned h (w := ['"', '"', '"']) rfl)
  case inr =>
    rw [hs, ht]
    exact partsFrom_returned (fun _ _ ↦ basicPart_returned) rfl (dropLineEnd_returned h') []
  rw [hs, ht]
  dsimp only
  obtain ⟨hs, ht⟩ | ⟨s', t', hs, ht, h'⟩ :=
    cases_of_rel (word_returned h (w := ['\'', '\'', '\'']) rfl)
  · rw [hs, ht]
    exact lineText_returned h
  · rw [hs, ht]
    exact partsFrom_returned (fun _ _ ↦ literalPart_returned) rfl (dropLineEnd_returned h') []

end KeyAudit.Toml
