import KeyAudit.Toml.Document

namespace KeyAudit.Toml

variable {α β γ : Type} {p : Char → Bool} {c : Char} {s t : List Char}

def isBreak (c : Char) : Bool := c == '\n' || c == '\r'

/-- The same characters, where a CR stands before each LF of the second text. There is no CR in the first
one. -/
inductive Returned : List Char → List Char → Prop
  | nil : Returned [] []
  | cons {c : Char} {s t : List Char} :
      isBreak c = false → Returned s t → Returned (c :: s) (c :: t)
  | lineEnd {s t : List Char} : Returned s t → Returned ('\n' :: s) ('\r' :: '\n' :: t)

/-- Both readings fail, or what they leave is the same up to its line ends. -/
abbrev LeaveAlike : Option (List Char) → Option (List Char) → Prop := Option.Rel Returned

/-- Both readings fail, or both read the same and leave the same up to its line ends. -/
abbrev ReadAlike {α : Type} : Option (α × List Char) → Option (α × List Char) → Prop :=
  Option.Rel fun x y ↦ x.1 = y.1 ∧ Returned x.2 y.2

namespace ReadAlike

variable {x y : Option (α × List Char)}

theorem cases (h : ReadAlike x y) :
    (x = none ∧ y = none) ∨ ∃ a s t, x = some (a, s) ∧ y = some (a, t) ∧ Returned s t := by
  obtain hnone | ⟨⟨a, s⟩, ⟨b, t⟩, hx, hy, hab, hst⟩ := cases_of_rel h
  · exact .inl hnone
  · obtain rfl : a = b := hab
    exact .inr ⟨a, s, t, hx, hy, hst⟩

theorem bind {S : β → γ → Prop} {f : α × List Char → Option β} {g : α × List Char → Option γ}
    (h : ReadAlike x y) (hfg : ∀ a s t, Returned s t → Option.Rel S (f (a, s)) (g (a, t))) :
    Option.Rel S (x.bind f) (y.bind g) := by
  obtain ⟨rfl, rfl⟩ | ⟨a, s, t, rfl, rfl, hst⟩ := h.cases
  · exact .none
  · exact hfg a s t hst

theorem map {f : α × List Char → β × List Char} (h : ReadAlike x y)
    (hf : ∀ a s t, Returned s t → (f (a, s)).1 = (f (a, t)).1 ∧ Returned (f (a, s)).2 (f (a, t)).2) :
    ReadAlike (x.map f) (y.map f) := by
  obtain ⟨rfl, rfl⟩ | ⟨a, s, t, rfl, rfl, hst⟩ := h.cases
  · exact .none
  · exact .some (hf a s t hst)

end ReadAlike

theorem isBreak_ne (h : isBreak c = false) : '\n' ≠ c ∧ '\r' ≠ c := by
  constructor <;>
  · intro he
    subst he
    cases h

theorem Returned.eq_nil_iff (h : Returned s t) : s = [] ↔ t = [] := by
  cases h <;> simp

theorem Returned.exists_cons {u : List Char} (h : Returned s t) (ht : t = c :: u) :
    ∃ d r, s = d :: r := by
  cases h with
  | nil => cases ht
  | cons => exact ⟨_, _, rfl⟩
  | lineEnd => exact ⟨_, _, rfl⟩

theorem expect_returned (h : Returned s t) (hc : isBreak c = false) :
    LeaveAlike (expect c s) (expect c t) := by
  cases h with
  | nil => exact .none
  | @cons d s t hd h =>
    by_cases he : d = c
    · rw [he, expect_self, expect_self]
      exact .some h
    · rw [expect_of_ne he, expect_of_ne he]
      exact .none
  | lineEnd h =>
    rw [expect_of_ne (isBreak_ne hc).1, expect_of_ne (isBreak_ne hc).2]
    exact .none

theorem word_returned {w : List Char} (h : Returned s t) (hw : w.any isBreak = false) :
    LeaveAlike (word w s) (word w t) := by
  induction w generalizing s t with
  | nil => exact .some h
  | cons c w ih =>
    rw [List.any_cons, Bool.or_eq_false_iff] at hw
    exact bind_rel (expect_returned h hw.1) fun _ _ hr ↦ ih hr hw.2

theorem newline_returned (h : Returned s t) : LeaveAlike (newline s) (newline t) := by
  cases h with
  | nil => exact .none
  | cons hc h =>
    obtain ⟨hline, hreturn⟩ := isBreak_ne hc
    rw [newline_of_ne hline.symm hreturn.symm, newline_of_ne hline.symm hreturn.symm]
    exact .none
  | lineEnd h => exact .some h

theorem dropWhile_returned (h : Returned s t) (hp : p '\n' = false ∧ p '\r' = false) :
    Returned (s.dropWhile p) (t.dropWhile p) := by
  induction h with
  | nil => exact .nil
  | @cons c s t hc h ih =>
    by_cases hpc : p c = true
    · rwa [List.dropWhile_cons_of_pos hpc, List.dropWhile_cons_of_pos hpc]
    · rw [List.dropWhile_cons_of_neg hpc, List.dropWhile_cons_of_neg hpc]
      exact .cons hc h
  | lineEnd h =>
    rw [List.dropWhile_cons_of_neg (by simp [hp.1]), List.dropWhile_cons_of_neg (by simp [hp.2])]
    exact .lineEnd h

theorem takeWhile_returned (h : Returned s t) (hp : p '\n' = false ∧ p '\r' = false) :
    s.takeWhile p = t.takeWhile p := by
  induction h with
  | nil => rfl
  | cons _ _ ih => rw [List.takeWhile_cons, List.takeWhile_cons, ih]
  | lineEnd =>
    rw [List.takeWhile_cons_of_neg (by simp [hp.1]), List.takeWhile_cons_of_neg (by simp [hp.2])]

theorem skipBlank_returned (h : Returned s t) : Returned (skipBlank s) (skipBlank t) :=
  dropWhile_returned h ⟨rfl, rfl⟩

theorem skipComment_returned (h : Returned s t) : Returned (skipComment s) (skipComment t) := by
  rw [skipComment, skipComment]
  obtain ⟨hs, ht⟩ | ⟨s', t', hs, ht, h'⟩ := cases_of_rel (expect_returned h (c := '#') rfl)
  · rw [hs, ht]
    exact h
  · rw [hs, ht]
    exact dropWhile_returned h' ⟨rfl, rfl⟩

theorem lineEnd_returned (h : Returned s t) : LeaveAlike (lineEnd s) (lineEnd t) := by
  have hrest := skipComment_returned (skipBlank_returned h)
  rw [lineEnd, lineEnd]
  generalize skipComment (skipBlank s) = u at hrest
  generalize skipComment (skipBlank t) = v at hrest
  cases hrest with
  | nil => exact .some .nil
  | cons hc h => exact newline_returned (.cons hc h)
  | lineEnd h => exact newline_returned (.lineEnd h)

theorem skipBreaks_cons (hc : isBreak c = false) (s : List Char) :
    skipBreaks (c :: s) = if isBlank c then skipBreaks s else c :: s := by
  obtain ⟨hline, hreturn⟩ := isBreak_ne hc
  rw [skipBreaks]
  · exact fun he ↦ hline he.symm
  · exact fun _ he _ ↦ hreturn he.symm

theorem skipBreaks_returned (h : Returned s t) : Returned (skipBreaks s) (skipBreaks t) := by
  induction h with
  | nil => exact .nil
  | @cons c s t hc h ih =>
    rw [skipBreaks_cons hc, skipBreaks_cons hc]
    split
    · exact ih
    · exact .cons hc h
  | lineEnd _ ih => exact ih

theorem skipLayout_cons (inComment : Bool) (hc : isBreak c = false) (s : List Char) :
    skipLayout inComment (c :: s) =
      if inComment then if isLegal c then skipLayout true s else c :: s
      else if isBlank c then skipLayout false s
      else if c = '#' then skipLayout true s
      else c :: s := by
  obtain ⟨hline, hreturn⟩ := isBreak_ne hc
  rw [skipLayout]
  · exact fun he ↦ hline he.symm
  · exact fun _ he _ ↦ hreturn he.symm

theorem skipLayout_returned (h : Returned s t) (inComment : Bool) :
    Returned (skipLayout inComment s) (skipLayout inComment t) := by
  induction h generalizing inComment with
  | nil => exact .nil
  | @cons c s t hc h ih =>
    rw [skipLayout_cons inComment hc, skipLayout_cons inComment hc]
    split
    · split
      · exact ih true
      · exact .cons hc h
    split
    · exact ih false
    split
    · exact ih true
    · exact .cons hc h
  | lineEnd _ ih => exact ih false

/-- A reader that does not look at how lines are ended. -/
def IgnoresReturns (item : Reader α) : Prop :=
  ∀ s t, Returned s t → ReadAlike (item.read s) (item.read t)

theorem sepBy_returned {item : Reader α} {sep : Char} (hitem : IgnoresReturns item)
    (hsep : isBreak sep = false) (h : Returned s t) :
    ReadAlike (item.sepBy sep s) (item.sepBy sep t) := by
  induction hn : s.length using Nat.strongRecOn generalizing s t with
  | ind n ih =>
    subst hn
    rw [Reader.sepBy_eq, Reader.sepBy_eq]
    obtain ⟨hs, ht⟩ | ⟨a, s', t', hs, ht, h'⟩ := (hitem s t h).cases
    · rw [hs, ht]
      exact .none
    rw [hs, ht]
    have hlt := item.shorter hs
    dsimp only [Option.bind_some]
    cases h' with
    | nil => exact .some ⟨rfl, .nil⟩
    | lineEnd h' =>
      obtain ⟨hline, hreturn⟩ := isBreak_ne hsep
      dsimp only
      rw [if_neg hline, if_neg hreturn]
      exact .some ⟨rfl, .lineEnd h'⟩
    | @cons c s' t' hc h' =>
      dsimp only
      split
      · have hrest := ih s'.length (Nat.lt_of_succ_lt hlt) h' rfl
        obtain ⟨hs, ht⟩ | ⟨as, s'', t'', hs, ht, h''⟩ := hrest.cases
        · rw [hs, ht]
          exact .some ⟨rfl, .cons hc h'⟩
        · rw [hs, ht]
          exact .some ⟨rfl, h''⟩
      · exact .some ⟨rfl, .cons hc h'⟩

theorem many_returned {item : Reader α} (hitem : IgnoresReturns item) (h : Returned s t) :
    (item.many s).1 = (item.many t).1 ∧ Returned (item.many s).2 (item.many t).2 := by
  induction hn : s.length using Nat.strongRecOn generalizing s t with
  | ind n ih =>
    subst hn
    rw [Reader.many_eq, Reader.many_eq]
    obtain ⟨hs, ht⟩ | ⟨a, s', t', hs, ht, h'⟩ := (hitem s t h).cases
    · rw [hs, ht]
      exact ⟨rfl, h⟩
    · rw [hs, ht]
      obtain ⟨hitems, hrest⟩ := ih _ (item.shorter hs) h' rfl
      exact ⟨congrArg (a :: ·) hitems, hrest⟩

end KeyAudit.Toml
