import KeyAudit.Reader

namespace KeyAudit.Toml

/-- LF and CR LF end a line. A CR alone does not. -/
def newline (s : List Char) : Option (List Char) := (expect '\n' s).or (word ['\r', '\n'] s)

theorem newline_of_ne {c : Char} (hline : c ≠ '\n') (hreturn : c ≠ '\r') (s : List Char) :
    newline (c :: s) = none := by
  rw [newline, word, expect_of_ne hline, expect_of_ne hreturn]
  rfl

theorem newline_shorter {s r : List Char} (h : newline s = some r) : r.length < s.length := by
  obtain h | ⟨-, h⟩ := Option.or_eq_some_iff.1 h
  · exact expect_shorter h
  · exact word_shorter h

def isBlank (c : Char) : Bool := c == ' ' || c == '\t'

def skipBlank (s : List Char) : List Char := s.dropWhile isBlank

theorem skipBlank_le (s : List Char) : (skipBlank s).length ≤ s.length :=
  (List.dropWhile_suffix isBlank).length_le

/-- The characters that comments and quoted texts may hold: all but controls, and tab. -/
def isLegal (c : Char) : Bool := c == '\t' || (0x20 ≤ c.toNat && c.toNat != 0x7F)

def skipComment (s : List Char) : List Char :=
  match expect '#' s with
  | some r => r.dropWhile isLegal
  | none => s

theorem skipComment_of_ne {c : Char} (hc : c ≠ '#') (s : List Char) :
    skipComment (c :: s) = c :: s := by
  rw [skipComment, expect_of_ne hc]

theorem skipComment_le (s : List Char) : (skipComment s).length ≤ s.length := by
  unfold skipComment
  split
  · rename_i r h
    have := expect_shorter h
    have := (List.dropWhile_suffix isLegal (l := r)).length_le
    omega
  · exact Nat.le_refl _

def lineEnd (s : List Char) : Option (List Char) :=
  match skipComment (skipBlank s) with
  | [] => some []
  | s => newline s

theorem lineEnd_shorter {s r : List Char} (hs : s ≠ []) (h : lineEnd s = some r) :
    r.length < s.length := by
  have := skipBlank_le s
  have := skipComment_le (skipBlank s)
  have := List.length_pos_iff.2 hs
  unfold lineEnd at h
  split at h
  · cases h
    simpa
  · have := newline_shorter h
    omega

theorem lineEnd_le {s r : List Char} (h : lineEnd s = some r) : r.length ≤ s.length := by
  by_cases hs : s = []
  · subst hs
    cases h
    exact Nat.le_refl _
  · exact Nat.le_of_lt (lineEnd_shorter hs h)

/-- Skips blanks and line ends. -/
def skipBreaks : List Char → List Char
  | '\n' :: r => skipBreaks r
  | '\r' :: '\n' :: r => skipBreaks r
  | c :: r => if isBlank c then skipBreaks r else c :: r
  | [] => []

theorem skipBreaks_le (s : List Char) : (skipBreaks s).length ≤ s.length := by
  fun_induction skipBreaks s <;> simp_all <;> omega

/-- Skips blanks, line ends and whole comments. -/
def skipLayout (inComment : Bool) : List Char → List Char
  | '\n' :: r => skipLayout false r
  | '\r' :: '\n' :: r => skipLayout false r
  | c :: r =>
    if inComment then if isLegal c then skipLayout true r else c :: r
    else if isBlank c then skipLayout false r
    else if c = '#' then skipLayout true r
    else c :: r
  | [] => []

theorem skipLayout_le (b : Bool) (s : List Char) : (skipLayout b s).length ≤ s.length := by
  fun_induction skipLayout b s <;> simp_all <;> omega

end KeyAudit.Toml
