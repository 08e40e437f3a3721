import KeyAudit.Text.Hex
import KeyAudit.Toml.Layout

namespace KeyAudit.Toml

def shortEscape? : Char → Option Char
  | '"' => some '"'
  | '\\' => some '\\'
  | 'b' => some '\x08'
  | 'f' => some '\x0C'
  | 'n' => some '\n'
  | 'r' => some '\r'
  | 't' => some '\t'
  | _ => none

def codePoint (n : Nat) (s : List Char) : Option (Char × List Char) :=
  if n ≤ s.length then
    ((Text.hexValue (s.take n)).bind Text.scalar?).map fun c ↦ (c, s.drop n)
  else none

def escape : List Char → Option (Char × List Char)
  | [] => none
  | c :: r =>
    if c = 'u' then codePoint 4 r
    else if c = 'U' then codePoint 8 r
    else (shortEscape? c).map fun x ↦ (x, r)

theorem codePoint_le {n : Nat} {s r : List Char} {c : Char} (h : codePoint n s = some (c, r)) :
    r.length ≤ s.length := by
  unfold codePoint at h
  split at h
  · simp only [Option.map_eq_some_iff, Prod.mk.injEq] at h
    obtain ⟨_, _, _, rfl⟩ := h
    simp
  · cases h

theorem escape_shorter {s r : List Char} {c : Char} (h : escape s = some (c, r)) :
    r.length < s.length := by
  unfold escape at h
  split at h
  · cases h
  split at h
  · exact Nat.lt_succ_of_le (codePoint_le h)
  split at h
  · exact Nat.lt_succ_of_le (codePoint_le h)
  · simp only [Option.map_eq_some_iff, Prod.mk.injEq] at h
    obtain ⟨_, _, _, rfl⟩ := h
    simp

/-- The text up to the closing quote, behind the characters `done`, which are in reverse order. -/
def basicFrom (done : List Char) (s : List Char) : Option (List Char × List Char) :=
  match s with
  | [] => none
  | c :: r =>
    if c = '"' then some (done.reverse, r)
    else if c = '\\' then
      match _h : escape r with
      | some (x, r) => basicFrom (x :: done) r
      | none => none
    else if isLegal c then basicFrom (c :: done) r
    else none
termination_by s.length
decreasing_by
  · have := escape_shorter _h
    simp only [List.length_cons]
    omega
  · simp

def literalFrom (done : List Char) : List Char → Option (List Char × List Char)
  | [] => none
  | c :: r =>
    if c = '\'' then some (done.reverse, r)
    else if isLegal c then literalFrom (c :: done) r
    else none

/-- Up to two quotes may stand right before the three that close a text. -/
def closing (quote : Char) (done s : List Char) : List Char × List Char :=
  match expect quote s with
  | none => (done.reverse, s)
  | some r =>
    match expect quote r with
    | none => ((quote :: done).reverse, r)
    | some r => ((quote :: quote :: done).reverse, r)

/-- A character that stands for itself, or a line end, which is an LF in the text. -/
def literalPart (s : List Char) : Option (List Char × List Char) :=
  match newline s with
  | some r => some (['\n'], r)
  | none =>
    match s with
    | c :: r => if isLegal c then some ([c], r) else none
    | [] => none

/-- A backslash at the end of a line swallows all blanks and line ends behind it. -/
def escapedPart (s : List Char) : Option (List Char × List Char) :=
  match newline (skipBlank s) with
  | some r => some ([], skipBreaks r)
  | none => (escape s).map fun (x, r) ↦ ([x], r)

def basicPart (s : List Char) : Option (List Char × List Char) :=
  match expect '\\' s with
  | some r => escapedPart r
  | none => literalPart s

theorem literalPart_shorter {s x r : List Char} (h : literalPart s = some (x, r)) :
    r.length < s.length := by
  unfold literalPart at h
  split at h
  · cases h
    exact newline_shorter ‹_›
  split at h
  · split at h
    · cases h
      exact Nat.lt_succ_self _
    · cases h
  · cases h

theorem escapedPart_shorter {s x r : List Char} (h : escapedPart s = some (x, r)) :
    r.length < s.length := by
  unfold escapedPart at h
  split at h
  · rename_i u hu
    cases h
    have := newline_shorter hu
    have := skipBlank_le s
    have := skipBreaks_le u
    omega
  · simp only [Option.map_eq_some_iff, Prod.mk.injEq, Prod.exists] at h
    obtain ⟨_, _, he, _, rfl⟩ := h
    exact escape_shorter he

theorem basicPart_shorter {s x r : List Char} (h : basicPart s = some (x, r)) :
    r.length < s.length := by
  unfold basicPart at h
  split at h
  · exact Nat.lt_trans (escapedPart_shorter h) (expect_shorter ‹_›)
  · exact literalPart_shorter h

def literalParts : Reader (List Char) := ⟨literalPart, literalPart_shorter⟩

def basicParts : Reader (List Char) := ⟨basicPart, basicPart_shorter⟩

def partsFrom (part : Reader (List Char)) (quote : Char) (done s : List Char) :
    Option (List Char × List Char) :=
  match word [quote, quote, quote] s with
  | some r => some (closing quote done r)
  | none =>
    match _h : part.read s with
    | some (x, r) => partsFrom part quote (x ++ done) r
    | none => none
termination_by s.length
decreasing_by exact part.shorter _h

def dropLineEnd (s : List Char) : List Char := (newline s).getD s

def lineText (s : List Char) : Option (List Char × List Char) :=
  ((expect '"' s).bind (basicFrom [])).or ((expect '\'' s).bind (literalFrom []))

def text (s : List Char) : Option (List Char × List Char) :=
  match word ['"', '"', '"'] s with
  | some r => partsFrom basicParts '"' [] (dropLineEnd r)
  | none =>
    match word ['\'', '\'', '\''] s with
    | some r => partsFrom literalParts '\'' [] (dropLineEnd r)
    | none => lineText s

theorem basicFrom_shorter {done s t r : List Char} (h : basicFrom done s = some (t, r)) :
    r.length < s.length := by
  fun_induction basicFrom done s with
  | case3 done r' x r'' h' _ ih =>
    have := escape_shorter h'
    have := ih h
    simp only [List.length_cons]
    omega
  | _ => simp_all <;> omega

theorem literalFrom_shorter {done s t r : List Char} (h : literalFrom done s = some (t, r)) :
    r.length < s.length := by
  fun_induction literalFrom done s <;> simp_all
  omega

theorem closing_le (quote : Char) (done s : List Char) :
    (closing quote done s).2.length ≤ s.length := by
  unfold closing
  split
  · exact Nat.le_refl _
  · rename_i r hr
    have := expect_shorter hr
    split
    · exact Nat.le_of_lt this
    · rename_i u hu
      have := expect_shorter hu
      dsimp only
      omega

theorem partsFrom_shorter {part : Reader (List Char)} {quote : Char} {done s t r : List Char}
    (h : partsFrom part quote done s = some (t, r)) : r.length < s.length := by
  fun_induction partsFrom part quote done s with
  | case1 done s u hw =>
    have hc := closing_le quote done u
    rw [Option.some.inj h] at hc
    exact Nat.lt_of_le_of_lt hc (word_shorter hw)
  | case2 done s _ x u hu ih => exact Nat.lt_trans (ih h) (part.shorter hu)
  | case3 => cases h

theorem dropLineEnd_le (s : List Char) : (dropLineEnd s).length ≤ s.length := by
  rw [dropLineEnd]
  cases h : newline s with
  | none => exact Nat.le_refl _
  | some r => exact Nat.le_of_lt (newline_shorter h)

theorem lineText_shorter {s t r : List Char} (h : lineText s = some (t, r)) :
    r.length < s.length := by
  obtain h | ⟨-, h⟩ := Option.or_eq_some_iff.1 h
  · obtain ⟨_, hq, h⟩ := Option.bind_eq_some_iff.1 h
    exact Nat.lt_trans (basicFrom_shorter h) (expect_shorter hq)
  · obtain ⟨_, hq, h⟩ := Option.bind_eq_some_iff.1 h
    exact Nat.lt_trans (literalFrom_shorter h) (expect_shorter hq)

theorem text_shorter {s t r : List Char} (h : text s = some (t, r)) : r.length < s.length := by
  unfold text at h
  split at h
  · rename_i u hw
    have := word_shorter hw
    have := dropLineEnd_le u
    have := partsFrom_shorter h
    omega
  split at h
  · rename_i u hw
    have := word_shorter hw
    have := dropLineEnd_le u
    have := partsFrom_shorter h
    omega
  · exact lineText_shorter h

end KeyAudit.Toml
