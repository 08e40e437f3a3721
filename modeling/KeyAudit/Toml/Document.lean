import KeyAudit.Toml.Value

namespace KeyAudit.Toml

inductive HeaderKind where
  | table
  | element
  deriving DecidableEq, Repr

/-- One line of a document, or several where a value goes over several. -/
inductive Line where
  | blank
  | pair (p : Pair)
  | header (kind : HeaderKind) (path : List String)

structure Section where
  kind : HeaderKind
  path : List String
  body : List Pair

/-- The pairs before the first header, and the sections. -/
structure Document where
  preamble : List Pair
  sections : List Section

def headerTail (kind : HeaderKind) (closing s : List Char) : Option (Line × List Char) := do
  let (path, r) ← key s
  let r ← word closing r
  let r ← lineEnd r
  return (.header kind path, r)

def pairLine (s : List Char) : Option (Line × List Char) := do
  let (p, r) ← pair (value depthLimit) s
  let r ← lineEnd r
  return (.pair p, r)

def lineBody (s : List Char) : Option (Line × List Char) :=
  match word ['[', '['] s with
  | some r => headerTail .element [']', ']'] r
  | none =>
    match expect '[' s with
    | some r => headerTail .table [']'] r
    | none =>
      match lineEnd s with
      | some r => some (.blank, r)
      | none => pairLine s

def line (s : List Char) : Option (Line × List Char) :=
  if s = [] then none else lineBody (skipBlank s)

theorem headerTail_shorter {kind : HeaderKind} {closing s r : List Char} {l : Line}
    (h : headerTail kind closing s = some (l, r)) : r.length < s.length := by
  unfold headerTail at h
  obtain ⟨⟨_, _⟩, h₁, h⟩ := Option.bind_eq_some_iff.1 h
  obtain ⟨_, h₂, h⟩ := Option.bind_eq_some_iff.1 h
  obtain ⟨_, h₃, h⟩ := Option.bind_eq_some_iff.1 h
  cases h
  have := key_shorter h₁
  have := word_le h₂
  have := lineEnd_le h₃
  omega

theorem pairLine_shorter {s r : List Char} {l : Line} (h : pairLine s = some (l, r)) :
    r.length < s.length := by
  unfold pairLine at h
  obtain ⟨⟨_, _⟩, h₁, h⟩ := Option.bind_eq_some_iff.1 h
  obtain ⟨_, h₂, h⟩ := Option.bind_eq_some_iff.1 h
  cases h
  have := pair_shorter h₁
  have := lineEnd_le h₂
  omega

theorem lineBody_shorter {s r : List Char} {l : Line} (hs : s ≠ [])
    (h : lineBody s = some (l, r)) : r.length < s.length := by
  unfold lineBody at h
  split at h
  · exact Nat.lt_trans (headerTail_shorter h) (word_shorter ‹_›)
  split at h
  · exact Nat.lt_trans (headerTail_shorter h) (expect_shorter ‹_›)
  split at h
  · cases h
    exact lineEnd_shorter hs ‹_›
  · exact pairLine_shorter h

theorem line_shorter {s r : List Char} {l : Line} (h : line s = some (l, r)) :
    r.length < s.length := by
  unfold line at h
  split at h
  · cases h
  · rename_i hs
    have := List.length_pos_iff.2 hs
    have := skipBlank_le s
    by_cases hb : skipBlank s = []
    · rw [hb] at h
      cases h
      simpa
    · have := lineBody_shorter hb h
      omega

def lines : Reader Line := ⟨line, line_shorter⟩

namespace Document

def before (l : Line) (d : Document) : Document :=
  match l with
  | .blank => d
  | .pair p => { d with preamble := p :: d.preamble }
  | .header kind path => ⟨[], ⟨kind, path, d.preamble⟩ :: d.sections⟩

/-- Pairs belong to the last header before them. -/
def ofLines (ls : List Line) : Document := ls.foldr before ⟨[], []⟩

/-- A byte order mark may stand at the front. -/
def dropMark (s : List Char) : List Char := (expect '\uFEFF' s).getD s

def ofText? (s : List Char) : Option Document :=
  match lines.many (dropMark s) with
  | (ls, []) => some (ofLines ls)
  | _ => none

def addSection (es : Entries) (s : Section) : Option Entries :=
  match s.kind with
  | .table => es.openTable s.path s.body
  | .element => es.openElement s.path s.body

def entries? (d : Document) : Option Entries :=
  (Entries.addPairs [] d.preamble).bind fun es ↦ d.sections.foldlM addSection es

end Document

end KeyAudit.Toml
