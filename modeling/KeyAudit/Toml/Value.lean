import KeyAudit.Toml.Key
import KeyAudit.Toml.Number
import KeyAudit.Toml.Table

namespace KeyAudit.Toml

abbrev Pair := List String × Item

/-- A value without brackets. What starts like a number may also be a moment. -/
def scalar (s : List Char) : Option (Item × List Char) :=
  match text s with
  | some (t, r) => some (.text (String.ofList t), r)
  | none =>
    (((word ['t', 'r', 'u', 'e'] s).or (word ['f', 'a', 'l', 's', 'e'] s)).or
      ((moment s).or (number s))).map fun r ↦ (.plain, r)

theorem scalar_shorter {s r : List Char} {v : Item} (h : scalar s = some (v, r)) :
    r.length < s.length := by
  unfold scalar at h
  split at h
  · cases h
    exact text_shorter ‹_›
  · simp only [Option.map_eq_some_iff, Prod.mk.injEq] at h
    obtain ⟨u, h, _, rfl⟩ := h
    obtain h | ⟨-, h⟩ := Option.or_eq_some_iff.1 h
    · obtain h | ⟨-, h⟩ := Option.or_eq_some_iff.1 h <;> exact word_shorter h
    · obtain h | ⟨-, h⟩ := Option.or_eq_some_iff.1 h
      · exact moment_shorter h
      · exact number_shorter h

def arrayItem (value : Reader Item) (s : List Char) : Option (Item × List Char) :=
  (value.read (skipLayout false s)).map fun (v, r) ↦ (v, skipLayout false r)

theorem arrayItem_shorter {value : Reader Item} {s r : List Char} {v : Item}
    (h : arrayItem value s = some (v, r)) : r.length < s.length := by
  simp only [arrayItem, Option.map_eq_some_iff, Prod.mk.injEq, Prod.exists] at h
  obtain ⟨_, u, h, _, rfl⟩ := h
  have := value.shorter h
  have := skipLayout_le false s
  have := skipLayout_le false u
  omega

def arrayItems (value : Reader Item) : Reader Item := ⟨arrayItem value, arrayItem_shorter⟩

def arrayEnd (s : List Char) : Option (List Char) :=
  match expect ',' s with
  | some r => expect ']' (skipLayout false r)
  | none => expect ']' s

def arrayTail (value : Reader Item) (s : List Char) : Option (Item × List Char) :=
  match expect ']' (skipLayout false s) with
  | some r => some (.array [], r)
  | none => do
    let (vs, r) ← (arrayItems value).sepBy ',' (skipLayout false s)
    let r ← arrayEnd r
    return (.array vs, r)

def pair (value : Reader Item) (s : List Char) : Option (Pair × List Char) := do
  let (path, r) ← key s
  let r ← expect '=' r
  let (v, r) ← value.read (skipBlank r)
  return ((path, v), skipBlank r)

theorem pair_shorter {value : Reader Item} {s r : List Char} {p : Pair}
    (h : pair value s = some (p, r)) : r.length < s.length := by
  unfold pair at h
  obtain ⟨⟨_, _⟩, h₁, h⟩ := Option.bind_eq_some_iff.1 h
  obtain ⟨t, h₂, h⟩ := Option.bind_eq_some_iff.1 h
  obtain ⟨⟨_, u⟩, h₃, h⟩ := Option.bind_eq_some_iff.1 h
  cases h
  have := key_shorter h₁
  have := expect_shorter h₂
  have := value.shorter h₃
  have := skipBlank_le t
  have := skipBlank_le u
  omega

def pairs (value : Reader Item) : Reader Pair := ⟨pair value, pair_shorter⟩

/-- A table in braces behind its opening brace. It stands on one line and no comma follows the last
pair. -/
def inlineTail (value : Reader Item) (s : List Char) : Option (Item × List Char) :=
  match expect '}' (skipBlank s) with
  | some r => some (.inlined [], r)
  | none => do
    let (ps, r) ← (pairs value).sepBy ',' (skipBlank s)
    let r ← expect '}' r
    let es ← Entries.addPairs [] ps
    return (.inlined es, r)

def bracketed (value : Reader Item) (s : List Char) : Option (Item × List Char) :=
  match expect '[' s with
  | some r => arrayTail value r
  | none =>
    match expect '{' s with
    | some r => inlineTail value r
    | none => scalar s

theorem arrayEnd_shorter {s r : List Char} (h : arrayEnd s = some r) : r.length < s.length := by
  unfold arrayEnd at h
  split at h
  · rename_i t ht
    have := expect_shorter ht
    have := skipLayout_le false t
    have := expect_shorter h
    omega
  · exact expect_shorter h

theorem arrayTail_shorter {value : Reader Item} {s r : List Char} {v : Item}
    (h : arrayTail value s = some (v, r)) : r.length < s.length := by
  have hs := skipLayout_le false s
  unfold arrayTail at h
  split at h
  · cases h
    exact Nat.lt_of_lt_of_le (expect_shorter ‹_›) hs
  · obtain ⟨⟨_, _⟩, h₁, h⟩ := Option.bind_eq_some_iff.1 h
    obtain ⟨_, h₂, h⟩ := Option.bind_eq_some_iff.1 h
    cases h
    have := Reader.sepBy_shorter h₁
    have := arrayEnd_shorter h₂
    omega

theorem inlineTail_shorter {value : Reader Item} {s r : List Char} {v : Item}
    (h : inlineTail value s = some (v, r)) : r.length < s.length := by
  have hs := skipBlank_le s
  unfold inlineTail at h
  split at h
  · cases h
    exact Nat.lt_of_lt_of_le (expect_shorter ‹_›) hs
  · obtain ⟨⟨_, _⟩, h₁, h⟩ := Option.bind_eq_some_iff.1 h
    obtain ⟨_, h₂, h⟩ := Option.bind_eq_some_iff.1 h
    obtain ⟨_, _, h⟩ := Option.bind_eq_some_iff.1 h
    cases h
    have := Reader.sepBy_shorter h₁
    have := expect_shorter h₂
    omega

theorem bracketed_shorter {value : Reader Item} {s r : List Char} {v : Item}
    (h : bracketed value s = some (v, r)) : r.length < s.length := by
  unfold bracketed at h
  split at h
  · exact Nat.lt_trans (arrayTail_shorter h) (expect_shorter ‹_›)
  split at h
  · exact Nat.lt_trans (inlineTail_shorter h) (expect_shorter ‹_›)
  · exact scalar_shorter h

/-- A value in which brackets are nested no deeper than `depth`. -/
def value : (depth : Nat) → Reader Item
  | 0 => ⟨scalar, scalar_shorter⟩
  | depth + 1 => ⟨bracketed (value depth), bracketed_shorter⟩

end KeyAudit.Toml
