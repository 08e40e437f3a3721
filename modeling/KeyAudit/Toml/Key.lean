import KeyAudit.Toml.Text

namespace KeyAudit.Toml

/-- How many parts a key may have, and how deep brackets may be nested. -/
def depthLimit : Nat := 79

def isBare (c : Char) : Bool := c.isAlphanum || c == '-' || c == '_'

def bareKey (s : List Char) : Option (List Char × List Char) :=
  if s.takeWhile isBare = [] then none else some (s.takeWhile isBare, s.dropWhile isBare)

theorem bareKey_shorter {s t r : List Char} (h : bareKey s = some (t, r)) :
    r.length < s.length := by
  unfold bareKey at h
  split at h
  · cases h
  · rename_i ht
    cases h
    have hs := congrArg List.length (List.takeWhile_append_dropWhile (p := isBare) (l := s))
    have := List.length_pos_iff.2 ht
    simp only [List.length_append] at hs
    omega

def simpleKey (s : List Char) : Option (List Char × List Char) := (lineText s).or (bareKey s)

theorem simpleKey_shorter {s t r : List Char} (h : simpleKey s = some (t, r)) :
    r.length < s.length := by
  obtain h | ⟨-, h⟩ := Option.or_eq_some_iff.1 h
  · exact lineText_shorter h
  · exact bareKey_shorter h

def keyPart (s : List Char) : Option (String × List Char) :=
  (simpleKey (skipBlank s)).map fun (t, r) ↦ (String.ofList t, skipBlank r)

theorem keyPart_shorter {s r : List Char} {k : String} (h : keyPart s = some (k, r)) :
    r.length < s.length := by
  simp only [keyPart, Option.map_eq_some_iff, Prod.mk.injEq, Prod.exists] at h
  obtain ⟨_, u, h, _, rfl⟩ := h
  have := simpleKey_shorter h
  have := skipBlank_le s
  have := skipBlank_le u
  omega

def keyParts : Reader String := ⟨keyPart, keyPart_shorter⟩

/-- A dotted key: the path from a table to one of its entries. -/
def key (s : List Char) : Option (List String × List Char) :=
  (keyParts.sepBy '.' s).filter fun (path, _) ↦ path.length ≤ depthLimit

theorem key_shorter {s r : List Char} {path : List String} (h : key s = some (path, r)) :
    r.length < s.length := by
  simp only [key, Option.filter_eq_some_iff] at h
  exact Reader.sepBy_shorter h.1

end KeyAudit.Toml
