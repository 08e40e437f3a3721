import KeyAudit.Text.Substring

namespace KeyAudit

/-- Which of the keys have been met so far: a mark for each key, in order, and the number of marks
that are still off. -/
structure Sightings where
  keys : List String
  marks : List Bool
  unmet : Nat
  deriving DecidableEq, Repr

namespace Sightings

def ofKeys (keys : List String) : Sightings :=
  ⟨keys, List.replicate keys.length false, keys.length⟩

/-- Turns on the marks of the unmet keys that stand in `line`, and counts `n` down for each. -/
def markIn (line : List Char) : List String → List Bool → Nat → List Bool × Nat
  | k :: ks, met :: ms, n =>
    if !met && Text.occursIn k.toList line then
      let (ms, n) := markIn line ks ms (n - 1)
      (true :: ms, n)
    else
      let (ms, n) := markIn line ks ms n
      (met :: ms, n)
  | _, ms, n => (ms, n)

/-- Reads one line. Once every key has been met there is nothing left to look for. -/
def look (line : String) (s : Sightings) : Sightings :=
  if s.unmet = 0 then s
  else
    let (marks, unmet) := markIn line.toList s.keys s.marks s.unmet
    ⟨s.keys, marks, unmet⟩

def missing (s : Sightings) : List String := ((s.keys.zip s.marks).filter (!·.2)).map (·.1)

end Sightings

end KeyAudit
