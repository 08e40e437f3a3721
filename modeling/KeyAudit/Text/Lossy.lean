import KeyAudit.Text.Bytes

namespace KeyAudit.Text

/-- The least and the greatest byte that may stand in each place behind the first byte of a character. -/
def followers (b : UInt8) : List (UInt8 × UInt8) :=
  if b < 0xC2 ∨ 0xF4 < b then []
  else if b < 0xE0 then [(0x80, 0xBF)]
  else if b = 0xE0 then [(0xA0, 0xBF), (0x80, 0xBF)]
  else if b = 0xED then [(0x80, 0x9F), (0x80, 0xBF)]
  else if b < 0xF0 then [(0x80, 0xBF), (0x80, 0xBF)]
  else if b = 0xF0 then [(0x90, 0xBF), (0x80, 0xBF), (0x80, 0xBF)]
  else if b = 0xF4 then [(0x80, 0x8F), (0x80, 0xBF), (0x80, 0xBF)]
  else [(0x80, 0xBF), (0x80, 0xBF), (0x80, 0xBF)]

/-- Goes on with `run` as long as a byte fits in its place. Another byte starts the next run. -/
def runsFrom (run : Bytes) : List (UInt8 × UInt8) → Bytes → List Bytes
  | _, [] => [run]
  | [], b :: bs => run :: runsFrom [b] (followers b) bs
  | (low, high) :: places, b :: bs =>
    if low ≤ b ∧ b ≤ high then runsFrom (run ++ [b]) places bs
    else run :: runsFrom [b] (followers b) bs

/-- The characters of a text. Where there is none, what could have been the front of one is taken
together. -/
def runs : Bytes → List Bytes
  | [] => []
  | b :: bs => runsFrom [b] (followers b) bs

def lossy (b : Bytes) : String :=
  (ofUtf8? b).getD (String.join ((runs b).map fun run ↦ (ofUtf8? run).getD "\uFFFD"))

end KeyAudit.Text
