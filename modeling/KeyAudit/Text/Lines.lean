import KeyAudit.Text.Bytes

namespace KeyAudit.Text

def lineFeed : UInt8 := 10

def carriageReturn : UInt8 := 13

/-- One line from its bytes in reverse order: a CR at its end belongs to the line end. -/
def closedLine : Bytes → Bytes
  | [] => []
  | b :: bs => if b = carriageReturn then bs.reverse else (b :: bs).reverse

/-- `line` holds the bytes since the last line end and `done` the lines before, both reversed. -/
def cutLines : Bytes → Bytes → List Bytes → List Bytes
  | [], [], done => done.reverse
  | [], b :: line, done => ((b :: line).reverse :: done).reverse
  | b :: rest, line, done =>
    if b = lineFeed then cutLines rest [] (closedLine line :: done)
    else cutLines rest (b :: line) done

/-- The lines of a file. A line ends at LF or CR LF; bytes after the last LF are a line of their own,
in which a CR is an ordinary byte. -/
def lines (content : Bytes) : List Bytes := cutLines content [] []

theorem cutLines_done (b line : Bytes) (done : List Bytes) :
    cutLines b line done = done.reverse ++ cutLines b line [] := by
  induction b generalizing line done with
  | nil => cases line <;> simp [cutLines]
  | cons c b ih =>
    simp only [cutLines]
    split
    · rw [ih [] (closedLine line :: done), ih [] [closedLine line]]
      simp
    · exact ih (c :: line) done

end KeyAudit.Text
