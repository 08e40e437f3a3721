namespace KeyAudit.Text

def isSpacing (c : Char) : Bool := c = '\t' || c = '\n' || c = '\x0c' || c = '\r'

def isVisible (c : Char) : Bool := isSpacing c || (' ' ≤ c && c ≠ '\x7f')

inductive EscapeState where
  | plain
  | escape
  | intermediate
  | control
  | device
  | deviceParameter
  | deviceIntermediate
  | string
  | command
  deriving DecidableEq, Repr

namespace EscapeState

def isIntermediate (c : Char) : Bool := ' ' ≤ c && c ≤ '/'

def isParameter (c : Char) : Bool := '0' ≤ c && c ≤ '?'

def isFinal (c : Char) : Bool := '@' ≤ c && c ≤ '~'

def afterEscape (c : Char) : EscapeState :=
  if c = '[' then .control
  else if c = ']' then .command
  else if c = 'P' then .device
  else if c = 'X' || c = '^' || c = '_' then .string
  else if isIntermediate c then .intermediate
  else if isParameter c || isFinal c then .plain
  else .escape

/-- A device control string has parameters, intermediates and a final character in front of its body.
Where they are out of order the body begins at once. -/
def inDevice (s : EscapeState) (c : Char) : EscapeState :=
  if isIntermediate c then .deviceIntermediate
  else if isFinal c then .string
  else if isParameter c then
    if s = .device || s = .deviceParameter && c < '<' then .deviceParameter else .string
  else s

/-- The state behind one more character. ESC begins a sequence and CAN and SUB end one anywhere. A
command ends at BEL. Other strings end at the byte of the string terminator, also where it is only a part
of a character. -/
def next (s : EscapeState) (c : Char) : EscapeState :=
  if c = '\x1b' then .escape
  else if c = '\x18' || c = '\x1a' then .plain
  else match s with
    | .plain => .plain
    | .escape => afterEscape c
    | .intermediate => if isParameter c || isFinal c then .plain else s
    | .control => if isFinal c then .plain else s
    | .device | .deviceParameter | .deviceIntermediate => inDevice s c
    | .string => if (String.utf8EncodeChar c).contains 0x9c then .plain else s
    | .command => if c = '\x07' then .plain else s

/-- White space keeps its meaning within a sequence, but not within a string. -/
def keeps (s : EscapeState) (c : Char) : Bool :=
  match s with
  | .plain => isVisible c
  | .escape | .intermediate | .control => isSpacing c
  | _ => false

end EscapeState

/-- What is left of a text. `copying` tells that the last character was kept: then the visible characters
next to it are kept too, also where white space has interrupted a sequence. The sequence goes on behind
them, unless one of them is outside ASCII. -/
def kept (copying : Bool) (s : EscapeState) : List Char → List Char
  | [] => []
  | c :: rest =>
    if copying && isVisible c then c :: kept true (if c ≤ '\x7f' then s else .plain) rest
    else if s.keeps c then c :: kept true (s.next c) rest
    else kept false (s.next c) rest

/-- `s` without escape sequences and without control characters other than white space. -/
def unstyled (s : String) : String := String.ofList (kept false .plain s.toList)

end KeyAudit.Text
