import KeyAudit.Reader
import KeyAudit.Text.Hex

namespace KeyAudit.Json

def isSpace (c : Char) : Bool := c == ' ' || c == '\t' || c == '\n' || c == '\r'

def skipSpace (s : List Char) : List Char := s.dropWhile isSpace

theorem skipSpace_le (s : List Char) : (skipSpace s).length ≤ s.length :=
  (List.dropWhile_suffix isSpace).length_le

def shortEscape? : Char → Option Char
  | '"' => some '"'
  | '\\' => some '\\'
  | '/' => some '/'
  | 'b' => some '\x08'
  | 'f' => some '\x0C'
  | 'n' => some '\n'
  | 'r' => some '\r'
  | 't' => some '\t'
  | _ => none

def isHighSurrogate (n : Nat) : Bool := 0xD800 ≤ n && n < 0xDC00

def isLowSurrogate (n : Nat) : Bool := 0xDC00 ≤ n && n < 0xE000

def pairedScalar? (high low : Nat) : Option Char :=
  if isHighSurrogate high && isLowSurrogate low then
    Text.scalar? (0x10000 + (high - 0xD800) * 0x400 + (low - 0xDC00))
  else none

/-- The text up to the closing quote, behind the characters `done`, which are in reverse order. A
surrogate may be escaped only as the half of a pair, and controls have to be escaped. -/
def textFrom (done : List Char) : List Char → Option (List Char × List Char)
  | '"' :: r => some (done.reverse, r)
  | '\\' :: 'u' :: a :: b :: c :: d :: r =>
    match Text.hexValue [a, b, c, d] with
    | none => none
    | some n =>
      match Text.scalar? n with
      | some x => textFrom (x :: done) r
      | none =>
        match r with
        | '\\' :: 'u' :: a :: b :: c :: d :: r =>
          match (Text.hexValue [a, b, c, d]).bind (pairedScalar? n) with
          | some x => textFrom (x :: done) r
          | none => none
        | _ => none
  | '\\' :: c :: r =>
    match shortEscape? c with
    | some x => textFrom (x :: done) r
    | none => none
  | c :: r => if c = '\\' ∨ c.toNat < 0x20 then none else textFrom (c :: done) r
  | [] => none

theorem textFrom_shorter {done s t r : List Char} (h : textFrom done s = some (t, r)) :
    r.length < s.length := by
  fun_induction textFrom done s <;> simp_all <;> omega

def text (s : List Char) : Option (List Char × List Char) :=
  match s with
  | '"' :: r => textFrom [] r
  | _ => none

theorem text_shorter {s t r : List Char} (h : text s = some (t, r)) : r.length < s.length := by
  unfold text at h
  split at h
  · have := textFrom_shorter h
    simp only [List.length_cons]
    omega
  · cases h

end KeyAudit.Json
