import KeyAudit.Text.Combining
import KeyAudit.Text.Lossy
import KeyAudit.Text.Unprintable

namespace KeyAudit.Text

def codeEscape (c : Char) : List Char :=
  ['\\', 'u', '\x7b'] ++ Nat.toDigits 16 c.toNat ++ ['\x7d']

/-- A character as it is written between quotes. What a reader could not see, or could take for a part
of the character before, is written by its code. -/
def quotedChar (c : Char) : List Char :=
  match c with
  | '\x00' => ['\\', '0']
  | '\t' => ['\\', 't']
  | '\n' => ['\\', 'n']
  | '\r' => ['\\', 'r']
  | '"' => ['\\', '"']
  | '\\' => ['\\', '\\']
  | c => if isCombining c || isUnprintable c then codeEscape c else [c]

def byteEscape (b : UInt8) : List Char :=
  ['\\', 'x'] ++ (Nat.toDigits 16 b.toNat).map Char.toUpper

/-- What is not UTF-8 is written byte by byte. -/
def quoted (b : Bytes) : String :=
  let inner := (runs b).flatMap fun run ↦
    match ofUtf8? run with
    | some s => s.toList.flatMap quotedChar
    | none => run.flatMap byteEscape
  String.ofList ('"' :: inner ++ ['"'])

end KeyAudit.Text
