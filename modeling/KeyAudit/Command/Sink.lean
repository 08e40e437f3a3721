import KeyAudit.Text.Lines

namespace KeyAudit.Command

inductive SinkFailure where
  | closed
  | full
  /-- Any other failure, by the number that the system gives it. -/
  | other (code : Nat)
  deriving DecidableEq, Repr

/-- A stream to write to: what it has taken, in reverse order, how many bytes it still takes if there
is a limit, and how it fails then. -/
structure Sink where
  taken : List Bytes := []
  room : Option Nat := none
  failure : SinkFailure := .full
  deriving DecidableEq, Repr

namespace Sink

def output (s : Sink) : Bytes := s.taken.reverse.flatten

def write (s : Sink) (b : Bytes) : Sink × Bool :=
  match s.room with
  | none => ({ s with taken := b :: s.taken }, true)
  | some n => ({ s with taken := b.take n :: s.taken, room := some (n - b.length) }, b.length ≤ n)

def writeKeys (s : Sink) : List String → Sink × Bool
  | [] => (s, true)
  | k :: ks =>
    match s.write (Text.utf8 k) with
    | (s, false) => (s, false)
    | (s, true) =>
      match s.write [Text.lineFeed] with
      | (s, false) => (s, false)
      | (s, true) => writeKeys s ks

end Sink

end KeyAudit.Command
