import KeyAudit.Text.Bytes

namespace KeyAudit

structure Path where
  bytes : Bytes
  deriving DecidableEq, Repr

/-- What a path is made of. A `.` counts only at the front of a relative path. -/
inductive Component where
  | root
  | here
  | up
  | name (n : Bytes)
  deriving DecidableEq, Repr

namespace Path

def slash : UInt8 := 0x2F

def dot : UInt8 := 0x2E

def ofString (s : String) : Path := ⟨Text.utf8 s⟩

instance : Coe String Path := ⟨ofString⟩

def isAbsolute (p : Path) : Bool := p.bytes.head? == some slash

/-- The front that no cut removes: the root, or a leading `.`. -/
def front (p : Path) : Bytes :=
  if p.isAbsolute then [slash]
  else if p.bytes = [dot] ∨ [dot, slash].isPrefixOf p.bytes then [dot]
  else []

def parts (p : Path) : List Bytes := (p.bytes.drop p.front.length).splitOn slash

/-- Doubled slashes and inner dots leave parts that mean nothing. -/
def isVoid (part : Bytes) : Bool := part == [] || part == [dot]

def frontComponents (p : Path) : List Component :=
  if p.front = [slash] then [.root] else if p.front = [dot] then [.here] else []

def componentOf? (part : Bytes) : Option Component :=
  if isVoid part then none else if part = [dot, dot] then some .up else some (.name part)

def components (p : Path) : List Component := p.frontComponents ++ p.parts.filterMap componentOf?

def dropVoidEnd (ps : List Bytes) : List Bytes := (ps.reverse.dropWhile isVoid).reverse

/-- `p` without its last component; the front and the slashes in what remains are kept as written. -/
def parent? (p : Path) : Option Path :=
  match dropVoidEnd p.parts with
  | [] => if p.front = [dot] then some ⟨[]⟩ else none
  | ps => some ⟨p.front ++ [slash].intercalate (dropVoidEnd ps.dropLast)⟩

def join (p q : Path) : Path :=
  if q.isAbsolute then q
  else if p.bytes = [] ∨ p.bytes.getLast? = some slash then ⟨p.bytes ++ q.bytes⟩
  else ⟨p.bytes ++ slash :: q.bytes⟩

def fileName? (p : Path) : Option Bytes :=
  match p.components.getLast? with
  | some (.name n) => some n
  | _ => none

/-- What follows the last dot of a file name. A name that only starts with a dot has none. -/
def nameExtension? (n : Bytes) : Option Bytes :=
  match n.reverse.dropWhile (· != dot) with
  | _ :: _ :: _ => some (n.reverse.takeWhile (· != dot)).reverse
  | _ => none

def extension? (p : Path) : Option Bytes := p.fileName?.bind nameExtension?

end Path

end KeyAudit
