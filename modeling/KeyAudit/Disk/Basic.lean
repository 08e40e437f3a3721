import KeyAudit.Path.Basic

namespace KeyAudit

abbrev Name := Bytes

/-- A place on a disk: the names that lead from it up to the root, the innermost first. -/
abbrev Location := List Name

inductive Entry where
  | directory
  | file (content : Bytes)
  | link (target : Path)
  | device
  deriving DecidableEq, Repr

/-- A disk, given by what is recorded for its places, and the directory from which relative paths
start. The first record of a place counts, and the root is a directory without being recorded. A place
whose innermost name is empty is a directory that has been removed. -/
structure Disk where
  records : List (Location × Entry)
  here : Location
  deriving DecidableEq, Repr

namespace Disk

def nameLimit : Nat := 255

def pathLimit : Nat := 4095

def isTooLong (p : Path) : Bool := pathLimit < p.bytes.length

def isProper (n : Name) : Bool :=
  n != [] && n != [Path.dot] && n != [Path.dot, Path.dot] && !n.contains Path.slash &&
    !n.contains 0 && n.length ≤ nameLimit

/-- Relative paths may still start from a directory that has been removed. It has no name and holds
nothing, but it lies where it was. -/
def isRemoved (loc : Location) : Bool := loc.head? = some []

def at? (d : Disk) (loc : Location) : Option Entry :=
  if loc = [] then some .directory else d.records.lookup loc

def nameIn? (up : Location) : Location → Option Name
  | n :: loc => if loc = up ∧ isProper n then some n else none
  | [] => none

def children (d : Disk) (up : Location) : List Name :=
  if isRemoved up then [] else (d.records.filterMap fun r ↦ nameIn? up r.1).eraseDups

def absolutePath (loc : Location) : Path :=
  ⟨Path.slash :: [Path.slash].intercalate loc.reverse⟩

end Disk

end KeyAudit
