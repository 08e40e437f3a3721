import KeyAudit.Disk.Lookup
import KeyAudit.Path.Ancestors

namespace KeyAudit.Disk

def put (d : Disk) (loc : Location) (e : Entry) : Disk :=
  if (d.records.lookup loc).isSome then
    { d with records := d.records.map fun r ↦ if r.1 = loc then (loc, e) else r }
  else { d with records := d.records ++ [(loc, e)] }

/-- Where a place at or below `loc` lies once `loc` and what leads from it to the place are removed. -/
def withoutNames (loc place : Location) : Location :=
  List.replicate (place.length + 1 - loc.length) [] ++ loc.tail

/-- Forgets a place and all places below it. Of the directory from which relative paths start, and of
those around it, only the names are forgotten. -/
def erase (d : Disk) (loc : Location) : Disk :=
  { records := d.records.filterMap fun r ↦
      if !loc.isSuffixOf r.1 then some r
      else if r.1.isSuffixOf d.here then some (withoutNames loc r.1, r.2)
      else none
    here := if loc.isSuffixOf d.here then withoutNames loc d.here else d.here }

/-- The place that `p` names from the directory `loc`, whether anything is there or not. A link in that
place is not followed. Nothing can be put into a directory that has been removed. -/
def slot (d : Disk) (loc : Location) (p : Path) : Except AccessFailure Location :=
  match p.parent?, p.fileName? with
  | some up, some n => do
    let around ← d.descend (fun _ ↦ true) true linkLimit (if p.isAbsolute then [] else loc)
      (pathParts up)
    if isRemoved around then .error .notFound else .ok (n :: around)
  | _, _ => .error .isADirectory

def makeDirectory (d : Disk) (p : Path) : Except AccessFailure Disk :=
  if p.bytes = [] ∨ d.isDirectory p then .ok d
  else
    match d.slot d.here p with
    | .error e => .error e
    | .ok loc => if (d.at? loc).isSome then .error .notADirectory else .ok (d.put loc .directory)

def makeDirectories (d : Disk) (p : Path) : Except AccessFailure Disk :=
  p.ancestors.reverse.foldlM makeDirectory d

/-- Where a file lies that is written as `p` from the directory `loc`. Links are followed, even to a
file that is not there yet. -/
def place (d : Disk) (links : Nat) (loc : Location) (p : Path) : Except AccessFailure Location :=
  match d.slot loc p with
  | .error e => .error e
  | .ok spot =>
    match d.at? spot with
    | some (.link target) =>
      match links with
      | 0 => .error .linkLoop
      | links + 1 => place d links spot.tail target
    | _ => .ok spot

def makeParents (d : Disk) (p : Path) : Except AccessFailure Disk :=
  match p.parent? with
  | some up => d.makeDirectories up
  | none => .ok d

/-- Writes a file, and makes the directories above it. What is written to a device is gone. -/
def write (d : Disk) (p : Path) (content : Bytes) : Except AccessFailure Disk := do
  let d ← d.makeParents p
  let loc ← d.place linkLimit d.here p
  match d.at? loc with
  | some .directory => throw .isADirectory
  | some .device => return d
  | _ => return d.put loc (.file content)

def link (d : Disk) (p target : Path) : Except AccessFailure Disk := do
  let d ← d.makeParents p
  return d.put (← d.slot d.here p) (.link target)

def remove (d : Disk) (p : Path) : Except AccessFailure Disk := do
  return d.erase (← d.locate false p)

end KeyAudit.Disk
