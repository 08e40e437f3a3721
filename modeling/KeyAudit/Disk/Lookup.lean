import KeyAudit.Disk.Basic

namespace KeyAudit

inductive AccessFailure where
  | notFound
  | notADirectory
  | isADirectory
  | nameTooLong
  | linkLoop
  | notText
  | embeddedNul
  deriving DecidableEq, Repr

def AccessFailure.message : AccessFailure → String
  | .notFound => "No such file or directory (os error 2)"
  | .notADirectory => "Not a directory (os error 20)"
  | .isADirectory => "Is a directory (os error 21)"
  | .nameTooLong => "File name too long (os error 36)"
  | .linkLoop => "Too many levels of symbolic links (os error 40)"
  | .notText => "stream did not contain valid UTF-8"
  | .embeddedNul => "file name contained an unexpected NUL byte"

namespace Disk

def linkLimit : Nat := 40

def pathParts (p : Path) : List Bytes := p.bytes.splitOn Path.slash

/-- Where the parts of a path lead from the directory `loc`, where `onward` tells where the parts
behind a link lead. The way goes only through places that fit, and a link in the last place is
followed only with `follow`. From a removed directory there is only the way up. -/
def descendVia (d : Disk) (fits : Location → Bool) (follow : Bool)
    (onward : Location → List Bytes → Except AccessFailure Location) (loc : Location) :
    List Bytes → Except AccessFailure Location
  | [] => .ok loc
  | part :: rest =>
    if Path.isVoid part then descendVia d fits follow onward loc rest
    else if part = [Path.dot, Path.dot] then descendVia d fits follow onward loc.tail rest
    else if isRemoved loc then .error .notFound
    else if nameLimit < part.length ∨ !fits (part :: loc) then .error .nameTooLong
    else
      match d.at? (part :: loc) with
      | none => .error .notFound
      | some .directory => descendVia d fits follow onward (part :: loc) rest
      | some (.link target) =>
        if rest = [] ∧ !follow then .ok (part :: loc)
        else if target.bytes = [] then .error .notFound
        else onward (if target.isAbsolute then [] else loc) (pathParts target ++ rest)
      | some _ => if rest = [] then .ok (part :: loc) else .error .notADirectory

def descend (d : Disk) (fits : Location → Bool) (follow : Bool) :
    (links : Nat) → Location → List Bytes → Except AccessFailure Location
  | 0 => descendVia d fits follow fun _ _ ↦ .error .linkLoop
  | links + 1 => descendVia d fits follow (descend d fits follow links)

def resolve (d : Disk) (fits : Location → Bool) (follow : Bool) (p : Path) :
    Except AccessFailure Location :=
  if p.bytes.contains 0 then .error .embeddedNul
  else if p.bytes = [] then .error .notFound
  else descend d fits follow linkLimit (if p.isAbsolute then [] else d.here) (pathParts p)

/-- The place that a path names. -/
def locate (d : Disk) (follow : Bool) (p : Path) : Except AccessFailure Location :=
  if isTooLong p ∧ !p.bytes.contains 0 then .error .nameTooLong
  else d.resolve (fun _ ↦ true) follow p

def entry (d : Disk) (p : Path) : Except AccessFailure Entry :=
  match d.locate true p with
  | .ok loc => match d.at? loc with
    | some e => .ok e
    | none => .error .notFound
  | .error e => .error e

def has (d : Disk) (p : Path) : Bool :=
  match d.entry p with
  | .ok _ => true
  | .error _ => false

def isDirectory (d : Disk) (p : Path) : Bool :=
  match d.entry p with
  | .ok .directory => true
  | _ => false

/-- The path of the same place without links, dots and repeated slashes. It is put together name by
name, so that it is not `p` that may be too long but what has been put together. It cannot start from a
directory that has been removed. -/
def canonical? (d : Disk) (p : Path) : Option Path :=
  if isRemoved d.here && !p.isAbsolute then none
  else
    match d.resolve (fun loc ↦ !isTooLong (absolutePath loc)) true p with
    | .ok loc => some (absolutePath loc)
    | .error _ => none

def read (d : Disk) (p : Path) : Except AccessFailure Bytes :=
  match d.entry p with
  | .ok (.file content) => .ok content
  | .ok .device => .ok []
  | .ok .directory => .error .isADirectory
  | .ok (.link _) => .error .linkLoop
  | .error e => .error e

def readText (d : Disk) (p : Path) : Except AccessFailure String :=
  match d.read p with
  | .ok content => match Text.ofUtf8? content with
    | some s => .ok s
    | none => .error .notText
  | .error e => .error e

end Disk

end KeyAudit
