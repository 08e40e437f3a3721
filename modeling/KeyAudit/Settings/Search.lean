import KeyAudit.Disk.Lookup
import KeyAudit.Path.Ancestors
import KeyAudit.Path.Display
import KeyAudit.Settings.Json
import KeyAudit.Text.Quoted

namespace KeyAudit.Settings

def fileName : Path := ".checkunusedrc.json"

def projectMark : Path := ".git"

/-- The first settings file in one of these directories, up to the first one with the mark. -/
def searchIn (d : Disk) : List Path → Option Path
  | [] => none
  | dir :: dirs =>
    if d.has (dir.join fileName) then some (dir.join fileName)
    else if d.has (dir.join projectMark) then none
    else searchIn d dirs

def search (d : Disk) (start : Path) : Option Path := searchIn d start.ancestors

structure Loaded where
  settings : Settings
  source : Option Path
  deriving DecidableEq, Repr

inductive LoadFailure where
  | unreadable (path : Path)
  | malformed (path : Path)
  | invalid (fault : Fault)
  deriving DecidableEq, Repr

def LoadFailure.message : LoadFailure → String
  | .unreadable p => "Failed to read config file: " ++ Text.quoted p.bytes
  | .malformed p => "Failed to parse config file: " ++ Text.quoted p.bytes
  | .invalid fault => fault.message

def loadFile (d : Disk) (p : Path) : Except LoadFailure Loaded :=
  match d.readText p with
  | .error _ => .error (.unreadable p)
  | .ok content => match ofJson? content with
    | none => .error (.malformed p)
    | some s => match s.fault? with
      | some fault => .error (.invalid fault)
      | none => .ok ⟨s, some p⟩

/-- The settings for what lies at `start`: those of the nearest file, which have to be sound, or the
default if there is no file. -/
def load (d : Disk) (start : Path) : Except LoadFailure Loaded :=
  match search d start with
  | some p => loadFile d p
  | none => .ok ⟨{}, none⟩

end KeyAudit.Settings
