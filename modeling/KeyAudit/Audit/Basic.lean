import KeyAudit.Audit.Sources
import KeyAudit.Sightings
import KeyAudit.Template
import KeyAudit.Text.Lines

namespace KeyAudit

/-- The result of an audit: the keys that no file mentions, in the order of the template, and how many
files and keys there were. -/
structure Audit where
  unused : List String
  fileCount : Nat
  keyCount : Nat
  deriving DecidableEq, Repr

def Template.load (d : Disk) (p : Path) : Except AuditFailure Template :=
  match d.readText p with
  | .error cause => .error (.template p (.unreadable cause))
  | .ok content => match ofToml? content with
    | some t => .ok t
    | none => .error (.template p .malformed)

def Sightings.lookThrough (s : Sightings) (content : Bytes) : Option Sightings :=
  (Text.lines content).foldlM (fun s line ↦ (Text.ofUtf8? line).map s.look) s

/-- All lines are read even when every key has been met, so that a file that is not text is always
found out. -/
def Sightings.readFile (d : Disk) (s : Sightings) (p : Path) : Except AuditFailure Sightings :=
  match d.read p with
  | .error cause => .error (.file p cause)
  | .ok content => match s.lookThrough content with
    | some s => .ok s
    | none => .error (.file p .notText)

namespace Audit

def unmentioned (d : Disk) (t : Template) (files : List Path) : Except AuditFailure (List String) :=
  (files.foldlM (Sightings.readFile d) (Sightings.ofKeys t.keys)).map Sightings.missing

/-- Audits the template against the files below `root`. The template is read first, then the
directory is walked, then the files are read. -/
def run (d : Disk) (root template : Path) (settings : Settings) : Except AuditFailure Audit := do
  let t ← Template.load d template
  let sources ← Sources.scan d root settings
  let unused ← unmentioned d t sources.all
  return ⟨unused, sources.count, t.keys.length⟩

end Audit

end KeyAudit
