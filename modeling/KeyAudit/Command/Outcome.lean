import KeyAudit.Command.Request
import KeyAudit.Command.Sink
import KeyAudit.Command.Summary
import KeyAudit.Settings.Search

namespace KeyAudit.Command

/-- What a run depends on beside its arguments. The explanation is what is said about the template if it
is malformed. -/
structure Surroundings where
  disk : Disk
  program : Path
  stdout : Sink := {}
  color : Bool := false
  explanation : String := TemplateFailure.outline

inductive RunFailure where
  | settings (cause : Settings.LoadFailure)
  | audit (cause : AuditFailure)
  | output
  deriving DecidableEq, Repr

def RunFailure.message (e : RunFailure)
    (explanation : String := TemplateFailure.outline) : String :=
  match e with
  | .settings cause => cause.message
  | .audit cause => cause.message explanation
  | .output => "Failed to write unused keys"

structure Outcome where
  stdout : Bytes
  stderr : String
  failure : Option RunFailure
  deriving DecidableEq, Repr

namespace Surroundings

variable (w : Surroundings)

/-- Settings are searched from where the path really leads. -/
def searchStart (q : Request) : Path := (w.disk.canonical? q.path).getD q.path

def template (q : Request) : Path :=
  q.template.getD (Template.besideProgram ((w.disk.canonical? w.program).getD w.program))

def settingsNote (q : Request) (loaded : Settings.Loaded) : String :=
  match q.verbose, loaded.source with
  | true, some p => note w.color ("using " ++ p.display)
  | _, _ => ""

def templateNote (q : Request) : String :=
  if q.verbose then note w.color ("template " ++ (w.template q).display) else ""

/-- Writes the unused keys. A reader who has left is no failure, but then there is no summary. -/
def report (q : Request) (notes : String) (a : Audit) : Outcome :=
  match w.stdout.writeKeys a.unused with
  | (s, true) => ⟨s.output, notes ++ if q.verbose then summary w.color a else "", none⟩
  | (s, false) => ⟨s.output, notes, if s.failure = .closed then none else some .output⟩

def run (q : Request) : Outcome :=
  match Settings.load w.disk (w.searchStart q) with
  | .error e => ⟨[], "", some (.settings e)⟩
  | .ok loaded =>
    let notes := w.settingsNote q loaded ++ w.templateNote q
    match Audit.run w.disk q.path (w.template q) loaded.settings with
    | .error e => ⟨[], notes, some (.audit e)⟩
    | .ok a => w.report q notes a

end Surroundings

end KeyAudit.Command
