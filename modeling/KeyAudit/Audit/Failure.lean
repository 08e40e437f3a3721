import KeyAudit.Disk.Lookup
import KeyAudit.Path.Display

namespace KeyAudit

inductive ScanFailure where
  | noSuchDirectory
  | notADirectory
  | cycle (link ancestor : Path)
  | inaccessible (path : Path) (cause : AccessFailure)
  deriving DecidableEq, Repr

inductive TemplateFailure where
  | unreadable (cause : AccessFailure)
  | malformed
  deriving DecidableEq, Repr

inductive AuditFailure where
  | scan (path : Path) (cause : ScanFailure)
  | template (path : Path) (cause : TemplateFailure)
  | file (path : Path) (cause : AccessFailure)
  deriving DecidableEq, Repr

def ScanFailure.message : ScanFailure → String
  | .noSuchDirectory => "no such directory"
  | .notADirectory => "not a directory"
  | .cycle link ancestor =>
    "File system loop found: " ++ link.display ++ " points to an ancestor " ++ ancestor.display
  | .inaccessible path cause => "IO error for operation on " ++ path.display ++ ": " ++ cause.message

/-- The first words of every explanation of why a text is no document. -/
def TemplateFailure.outline : String := "TOML parse error"

def TemplateFailure.message (explanation : String) : TemplateFailure → String
  | .unreadable cause => cause.message
  | .malformed => explanation

def AuditFailure.path : AuditFailure → Path
  | .scan p _ | .template p _ | .file p _ => p

def AuditFailure.message (e : AuditFailure)
    (explanation : String := TemplateFailure.outline) : String :=
  match e with
  | .scan p cause => "cannot scan directory " ++ p.display ++ ": " ++ cause.message
  | .template p cause => "failed to load template " ++ p.display ++ ": " ++ cause.message explanation
  | .file p cause => "failed to read " ++ p.display ++ ": " ++ cause.message

end KeyAudit
