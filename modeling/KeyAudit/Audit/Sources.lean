import KeyAudit.Audit.Failure
import KeyAudit.Disk.Walk
import KeyAudit.Path.Order
import KeyAudit.Settings.Basic

namespace KeyAudit

/-- The files to be searched: those below the root, sorted, and the entry file. -/
structure Sources where
  files : List Path
  entryFile : Path
  deriving DecidableEq, Repr

namespace Sources

def all (s : Sources) : List Path := s.files ++ [s.entryFile]

def count (s : Sources) : Nat := s.files.length + 1

def failure? : Finding → Option AuditFailure
  | .cycle link ancestor => some (.scan link (.cycle link ancestor))
  | .tooLong p => some (.scan p (.inaccessible p .nameTooLong))
  | .file _ | .stray _ => none

/-- A link that leads nowhere counts as a file, so that reading it fails. -/
def candidate? : Finding → Option Path
  | .file p | .stray p => some p
  | .cycle _ _ | .tooLong _ => none

def ofFindings (root : Path) (settings : Settings) (found : List Finding) :
    Except AuditFailure Sources :=
  match found.findSome? failure? with
  | some e => .error e
  | none => .ok
    { files := Path.sort ((found.filterMap candidate?).filter settings.selects)
      entryFile := root.join settings.entryFile }

def scan (d : Disk) (root : Path) (settings : Settings) : Except AuditFailure Sources :=
  if d.isDirectory root then ofFindings root settings (d.walk root)
  else .error (.scan root (if d.has root then .notADirectory else .noSuchDirectory))

end Sources

end KeyAudit
