import KeyAudit.Proofs.Audit.Outcome
import KeyAudit.Proofs.Disk.Respelling

namespace KeyAudit

variable {d : Disk} {root root' p p' : Path} {settings : Settings} {ns : List Name}
  {found found' : List Finding} {files files' : List Path}

/-- What two spellings of one root make of the same place: the spellings themselves, or one path that is
joined to both. -/
def Path.Moved (root root' p p' : Path) : Prop :=
  (p = root ∧ p' = root') ∨ ∃ s, p = root.join s ∧ p' = root'.join s

inductive ScanFailure.Moved (root root' : Path) : ScanFailure → ScanFailure → Prop
  | noSuchDirectory : Moved root root' .noSuchDirectory .noSuchDirectory
  | notADirectory : Moved root root' .notADirectory .notADirectory
  | cycle {link link' ancestor ancestor' : Path} : Path.Moved root root' link link' →
    Path.Moved root root' ancestor ancestor' →
    Moved root root' (.cycle link ancestor) (.cycle link' ancestor')
  | inaccessible {p p' : Path} (cause : AccessFailure) : Path.Moved root root' p p' →
    Moved root root' (.inaccessible p cause) (.inaccessible p' cause)

/-- The same failure below two spellings of one root. A failure of the template has nothing to do with
the root, wherever the template lies. -/
inductive AuditFailure.Moved (root root' : Path) : AuditFailure → AuditFailure → Prop
  | template (p : Path) (cause : TemplateFailure) :
    Moved root root' (.template p cause) (.template p cause)
  | scan {p p' : Path} {cause cause' : ScanFailure} : Path.Moved root root' p p' →
    ScanFailure.Moved root root' cause cause' → Moved root root' (.scan p cause) (.scan p' cause')
  | file {p p' : Path} (cause : AccessFailure) : Path.Moved root root' p p' →
    Moved root root' (.file p cause) (.file p' cause)

namespace Sources

end Sources

namespace Sightings

end Sightings

end KeyAudit
