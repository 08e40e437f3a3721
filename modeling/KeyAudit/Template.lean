import KeyAudit.Path.Basic
import KeyAudit.Toml.Document

namespace KeyAudit

/-- The keys of a template, in the order in which it declares them. -/
structure Template where
  keys : List String
  deriving DecidableEq, Repr

namespace Template

/-- The top-level keys of a document. Their values are checked and dropped. -/
def ofToml? (content : String) : Option Template :=
  match (Toml.Document.ofText? content.toList).bind Toml.Document.entries? with
  | some es => if Toml.areSoundEntries es then some ⟨es.map (·.1)⟩ else none
  | none => none

/-- Where the template of a project lies if nothing else is said: two directories above the
program's own, in `common`. -/
def besideProgram (program : Path) : Path :=
  ((((program.parent?.getD ".").join "..").join "..").join "common").join "template.toml"

end Template

end KeyAudit
