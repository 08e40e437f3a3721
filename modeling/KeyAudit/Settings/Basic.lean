import KeyAudit.Path.Basic
import KeyAudit.Text.Blank

namespace KeyAudit

/-- What to scan: the files with one of the extensions below the root, and one entry file named
relative to the root. -/
structure Settings where
  extensions : List String := ["js", "vue"]
  entryFile : String := "../index.template.html"
  deriving DecidableEq, Repr

namespace Settings

inductive Fault where
  | noExtensions
  | blankExtension (ext : String)
  | blankEntryFile
  deriving DecidableEq, Repr

def Fault.message : Fault → String
  | .noExtensions => "'extensions' must list at least one file extension"
  | .blankExtension ext => "Invalid extension in 'extensions': \"" ++ ext ++ "\""
  | .blankEntryFile => "'entryTemplate' must not be empty"

/-- An extension may be written with blanks around it and with dots in front. -/
def bareExtension (ext : String) : String :=
  String.ofList ((Text.trim ext.toList).dropWhile (· == '.'))

/-- The first fault, in the order extensions, their spelling, entry file. -/
def fault? (s : Settings) : Option Fault :=
  if s.extensions = [] then some .noExtensions
  else match s.extensions.find? (bareExtension · = "") with
    | some ext => some (.blankExtension ext)
    | none => if Text.trim s.entryFile.toList = [] then some .blankEntryFile else none

def selects (s : Settings) (p : Path) : Bool :=
  match p.extension?.bind Text.ofUtf8? with
  | some ext => s.extensions.any (bareExtension · = ext)
  | none => false

theorem fault?_eq_none_iff {s : Settings} :
    s.fault? = none ↔ s.extensions ≠ [] ∧ (∀ e ∈ s.extensions, bareExtension e ≠ "") ∧
      Text.trim s.entryFile.toList ≠ [] := by
  unfold fault?
  split
  · simp_all
  · split <;> rename_i h <;> simp_all [List.find?_eq_none]
    exact fun he ↦ absurd (List.find?_some h) (by simpa using he _ (List.mem_of_find?_eq_some h))

end Settings

end KeyAudit
