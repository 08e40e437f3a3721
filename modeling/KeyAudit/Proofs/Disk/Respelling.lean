import KeyAudit.Proofs.Disk.Findings
import KeyAudit.Proofs.Path.Suffix
import Mathlib.Data.List.Forall2

namespace KeyAudit

variable {d : Disk} {root root' p q : Path} {settings : Settings} {trail trail' : Disk.Trail}
  {loc loc' : Location} {n : Name} {ns : List Name} {follow : Bool}

namespace Disk

/-- What an audit looks up from its root: the places that a walk can come by, and the entry file. -/
inductive Asks (d : Disk) (root : Path) (settings : Settings) : Path → Prop
  | below {ns : List Name} : ns ≠ [] → d.Walkable root ns → Asks d root settings (.ofNames ns)
  | entryFile : Asks d root settings settings.entryFile

/-- Two spellings of one root. They lead to the same place, and so does every relative path that an
audit joins to them. -/
structure Respells (d : Disk) (root root' : Path) (settings : Settings) : Prop where
  same : d.locate true root = d.locate true root'
  joined : ∀ s, s.isAbsolute = false → d.Asks root settings s →
    ∀ follow, d.locate follow (root.join s) = d.locate follow (root'.join s)

theorem Respells.below (h : d.Respells root root' settings) (hw : d.Walkable root ns) (hne : ns ≠ [])
    (follow : Bool) : d.locate follow (root.below ns) = d.locate follow (root'.below ns) := by
  rw [Path.below_eq_join hne hw.isProper, Path.below_eq_join hne hw.isProper]
  exact h.joined _ (Path.isAbsolute_ofNames hw.isProper) (.below hne hw) follow

theorem Respells.entryFile (h : d.Respells root root' settings) :
    d.locate true (root.join settings.entryFile) = d.locate true (root'.join settings.entryFile) := by
  cases ha : (settings.entryFile : Path).isAbsolute with
  | true => rw [Path.join, Path.join, if_pos ha, if_pos ha]
  | false => exact h.joined _ ha .entryFile true

end Disk

inductive Finding.Parallel (d : Disk) (root root' : Path) : Finding → Finding → Prop
  | file {ns : List Name} : d.Walkable root ns → ns ≠ [] →
    Parallel d root root' (.file (root.below ns)) (.file (root'.below ns))
  | stray {ns : List Name} : d.Walkable root ns → ns ≠ [] →
    Parallel d root root' (.stray (root.below ns)) (.stray (root'.below ns))
  | cycle {ns ms : List Name} : d.Walkable root ns → d.Walkable root ms →
    Parallel d root root' (.cycle (root.below ns) (root.below ms))
      (.cycle (root'.below ns) (root'.below ms))
  | tooLong {ns : List Name} : d.Walkable root ns →
    Parallel d root root' (.tooLong (root.below ns)) (.tooLong (root'.below ns))

namespace Disk

inductive Turn.Parallel (d : Disk) (root root' : Path) : Turn → Turn → Prop
  | enter (loc : Location) : Parallel d root root' (.enter loc) (.enter loc)
  | report {f f' : Finding} : f.Parallel d root root' f' →
    Parallel d root root' (.report f) (.report f')
  | pass : Parallel d root root' .pass .pass

variable (h : d.Respells root root' settings)
include h

end Disk

end KeyAudit
