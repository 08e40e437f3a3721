import KeyAudit.Audit.Sources
import KeyAudit.Proofs.Disk.Turns
import Mathlib.Data.List.Basic

namespace KeyAudit

def Entry.rewritten (f : Bytes → Bytes) : Entry → Entry
  | .file content => .file (f content)
  | e => e

namespace Disk

def rewritten (d : Disk) (f : Location → Bytes → Bytes) : Disk :=
  { d with records := d.records.map fun r ↦ (r.1, r.2.rewritten (f r.1)) }

theorem lookup_rewritten (f : Location → Bytes → Bytes) (records : List (Location × Entry))
    (loc : Location) :
    (records.map fun r ↦ (r.1, r.2.rewritten (f r.1))).lookup loc =
      (records.lookup loc).map (Entry.rewritten (f loc)) := by
  induction records with
  | nil => rfl
  | cons r records ih =>
    rw [List.map_cons, List.lookup_cons, List.lookup_cons]
    by_cases h : loc = r.1
    · subst h
      rw [beq_self_eq_true]
      rfl
    · rw [beq_false_of_ne h]
      exact ih

theorem at?_rewritten (d : Disk) (f : Location → Bytes → Bytes) (loc : Location) :
    (d.rewritten f).at? loc = (d.at? loc).map (Entry.rewritten (f loc)) := by
  unfold at?
  split
  · rfl
  · exact lookup_rewritten f d.records loc

theorem children_rewritten (d : Disk) (f : Location → Bytes → Bytes) (up : Location) :
    (d.rewritten f).children up = d.children up := by
  rw [children, children, rewritten, List.filterMap_map]
  rfl

theorem descendVia_rewritten (d : Disk) (f : Location → Bytes → Bytes) (fits : Location → Bool)
    (follow : Bool) (onward : Location → List Bytes → Except AccessFailure Location) (loc : Location)
    (ps : List Bytes) :
    (d.rewritten f).descendVia fits follow onward loc ps = d.descendVia fits follow onward loc ps := by
  induction ps generalizing loc with
  | nil => rfl
  | cons part ps ih =>
    simp only [descendVia, at?_rewritten, ih]
    cases d.at? (part :: loc) with
    | none => rfl
    | some e => cases e <;> rfl

theorem descend_rewritten (d : Disk) (f : Location → Bytes → Bytes) (fits : Location → Bool)
    (follow : Bool) (links : Nat) :
    (d.rewritten f).descend fits follow links = d.descend fits follow links := by
  induction links with
  | zero =>
    funext loc ps
    exact descendVia_rewritten d f fits follow _ loc ps
  | succ links ih =>
    funext loc ps
    rw [descend, descend, ih]
    exact descendVia_rewritten d f fits follow _ loc ps

theorem locate_rewritten (d : Disk) (f : Location → Bytes → Bytes) (follow : Bool) (p : Path) :
    (d.rewritten f).locate follow p = d.locate follow p := by
  simp only [locate, resolve, descend_rewritten]
  rfl

theorem entry_rewritten (d : Disk) (f : Location → Bytes → Bytes) (p : Path) :
    (d.rewritten f).entry p = match d.locate true p with
      | .ok loc => (d.entry p).map (Entry.rewritten (f loc))
      | .error _ => d.entry p := by
  rw [entry, entry, locate_rewritten]
  cases d.locate true p with
  | error cause => rfl
  | ok loc =>
    dsimp only
    rw [at?_rewritten]
    cases d.at? loc <;> rfl

theorem read_rewritten (d : Disk) (f : Location → Bytes → Bytes) (p : Path) :
    (d.rewritten f).read p = d.read p ∨
      ∃ loc content, d.read p = .ok content ∧ (d.rewritten f).read p = .ok (f loc content) := by
  rw [read, read, entry_rewritten]
  cases hl : d.locate true p with
  | error cause => exact .inl rfl
  | ok loc =>
    cases d.entry p with
    | error cause => exact .inl rfl
    | ok e =>
      cases e with
      | file content => exact .inr ⟨loc, content, rfl, rfl⟩
      | directory | link _ | device => exact .inl rfl

theorem isDirectory_rewritten (d : Disk) (f : Location → Bytes → Bytes) (p : Path) :
    (d.rewritten f).isDirectory p = d.isDirectory p := by
  rw [isDirectory, isDirectory, entry_rewritten]
  cases d.locate true p with
  | error cause => rfl
  | ok loc =>
    cases d.entry p with
    | error cause => rfl
    | ok e => cases e <;> rfl

theorem has_rewritten (d : Disk) (f : Location → Bytes → Bytes) (p : Path) :
    (d.rewritten f).has p = d.has p := by
  rw [has, has, entry_rewritten]
  cases d.locate true p with
  | error cause => rfl
  | ok loc => cases d.entry p <;> rfl

theorem turn_rewritten (d : Disk) (f : Location → Bytes → Bytes) (trail : Trail) (loc : Location)
    (p : Path) (n : Name) : (d.rewritten f).turn trail loc p n = d.turn trail loc p n := by
  simp only [turn, at?_rewritten, locate_rewritten]
  cases d.at? (n :: loc) with
  | none => rfl
  | some e =>
    cases e with
    | directory | file _ | device => rfl
    | link target =>
      simp only [Option.map_some, Entry.rewritten]
      cases d.locate true (p.join ⟨n⟩) with
      | error cause => rfl
      | ok target =>
        dsimp only
        cases d.at? target with
        | none => rfl
        | some e => cases e <;> rfl

theorem walkIn_rewritten (d : Disk) (f : Location → Bytes → Bytes) (trail : Trail) (loc : Location)
    (p : Path) : (d.rewritten f).walkIn trail loc p = d.walkIn trail loc p := by
  induction trail, loc, p using walk_induction (d := d) with
  | step trail loc p ih =>
    rw [walkIn_eq, walkIn_eq, children_rewritten]
    apply List.flatMap_congr
    intro n _
    rw [turn_rewritten]
    cases ht : d.turn trail loc p n with
    | enter next => exact ih n next ht
    | report found => rfl
    | pass => rfl

theorem walk_rewritten (d : Disk) (f : Location → Bytes → Bytes) (root : Path) :
    (d.rewritten f).walk root = d.walk root := by
  simp only [walk, locate_rewritten, walkIn_rewritten]

end Disk

theorem Sources.scan_rewritten (d : Disk) (f : Location → Bytes → Bytes) (root : Path)
    (settings : Settings) : scan (d.rewritten f) root settings = scan d root settings := by
  rw [scan, scan, Disk.isDirectory_rewritten, Disk.has_rewritten, Disk.walk_rewritten]

end KeyAudit
