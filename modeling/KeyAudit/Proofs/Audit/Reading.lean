import KeyAudit.Audit.Basic
import KeyAudit.Proofs.Sightings
import KeyAudit.Proofs.Text.Lines

namespace KeyAudit

variable {d : Disk} {p : Path} {s : Sightings} {t : Template} {files : List Path}

namespace Text

variable {content : Bytes}

def textLines (content : Bytes) : List String := (lines content).filterMap ofUtf8?

end Text

def Disk.textLines (d : Disk) (p : Path) : List String :=
  match d.read p with
  | .ok content => Text.textLines content
  | .error _ => []

/-- The file at a path can be read to its end, and is text. -/
def Disk.IsReadable (d : Disk) (p : Path) : Prop := ∃ text, d.readText p = .ok text

namespace Sightings

theorem foldlM_look (ls : List Bytes) (s : Sightings) :
    ls.foldlM (fun s line ↦ (Text.ofUtf8? line).map s.look) s =
      if ∀ line ∈ ls, (Text.ofUtf8? line).isSome then
        some ((ls.filterMap Text.ofUtf8?).foldl (fun s line ↦ s.look line) s)
      else none := by
  induction ls generalizing s with
  | nil => simp
  | cons line ls ih =>
    rw [List.foldlM_cons]
    cases hl : Text.ofUtf8? line with
    | none => simp [hl]
    | some text => simp [hl, ih]

theorem lookThrough_eq (s : Sightings) (content : Bytes) :
    s.lookThrough content = (Text.ofUtf8? content).map fun _ ↦
      (Text.textLines content).foldl (fun s line ↦ s.look line) s := by
  simp only [lookThrough, foldlM_look, Text.forall_lines_isSome_ofUtf8?]
  cases Text.ofUtf8? content <;> rfl

theorem readFile_eq (d : Disk) (s : Sightings) (p : Path) :
    readFile d s p = match d.readText p with
      | .ok _ => .ok ((d.textLines p).foldl (fun s line ↦ s.look line) s)
      | .error cause => .error (.file p cause) := by
  unfold readFile Disk.readText Disk.textLines
  cases d.read p with
  | error cause => rfl
  | ok content =>
    simp only [lookThrough_eq]
    cases Text.ofUtf8? content <;> rfl

theorem foldlM_readFile_of_readable (s : Sightings) (h : ∀ p ∈ files, d.IsReadable p) :
    files.foldlM (readFile d) s =
      .ok ((files.flatMap d.textLines).foldl (fun s line ↦ s.look line) s) := by
  induction files generalizing s with
  | nil => rfl
  | cons p files ih =>
    obtain ⟨⟨text, hp⟩, hfiles⟩ := List.forall_mem_cons.1 h
    rw [List.foldlM_cons, readFile_eq, hp, List.flatMap_cons, List.foldl_append]
    exact ih _ hfiles

end Sightings

/-- The first of the files that cannot be read, and why not. -/
def Disk.FirstUnreadable (d : Disk) (files : List Path) (p : Path) (cause : AccessFailure) : Prop :=
  d.readText p = .error cause ∧
    ∃ before after, files = before ++ p :: after ∧ ∀ q ∈ before, d.IsReadable q

theorem Disk.readable_or_firstUnreadable (d : Disk) (files : List Path) :
    (∀ p ∈ files, d.IsReadable p) ∨ ∃ p cause, d.FirstUnreadable files p cause := by
  induction files with
  | nil => simp
  | cons p files ih =>
    cases hp : d.readText p with
    | error cause => exact .inr ⟨p, cause, hp, [], files, rfl, by simp⟩
    | ok text =>
      rcases ih with h | ⟨q, cause, hq, before, after, rfl, hb⟩
      · exact .inl (List.forall_mem_cons.2 ⟨⟨text, hp⟩, h⟩)
      · exact .inr ⟨q, cause, hq, p :: before, after, rfl, List.forall_mem_cons.2 ⟨⟨text, hp⟩, hb⟩⟩

namespace Audit

open Sightings

theorem unmentioned_of_readable (t : Template) (h : ∀ p ∈ files, d.IsReadable p) :
    unmentioned d t files =
      .ok (t.keys.filter fun k ↦ !isMentioned (files.flatMap d.textLines) k) := by
  rw [unmentioned, foldlM_readFile_of_readable _ h]
  exact congrArg Except.ok (records_after t.keys _).missing

/-- The first file that cannot be read is reported, whatever was found before it. -/
theorem unmentioned_of_firstUnreadable (t : Template) {cause : AccessFailure}
    (h : d.FirstUnreadable files p cause) : unmentioned d t files = .error (.file p cause) := by
  obtain ⟨hp, before, after, rfl, hb⟩ := h
  rw [unmentioned, List.foldlM_append, foldlM_readFile_of_readable _ hb]
  change Except.map _ (List.foldlM (readFile d) _ (p :: after)) = _
  rw [List.foldlM_cons, readFile_eq, hp]
  rfl

end Audit

end KeyAudit
