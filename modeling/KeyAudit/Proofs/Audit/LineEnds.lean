import KeyAudit.Proofs.Audit.Result
import KeyAudit.Proofs.Disk.Rewriting
import KeyAudit.Proofs.Text.Returns

namespace KeyAudit

open Text

/-- The content with CR LF at the end of each line, unless it holds a CR already. -/
def Text.returned (content : Bytes) : Bytes :=
  if carriageReturn ∈ content then content else withReturns carriageReturn lineFeed content

/-- The same disk, where the lines of the chosen files end with CR LF if they ended with LF. -/
def Disk.returned (d : Disk) (chosen : Location → Bool) : Disk :=
  d.rewritten fun loc content ↦ if chosen loc then Text.returned content else content

/-- Two contents have the same lines, and are texts that make the same template, or no texts. -/
structure Text.ReadsAlike (x y : Bytes) : Prop where
  lines : Text.lines x = Text.lines y
  template : (ofUtf8? x).map Template.ofToml? = (ofUtf8? y).map Template.ofToml?

variable {d : Disk} {chosen : Location → Bool} {content : Bytes}

theorem Text.readsAlike_refl (x : Bytes) : ReadsAlike x x := ⟨rfl, rfl⟩

theorem Text.readsAlike_returned (content : Bytes) : ReadsAlike (returned content) content := by
  by_cases h : carriageReturn ∈ content
  · rw [returned, if_pos h]
    exact readsAlike_refl content
  · rw [returned, if_neg h]
    refine ⟨lines_withReturns h, ?_⟩
    rw [ofUtf8?_withReturns h, Option.map_map]
    cases hs : ofUtf8? content with
    | none => rw [Option.map_none, Option.map_none]
    | some s =>
      have hreturn : '\r' ∉ s.toList := return_notMem_of_encode (eq_encode_of_ofUtf8? hs ▸ h)
      exact congrArg some (Template.ofToml?_withReturns hreturn)

theorem Disk.read_returned (d : Disk) (chosen : Location → Bool) (p : Path) :
    (∃ cause, (d.returned chosen).read p = .error cause ∧ d.read p = .error cause) ∨
      ∃ x y, (d.returned chosen).read p = .ok x ∧ d.read p = .ok y ∧ ReadsAlike x y := by
  obtain hsame | ⟨loc, y, hy, hx⟩ := d.read_rewritten
    (fun loc content ↦ if chosen loc then Text.returned content else content) p
  · cases hr : d.read p with
    | error cause => exact .inl ⟨cause, hsame.trans hr, rfl⟩
    | ok y => exact .inr ⟨y, y, hsame.trans hr, rfl, readsAlike_refl y⟩
  · refine .inr ⟨_, y, hx, hy, ?_⟩
    split
    · exact readsAlike_returned y
    · exact readsAlike_refl y

theorem Template.load_returned (d : Disk) (chosen : Location → Bool) (p : Path) :
    load (d.returned chosen) p = load d p := by
  rw [load, load, Disk.readText, Disk.readText]
  obtain ⟨cause, hx, hy⟩ | ⟨x, y, hx, hy, hread⟩ := d.read_returned chosen p
  · rw [hx, hy]
  · rw [hx, hy]
    dsimp only
    have ht := hread.template
    cases hs : ofUtf8? x with
    | none =>
      rw [hs, Option.map_none] at ht
      rw [Option.map_eq_none_iff.1 ht.symm]
    | some s =>
      rw [hs, Option.map_some] at ht
      obtain ⟨t, hu, he⟩ := Option.map_eq_some_iff.1 ht.symm
      rw [hu]
      dsimp only
      rw [he]

theorem Sightings.readFile_returned (d : Disk) (chosen : Location → Bool) (s : Sightings) (p : Path) :
    readFile (d.returned chosen) s p = readFile d s p := by
  rw [readFile, readFile]
  obtain ⟨cause, hx, hy⟩ | ⟨x, y, hx, hy, hread⟩ := d.read_returned chosen p
  · rw [hx, hy]
  · rw [hx, hy]
    dsimp only
    rw [lookThrough, lookThrough, hread.lines]

namespace Audit

theorem unmentioned_returned (d : Disk) (chosen : Location → Bool) (t : Template)
    (files : List Path) : unmentioned (d.returned chosen) t files = unmentioned d t files := by
  have hread : Sightings.readFile (d.returned chosen) = Sightings.readFile d := by
    funext s p
    exact Sightings.readFile_returned d chosen s p
  rw [unmentioned, unmentioned, hread]

/-- How lines are ended does not matter. Where the template, sources or the entry file are written with
CR LF instead of LF, an audit has the same result, or fails in the same way and at the same path. -/
theorem run_returned (d : Disk) (chosen : Location → Bool) (root template : Path)
    (settings : Settings) :
    run (d.returned chosen) root template settings = run d root template settings := by
  have hscan : Sources.scan (d.returned chosen) root settings = Sources.scan d root settings :=
    Sources.scan_rewritten d _ root settings
  rw [run_eq, run_eq, Template.load_returned, hscan]
  simp only [unmentioned_returned]

def severalLines : String :=
  "# keys\n\"a\" = [1, # one\n\n  2,\n]\nb = \"\"\"\n\\\n \n x\n\"\"\"\n'c' = '''\n\n'''"

def severalLinesDisk : Disk where
  records := [([utf8 "r"], .directory),
    ([utf8 "a.js", utf8 "r"], .file (utf8 "b\n\nc")),
    ([utf8 "index.template.html"], .file (utf8 "\n")),
    ([utf8 "t"], .file (utf8 severalLines))]
  here := []

theorem run_severalLinesDisk_returned :
    (severalLinesDisk.returned fun _ ↦ true).read "/t" ≠ severalLinesDisk.read "/t" ∧
    run (severalLinesDisk.returned fun _ ↦ true) "/r" "/t" {} = .ok ⟨["a"], 2, 3⟩ := by
  have hrun : run severalLinesDisk "/r" "/t" {} = .ok ⟨["a"], 2, 3⟩ := by decide +kernel
  refine ⟨by decide +kernel, ?_⟩
  exact (run_returned severalLinesDisk (fun _ ↦ true) "/r" "/t" {}).trans hrun

end Audit

end KeyAudit
