import KeyAudit.Proofs.Audit.Outcome

namespace KeyAudit

variable {d : Disk} {root template p : Path} {settings : Settings} {files : List Path} {k : String}
  {a : Audit}

namespace Disk

/-- A line of the file at the path holds the key in one piece. -/
def Mentions (d : Disk) (p : Path) (k : String) : Prop :=
  ∃ content line text, d.read p = .ok content ∧ Text.IsLine content line ∧
    Text.ofUtf8? line = some text ∧ k.toList <:+: text.toList

/-- The files that an audit reads: those below the root that the settings select, and the entry file. -/
def IsSource (d : Disk) (root : Path) (settings : Settings) (p : Path) : Prop :=
  (d.Selects root settings p ∧ d.LeadsToFile p) ∨ p = root.join settings.entryFile

theorem mem_textLines {text : String} : text ∈ d.textLines p ↔
    ∃ content line, d.read p = .ok content ∧ Text.IsLine content line ∧
      Text.ofUtf8? line = some text := by
  unfold textLines
  cases d.read p with
  | error cause => simp
  | ok content => simp [Text.textLines, List.mem_filterMap, Text.mem_lines]

theorem isMentioned_iff : Sightings.isMentioned (files.flatMap d.textLines) k = true ↔
    ∃ p ∈ files, d.Mentions p k := by
  simp only [Sightings.isMentioned, List.any_eq_true, List.mem_flatMap, mem_textLines,
    Text.occursIn_iff, Mentions]
  constructor
  · intro h
    obtain ⟨text, ⟨p, hp, content, line, hc, hl, ht⟩, hk⟩ := h
    exact ⟨p, hp, content, line, text, hc, hl, ht, hk⟩
  · intro h
    obtain ⟨p, hp, content, line, text, hc, hl, ht, hk⟩ := h
    exact ⟨text, ⟨p, hp, content, line, hc, hl, ht⟩, hk⟩

theorem Enumerates.mem_iff_of_readable (h : d.Enumerates root settings files)
    (hr : ∀ p ∈ files, d.IsReadable p) :
    p ∈ files ↔ d.Selects root settings p ∧ d.LeadsToFile p := by
  constructor
  · intro hp
    obtain ⟨hs, hf | hstray⟩ := (h.mem_iff p).1 hp
    · exact ⟨hs, hf⟩
    · exact absurd (hr p hp) hstray.not_isReadable
  · intro h
    obtain ⟨hs, hf⟩ := h
    exact (h.mem_iff p).2 ⟨hs, .inl hf⟩

end Disk

namespace Audit

theorem run_eq_ok (h : run d root template settings = .ok a) : ∃ t s,
    Template.load d template = .ok t ∧ Sources.scan d root settings = .ok s ∧
    (∀ p ∈ s.all, d.IsReadable p) ∧
    a = ⟨t.keys.filter fun k ↦ !Sightings.isMentioned (s.all.flatMap d.textLines) k, s.count,
      t.keys.length⟩ := by
  cases ht : Template.load d template with
  | error e =>
    rw [run_of_template_error ht] at h
    cases h
  | ok t =>
    cases hs : Sources.scan d root settings with
    | error e =>
      rw [run_of_scan_error ht hs] at h
      cases h
    | ok s =>
      rcases d.readable_or_firstUnreadable s.all with hr | ⟨p, cause, hp⟩
      · rw [run_of_readable ht hs hr] at h
        exact ⟨t, s, rfl, rfl, hr, (Except.ok.inj h).symm⟩
      · rw [run_of_firstUnreadable ht hs hp] at h
        cases h

open scoped Classical in
/-- An audit that comes to its end returns the keys of the template that no line of a source holds, in
the order of the template, and counts the sources and the keys. -/
theorem run_unused_exact (h : run d root template settings = .ok a) :
    ∃ t, Template.load d template = .ok t ∧
      a.unused = t.keys.filter (fun k ↦ ¬ ∃ p, d.IsSource root settings p ∧ d.Mentions p k) ∧
      a.keyCount = t.keys.length ∧
      ∃ files : List Path, files.Nodup ∧
        (∀ p, p ∈ files ↔ d.Selects root settings p ∧ d.LeadsToFile p) ∧
        a.fileCount = files.length + 1 := by
  obtain ⟨t, s, ht, hs, hr, rfl⟩ := run_eq_ok h
  have henum := Sources.enumerates_of_scan hs
  have hall := Sources.all_eq_of_scan hs
  have hfiles (p : Path) : p ∈ s.files ↔ d.Selects root settings p ∧ d.LeadsToFile p :=
    henum.mem_iff_of_readable fun p hp ↦ hr p (hall ▸ List.mem_append_left _ hp)
  have hsource (p : Path) : p ∈ s.all ↔ d.IsSource root settings p := by
    rw [hall, List.mem_append, hfiles, List.mem_singleton]
    rfl
  refine ⟨t, ht, ?_, rfl, s.files, ?_, hfiles, rfl⟩
  · apply List.filter_congr
    intro k _
    rw [Bool.eq_iff_iff, Bool.not_eq_true', ← Bool.not_eq_true, Disk.isMentioned_iff,
      decide_eq_true_iff]
    simp only [hsource]
  · apply henum.pairwise.imp
    intro p q hpq he
    subst he
    exact asymm hpq hpq

def mentioningDisk : Disk where
  records := [([Text.utf8 "r"], .directory),
    ([Text.utf8 "a.js", Text.utf8 "r"], .file (Text.utf8 "x\r\nt.used")),
    ([Text.utf8 "index.template.html"], .file (Text.utf8 "us\ned")),
    ([Text.utf8 "t"], .file (Text.utf8 "free = 1\nused = 1"))]
  here := []

theorem leadsToDirectory_mentioningDisk :
    mentioningDisk.LeadsToDirectory "/r" [Text.utf8 "r"] := ⟨rfl, rfl⟩

theorem not_leadsToDirectory_mentioningDisk (loc : Location) :
    ¬ mentioningDisk.LeadsToDirectory "/r/a.js" loc := by
  have hfile : mentioningDisk.entry "/r/a.js" = .ok (.file (Text.utf8 "x\r\nt.used")) := rfl
  obtain ⟨-, place, hl, hat⟩ := Disk.entry_eq_ok.1 hfile
  exact fun hd ↦ hd.not_file ⟨place, _, hl, hat⟩

theorem walkable_mentioningDisk {ns : List Name} (h : mentioningDisk.Walkable "/r" ns) :
    ns = [] ∨ ns = [Text.utf8 "a.js"] :=
  h.eq_nil_or_singleton leadsToDirectory_mentioningDisk.1 (by decide)
    not_leadsToDirectory_mentioningDisk

theorem run_mentioningDisk : run mentioningDisk "/r" "/t" {} = .ok ⟨["free"], 2, 2⟩ ∧
    ¬ ∃ p, mentioningDisk.IsSource "/r" {} p ∧ mentioningDisk.Mentions p "free" := by
  classical
  have hrun : run mentioningDisk "/r" "/t" {} = .ok ⟨["free"], 2, 2⟩ := by decide +kernel
  obtain ⟨t, -, hunused, -⟩ := run_unused_exact hrun
  have hmem : "free" ∈ ["free"] := List.mem_singleton_self _
  dsimp only at hunused
  rw [hunused, List.mem_filter, decide_eq_true_iff] at hmem
  exact ⟨hrun, hmem.2⟩

end Audit

end KeyAudit
