import KeyAudit.Command.Outcome
import KeyAudit.Proofs.Enumeration
import KeyAudit.Proofs.Text.Trim

namespace KeyAudit

namespace Settings

variable {d : Disk} {p start : Path} {s : Settings} {loaded : Loaded}

/-- There is something to scan for: extensions that are not empty once they are bared, and an entry file
that is not blank. -/
structure IsSound (s : Settings) : Prop where
  extensions : s.extensions ≠ []
  bare : ∀ ext ∈ s.extensions, bareExtension ext ≠ ""
  entryFile : ∃ c ∈ s.entryFile.toList, Text.isBlank c = false

theorem isSound_iff : s.IsSound ↔ s.fault? = none := by
  have hentry : Text.trim s.entryFile.toList ≠ [] ↔ ∃ c ∈ s.entryFile.toList, Text.isBlank c = false := by
    rw [ne_eq, Text.trim_eq_nil_iff]
    simp only [not_forall, Bool.not_eq_true, exists_prop]
  rw [fault?_eq_none_iff, hentry]
  constructor
  · intro h
    exact ⟨h.extensions, h.bare, h.entryFile⟩
  · intro h
    obtain ⟨hne, hbare, hentry⟩ := h
    exact ⟨hne, hbare, hentry⟩

theorem isSound_default : IsSound {} := isSound_iff.2 (by decide)

theorem IsSound.extension_of_selects (h : s.IsSound) (hp : s.selects p = true) :
    ∃ ext, p.extension? = some ext ∧ ext ≠ [] := by
  unfold selects at hp
  split at hp
  · rename_i ext hext
    obtain ⟨b, hb, htext⟩ := Option.bind_eq_some_iff.1 hext
    obtain ⟨e, he, heq⟩ := List.any_eq_true.1 hp
    refine ⟨b, hb, ?_⟩
    intro hnil
    rw [hnil, show Text.ofUtf8? [] = some "" from Text.ofUtf8?_utf8 ""] at htext
    exact h.bare e he ((decide_eq_true_iff.1 heq).trans (Option.some.inj htext).symm)
  · cases hp

example : Path.extension? "r/a." = some [] := by decide

/-- How the attempt to load the file at a path ends. -/
inductive LoadEnds (d : Disk) (p : Path) : Except LoadFailure Loaded → Prop
  | unreadable {cause : AccessFailure} (hread : d.readText p = .error cause) :
      LoadEnds d p (.error (.unreadable p))
  | malformed {text : String} (hread : d.readText p = .ok text) (hparse : ofJson? text = none) :
      LoadEnds d p (.error (.malformed p))
  | invalid {text : String} {s : Settings} {fault : Fault} (hread : d.readText p = .ok text)
      (hparse : ofJson? text = some s) (hfault : s.fault? = some fault) :
      LoadEnds d p (.error (.invalid fault))
  | loaded {text : String} {s : Settings} (hread : d.readText p = .ok text)
      (hparse : ofJson? text = some s) (hsound : s.IsSound) : LoadEnds d p (.ok ⟨s, some p⟩)

theorem loadEnds_loadFile (d : Disk) (p : Path) : LoadEnds d p (loadFile d p) := by
  unfold loadFile
  split
  · rename_i hread
    exact .unreadable hread
  · rename_i text hread
    split
    · rename_i hparse
      exact .malformed hread hparse
    · rename_i s hparse
      split
      · rename_i fault hfault
        exact .invalid hread hparse hfault
      · rename_i hfault
        exact .loaded hread hparse (isSound_iff.2 hfault)

theorem LoadEnds.eq_loadFile {r : Except LoadFailure Loaded} (h : LoadEnds d p r) : loadFile d p = r := by
  unfold loadFile
  cases h with
  | unreadable hread => rw [hread]
  | malformed hread hparse => simp only [hread, hparse]
  | invalid hread hparse hfault => simp only [hread, hparse, hfault]
  | loaded hread hparse hsound => simp only [hread, hparse, isSound_iff.1 hsound]

theorem load_of_none (h : search d start = none) : load d start = .ok ⟨{}, none⟩ := by
  rw [load, h]

theorem load_of_some (h : search d start = some p) : load d start = loadFile d p := by
  rw [load, h]

theorem load_eq_ok (h : load d start = .ok loaded) :
    loaded.source = search d start ∧ loaded.settings.IsSound := by
  cases hs : search d start with
  | none =>
    rw [load_of_none hs] at h
    obtain rfl := Except.ok.inj h
    exact ⟨rfl, isSound_default⟩
  | some p =>
    rw [load_of_some hs] at h
    have hends := loadEnds_loadFile d p
    rw [h] at hends
    cases hends with
    | loaded hread hparse hsound => exact ⟨rfl, hsound⟩

theorem extension_of_mem_files {root : Path} {sources : Sources} (h : s.IsSound)
    (hscan : Sources.scan d root s = .ok sources) (hp : p ∈ sources.files) :
    ∃ ext, p.extension? = some ext ∧ ext ≠ [] :=
  h.extension_of_selects (Sources.selects_of_selects ((Sources.mem_files hscan).1 hp).1)

/-- Where a search finds no settings file the default settings are loaded. Where it finds one, that file
decides: it is loaded if it is text that denotes sound settings, and otherwise its first failing is
reported. So the settings of every run are sound, and every file below the root that it reads has an
extension that is not empty. -/
theorem load_nearest_or_default (d : Disk) (start : Path) :
    (search d start = none → load d start = .ok ⟨{}, none⟩) ∧
    (∀ p, search d start = some p → ∀ r, load d start = r ↔ LoadEnds d p r) ∧
    (∀ loaded, load d start = .ok loaded →
      loaded.source = search d start ∧ loaded.settings.IsSound) ∧
    ∀ (w : Command.Surroundings) (q : Command.Request),
      (∃ e, load w.disk (w.searchStart q) = .error e ∧ w.run q = ⟨[], "", some (.settings e)⟩) ∨
      ∃ loaded, load w.disk (w.searchStart q) = .ok loaded ∧
        loaded.settings.IsSound ∧
        (w.run q = match Audit.run w.disk q.path (w.template q) loaded.settings with
          | .error e => ⟨[], w.settingsNote q loaded ++ w.templateNote q, some (.audit e)⟩
          | .ok a => w.report q (w.settingsNote q loaded ++ w.templateNote q) a) ∧
        ∀ sources, Sources.scan w.disk q.path loaded.settings = .ok sources →
          ∀ p ∈ sources.files, ∃ ext, p.extension? = some ext ∧ ext ≠ [] := by
  refine ⟨load_of_none, ?_, fun loaded ↦ load_eq_ok, ?_⟩
  · intro p hp r
    rw [load_of_some hp]
    constructor
    · intro h
      exact h ▸ loadEnds_loadFile d p
    · intro h
      exact h.eq_loadFile
  · intro w q
    cases hload : load w.disk (w.searchStart q) with
    | error e => exact .inl ⟨e, rfl, by rw [Command.Surroundings.run, hload]⟩
    | ok loaded =>
      have hsound := (load_eq_ok hload).2
      refine .inr ⟨loaded, rfl, hsound, ?_, ?_⟩
      · cases haudit : Audit.run w.disk q.path (w.template q) loaded.settings <;>
          simp only [Command.Surroundings.run, hload, haudit]
      · exact fun sources hscan p ↦ extension_of_mem_files hsound hscan

def unsoundText : String := "\x7b\"extensions\": [\"js\", \" ..\"]\x7d"

def soundText : String := "\x7b\"extensions\": [\"ts\"]\x7d"

def shadowingDisk : Disk where
  records := [([fileName.bytes], .file (Text.utf8 soundText)), ([Text.utf8 "p"], .directory),
    ([fileName.bytes, Text.utf8 "p"], .file (Text.utf8 unsoundText))]
  here := []

theorem load_shadowingDisk :
    search shadowingDisk "/p" = some ("/p/.checkunusedrc.json" : Path) ∧
    load shadowingDisk "/p" = .error (.invalid (.blankExtension " ..")) ∧
    search shadowingDisk "/" = some ("/.checkunusedrc.json" : Path) ∧
    load shadowingDisk "/" = .ok ⟨{ extensions := ["ts"] }, some ("/.checkunusedrc.json" : Path)⟩ := by
  have hnear : search shadowingDisk "/p" = some ("/p/.checkunusedrc.json" : Path) := by decide +kernel
  have hfar : search shadowingDisk "/" = some ("/.checkunusedrc.json" : Path) := by decide +kernel
  obtain ⟨-, hp, -⟩ := load_nearest_or_default shadowingDisk "/p"
  obtain ⟨-, hroot, -⟩ := load_nearest_or_default shadowingDisk "/"
  refine ⟨hnear, (hp _ hnear _).2 ?_, hfar, (hroot _ hfar _).2 ?_⟩
  · have hread : shadowingDisk.readText "/p/.checkunusedrc.json" = .ok unsoundText := rfl
    have hparse : ofJson? unsoundText = some { extensions := ["js", " .."] } := by decide +kernel
    exact .invalid hread hparse rfl
  · have hread : shadowingDisk.readText "/.checkunusedrc.json" = .ok soundText := rfl
    have hparse : ofJson? soundText = some { extensions := ["ts"] } := by decide +kernel
    exact .loaded hread hparse (isSound_iff.2 rfl)

end Settings

end KeyAudit
