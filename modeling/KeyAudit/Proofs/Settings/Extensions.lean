import KeyAudit.Proofs.Enumeration
import KeyAudit.Proofs.Settings.Selection
import KeyAudit.Proofs.Text.Encoding

namespace KeyAudit.Settings

open KeyAudit.Path

variable {p : Path} {s s' : Settings} {e : String} {stem b : Bytes}

structure IsStem (stem : Bytes) : Prop where
  ne_nil : stem ≠ []
  noSlash : slash ∉ stem
  noNul : 0 ∉ stem

/-- The name of a file that ends in an extension, as the extension is meant. -/
def fileNamed (stem : Bytes) (e : String) : Bytes := stem ++ dot :: Text.utf8 (bareExtension e)

/-- There is no dot and no slash inside the extension. -/
def IsPlain (e : String) : Prop :=
  '.' ∉ (bareExtension e).toList ∧ '/' ∉ (bareExtension e).toList

theorem dot_mem_utf8 {ext : String} : dot ∈ Text.utf8 ext ↔ '.' ∈ ext.toList :=
  Text.mem_utf8 (by decide)

theorem slash_mem_utf8 {ext : String} : slash ∈ Text.utf8 ext ↔ '/' ∈ ext.toList :=
  Text.mem_utf8 (by decide)

theorem selects_eq_true_iff_bare : s.selects p = true ↔
    ∃ e ∈ s.extensions, p.extension? = some (Text.utf8 (bareExtension e)) := by
  simp only [selects_eq_true, ← bareExtension_eq_iff]
  constructor
  · intro h
    obtain ⟨b, ext, e, hb, htext, he, rfl⟩ := h
    exact ⟨e, he, by rw [hb, Text.ofUtf8?_eq_some.1 htext]⟩
  · intro h
    obtain ⟨e, he, hb⟩ := h
    exact ⟨_, _, e, hb, Text.ofUtf8?_utf8 _, he, rfl⟩

theorem isPlain_of_extension? (h : p.extension? = some (Text.utf8 (bareExtension e))) : IsPlain e := by
  obtain ⟨stem, ⟨hname, -⟩, -, hdot⟩ := extension?_eq_some.1 h
  refine ⟨mt dot_mem_utf8.2 hdot, ?_⟩
  intro hslash
  exact hname.noSlash (List.mem_append_right _ (List.mem_cons_of_mem _ (slash_mem_utf8.2 hslash)))

theorem endsIn_fileNamed (hstem : IsStem stem) (hne : bareExtension e ≠ "")
    (hslash : '/' ∉ (bareExtension e).toList) : EndsIn ⟨fileNamed stem e⟩ (fileNamed stem e) := by
  refine (isName_of_length ?_ ?_).endsIn
  · have hbytes : Text.utf8 (bareExtension e) ≠ [] := mt Text.utf8_eq_nil.1 hne
    have hleft := List.length_pos_iff.2 hstem.ne_nil
    have hright := List.length_pos_iff.2 hbytes
    rw [fileNamed, List.length_append, List.length_cons]
    omega
  · rw [fileNamed, List.mem_append, List.mem_cons, slash_mem_utf8]
    intro h
    rcases h with h | h | h
    · exact hstem.noSlash h
    · exact absurd h (by decide)
    · exact hslash h

theorem nameExtension?_dot (hstem : stem ≠ []) {u : Bytes} : nameExtension? (stem ++ dot :: u) = some b ↔
    dot ∉ b ∧ (b = u ∨ dot :: b <:+ u) := by
  rw [nameExtension?_eq_some]
  constructor
  · intro h
    obtain ⟨stem', h, -, hdot⟩ := h
    refine ⟨hdot, ?_⟩
    rcases List.append_eq_append_iff.1 h with ⟨as, rfl, has⟩ | ⟨as, rfl, has⟩
    · cases as with
      | nil => exact .inl (List.cons.inj has).2.symm
      | cons c as => exact .inr ⟨as, (List.cons.inj has).2.symm⟩
    · cases as with
      | nil => exact .inl (List.cons.inj has).2
      | cons c as => exact absurd (by simp [(List.cons.inj has).2]) hdot
  · intro h
    obtain ⟨hdot, rfl | ⟨as, rfl⟩⟩ := h
    · exact ⟨stem, rfl, hstem, hdot⟩
    · exact ⟨stem ++ dot :: as, by simp, by simp, hdot⟩

theorem dot_utf8_suffix {x y : String} : dot :: Text.utf8 x <:+ Text.utf8 y ↔ '.' :: x.toList <:+ y.toList := by
  rw [Text.utf8_eq_encode, Text.utf8_eq_encode]
  have hdot : String.utf8EncodeChar '.' = [dot] := by decide
  constructor
  · intro h
    obtain ⟨z, hz⟩ := h
    obtain ⟨cs₁, cs₂, hy, -, hx⟩ := Text.encode_eq_append_cons (by decide) hz.symm
    have hx' : x.toList = cs₂ := by
      have htext := Text.ofUtf8?_encode x.toList
      rw [hx, Text.ofUtf8?_encode, Option.some_inj] at htext
      exact (String.ofList_injective htext).symm
    exact ⟨cs₁, by rw [hy, hx']; rfl⟩
  · intro h
    obtain ⟨cs, hy⟩ := h
    refine ⟨Text.encode cs, ?_⟩
    rw [← hy, Text.encode_append, Text.encode_cons, hdot]
    rfl

theorem selects_fileNamed (hstem : IsStem stem) (hne : bareExtension e ≠ "")
    (hslash : '/' ∉ (bareExtension e).toList) : s.selects ⟨fileNamed stem e⟩ = true ↔
      ∃ e' ∈ s.extensions, '.' ∉ (bareExtension e').toList ∧
        (bareExtension e' = bareExtension e ∨
          '.' :: (bareExtension e').toList <:+ (bareExtension e).toList) := by
  have hext (e' : String) : (⟨fileNamed stem e⟩ : Path).extension? = some (Text.utf8 (bareExtension e')) ↔
      '.' ∉ (bareExtension e').toList ∧ (bareExtension e' = bareExtension e ∨
        '.' :: (bareExtension e').toList <:+ (bareExtension e).toList) := by
    rw [extension?, fileName?_eq_some.2 (endsIn_fileNamed hstem hne hslash), Option.bind_some, fileNamed,
      nameExtension?_dot hstem.ne_nil, dot_mem_utf8, dot_utf8_suffix]
    exact and_congr_right fun _ ↦ or_congr_left Text.utf8_injective.eq_iff
  simp only [selects_eq_true_iff_bare, hext]

theorem scan_congr (h : ∀ p, s.selects p = s'.selects p) (hentry : s.entryFile = s'.entryFile)
    (d : Disk) (root : Path) : Sources.scan d root s = Sources.scan d root s' := by
  have hselects : s.selects = s'.selects := funext h
  unfold Sources.scan Sources.ofFindings
  rw [hselects, hentry]

theorem selects_without (h : ¬ IsPlain e) (s : Settings) (p : Path) :
    s.selects p = { s with extensions := s.extensions.filter (· ≠ e) }.selects p := by
  rw [Bool.eq_iff_iff, selects_eq_true_iff_bare, selects_eq_true_iff_bare]
  constructor
  · intro h
    obtain ⟨e', he', hext⟩ := h
    refine ⟨e', List.mem_filter.2 ⟨he', ?_⟩, hext⟩
    refine decide_eq_true ?_
    intro heq
    subst heq
    exact h (isPlain_of_extension? hext)
  · intro h
    obtain ⟨e', he', hext⟩ := h
    exact ⟨e', (List.mem_filter.1 he').1, hext⟩

theorem fault?_single (hs : s.fault? = none) (e : String) :
    { s with extensions := [e] }.fault? = none ↔ bareExtension e ≠ "" := by
  rw [fault?_eq_none_iff] at hs ⊢
  simp [hs.2.2]

/-- Settings are accepted if their extensions are not empty. A plain one then selects all files that end
in it, and they are sources; of one with a dot inside no more can be said than that another extension may
select the files that end in it, and one with a dot or a slash inside does not change what is scanned. -/
theorem accepted_extension_selects_iff (hs : s.fault? = none) (he : e ∈ s.extensions) :
    (IsPlain e → ∀ stem, IsStem stem → s.selects ⟨fileNamed stem e⟩ = true ∧
      ∀ d root sources ns, Sources.scan d root s = .ok sources →
        d.Walkable root (ns ++ [fileNamed stem e]) →
        d.LeadsToFile (root.below (ns ++ [fileNamed stem e])) →
        root.below (ns ++ [fileNamed stem e]) ∈ sources.files) ∧
    ('/' ∉ (bareExtension e).toList → ∀ stem, IsStem stem →
      (s.selects ⟨fileNamed stem e⟩ = true ↔ ∃ e' ∈ s.extensions, '.' ∉ (bareExtension e').toList ∧
        (bareExtension e' = bareExtension e ∨
          '.' :: (bareExtension e').toList <:+ (bareExtension e).toList))) ∧
    (¬ IsPlain e → ∀ d root, Sources.scan d root s =
      Sources.scan d root { s with extensions := s.extensions.filter (· ≠ e) }) ∧
    ∀ e', { s with extensions := [e'] }.fault? = none ↔ bareExtension e' ≠ "" := by
  have hne : bareExtension e ≠ "" := (fault?_eq_none_iff.1 hs).2.1 e he
  refine ⟨?_, ?_, ?_, fault?_single hs⟩
  · intro h stem hstem
    obtain ⟨hdot, hslash⟩ := h
    have hsel : s.selects ⟨fileNamed stem e⟩ = true :=
      (selects_fileNamed hstem hne hslash).2 ⟨e, he, hdot, .inl rfl⟩
    refine ⟨hsel, ?_⟩
    intro d root sources ns hscan hw hfile
    exact (Sources.mem_files hscan).2 ⟨⟨ns, _, hw, rfl, hsel⟩, .inl hfile⟩
  · exact fun hslash stem hstem ↦ selects_fileNamed hstem hne hslash
  · exact fun hplain ↦ scan_congr (selects_without hplain s) rfl

def archives : Settings := { extensions := ["js", "tar.gz"] }

def archiveDisk : Disk where
  records := [([Text.utf8 "r"], .directory), ([Text.utf8 "a.js", Text.utf8 "r"], .file []),
    ([Text.utf8 "a.tar.gz", Text.utf8 "r"], .file [])]
  here := []

theorem selects_archives : archives.fault? = none ∧
    (∃ sources, Sources.scan archiveDisk "/r" archives = .ok sources ∧
      ("/r/a.js" : Path) ∈ sources.files) ∧
    archives.selects "a.tar.gz" = false ∧ ∀ d root, Sources.scan d root archives =
      Sources.scan d root { extensions := ["js"] } := by
  have hs : archives.fault? = none := by decide
  have hstem : IsStem (Text.utf8 "a") := ⟨by decide, by decide, by decide⟩
  obtain ⟨hjs, -⟩ := accepted_extension_selects_iff (e := "js") hs (by decide)
  obtain ⟨-, hiff, hscan, -⟩ := accepted_extension_selects_iff (e := "tar.gz") hs (by decide)
  have hplain : ¬ IsPlain "tar.gz" := fun h ↦ h.1 (by decide)
  refine ⟨hs, ?_, ?_, hscan hplain⟩
  · have hdisk : Sources.scan archiveDisk "/r" archives = .ok _ :=
      Sources.scan_eq_ok.2 ⟨by decide +kernel, by decide +kernel, rfl⟩
    have hw : archiveDisk.Walkable "/r" ([] ++ [fileNamed (Text.utf8 "a") "js"]) :=
      ⟨⟨[Text.utf8 "r"], ⟨by decide +kernel, by decide +kernel⟩, by decide +kernel⟩, trivial⟩
    have hfile : archiveDisk.LeadsToFile "/r/a.js" :=
      ⟨[Text.utf8 "a.js", Text.utf8 "r"], [], by decide +kernel, by decide +kernel⟩
    exact ⟨_, hdisk, (hjs ⟨by decide, by decide⟩ _ hstem).2 _ _ _ [] hdisk hw hfile⟩
  · rw [← Bool.not_eq_true]
    intro hsel
    exact absurd ((hiff (by decide) _ hstem).1 hsel) (by decide)

/-- Not all extensions that are accepted select the files that end in them, and some select no file at
all. -/
theorem not_forall_accepted_selects :
    (¬ ∀ s : Settings, s.fault? = none → ∀ e ∈ s.extensions, ∀ stem, IsStem stem →
      s.selects ⟨fileNamed stem e⟩ = true) ∧
    ¬ ∀ s : Settings, s.fault? = none → ∀ e ∈ s.extensions, ∃ p,
      { s with extensions := [e] }.selects p = true := by
  have hs : fault? { extensions := ["tar.gz"] } = none := by decide
  constructor
  · intro h
    have hsel := h { extensions := ["tar.gz"] } hs "tar.gz" (by decide) (Text.utf8 "a")
      ⟨by decide, by decide, by decide⟩
    revert hsel
    decide
  · intro h
    obtain ⟨p, hp⟩ := h { extensions := ["tar.gz"] } hs "tar.gz" (by decide)
    obtain ⟨e', he', hext⟩ := selects_eq_true_iff_bare.1 hp
    obtain rfl := List.mem_singleton.1 he'
    exact (isPlain_of_extension? hext).1 (by decide)

end KeyAudit.Settings
