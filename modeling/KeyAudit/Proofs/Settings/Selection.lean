import KeyAudit.Proofs.Path.Below
import KeyAudit.Proofs.Text.Trim
import KeyAudit.Settings.Basic

namespace KeyAudit.Settings

open KeyAudit.Path

variable {s : Settings} {p q : Path} {n : Name} {e ext : String}

/-- The extension that is meant where `written` is given: blanks at the ends do not count, and dots in
front do not either. -/
def Bares (written ext : String) : Prop :=
  ∃ dots, Text.Trims written.toList (dots ++ ext.toList) ∧ (∀ c ∈ dots, c = '.') ∧
    ext.toList.head? ≠ some '.'

theorem bareExtension_eq_iff : bareExtension e = ext ↔ Bares e ext := by
  constructor
  · intro h
    subst h
    refine ⟨(Text.trim e.toList).takeWhile (· == '.'), ?_, ?_, ?_⟩
    · rw [bareExtension, String.toList_ofList, List.takeWhile_append_dropWhile]
      exact Text.trims_trim e.toList
    · intro c hc
      have hdot := List.mem_takeWhile_imp hc
      exact beq_iff_eq.1 hdot
    · intro hdot
      have hhead := List.head?_dropWhile_not (· == '.') (Text.trim e.toList)
      rw [bareExtension, String.toList_ofList] at hdot
      rw [hdot] at hhead
      simp at hhead
  · intro h
    obtain ⟨dots, htrim, hdots, hhead⟩ := h
    rw [bareExtension, htrim.trim_eq, List.dropWhile_append_of_pos fun c hc ↦ beq_iff_eq.2 (hdots c hc)]
    have hdrop : ext.toList.dropWhile (· == '.') = ext.toList := by
      cases hext : ext.toList with
      | nil => rfl
      | cons c cs =>
        rw [hext] at hhead
        rw [List.dropWhile_cons_of_neg]
        simpa using hhead
    rw [hdrop, String.ofList_toList]

theorem selects_eq_true : s.selects p = true ↔
    ∃ b ext e, p.extension? = some b ∧ Text.ofUtf8? b = some ext ∧ e ∈ s.extensions ∧ Bares e ext := by
  simp only [← bareExtension_eq_iff]
  unfold selects
  constructor
  · intro h
    split at h
    · rename_i ext hext
      obtain ⟨b, hb, htext⟩ := Option.bind_eq_some_iff.1 hext
      obtain ⟨e, he, heq⟩ := List.any_eq_true.1 h
      exact ⟨b, ext, e, hb, htext, he, decide_eq_true_iff.1 heq⟩
    · cases h
  · intro h
    obtain ⟨b, ext, e, hb, htext, he, heq⟩ := h
    rw [hb, Option.bind_some, htext]
    exact List.any_eq_true.2 ⟨e, he, decide_eq_true heq⟩

theorem selects_of_fileName?_eq (h : p.fileName? = q.fileName?) (s : Settings) :
    s.selects p = s.selects q := by
  rw [selects, selects, extension?, extension?, h]

theorem selects_of_endsIn (hp : p.EndsIn n) (hq : q.EndsIn n) (s : Settings) :
    s.selects p = s.selects q :=
  selects_of_fileName?_eq ((fileName?_eq_some.2 hp).trans (fileName?_eq_some.2 hq).symm) s

theorem selects_below (s : Settings) (p : Path) (ns : List Name) (hn : Disk.isProper n) :
    s.selects (p.below (ns ++ [n])) = s.selects ⟨n⟩ := by
  have hname := (isName_of_isProper hn).endsIn
  rw [below_concat]
  exact s.selects_of_endsIn (hname.join (isAbsolute_of_isProper hn) _) hname

/-- A path is selected if it ends in a name, something stands in the name in front of the last dot, and
what stands behind it is text and one of the extensions. So the path to which such a path is joined does
not matter, nor do slashes at the end or dots between them. -/
theorem selects_iff_last_name (s : Settings) :
    (∀ p : Path, s.selects p = true ↔ ∃ stem b ext e, p.EndsIn (stem ++ dot :: b) ∧ stem ≠ [] ∧ dot ∉ b ∧
      Text.ofUtf8? b = some ext ∧ e ∈ s.extensions ∧ Bares e ext) ∧
    (∀ (p q : Path) n, p.EndsIn n → q.EndsIn n → s.selects p = s.selects q) ∧
    (∀ (p q : Path) n, q.isAbsolute = false → q.EndsIn n → s.selects (p.join q) = s.selects q) ∧
    ∀ (p : Path) t, Trails t → s.selects ⟨p.bytes ++ t⟩ = s.selects p := by
  refine ⟨?_, fun p q n hp hq ↦ selects_of_endsIn hp hq s, ?_, ?_⟩
  · intro p
    simp only [selects_eq_true, extension?_eq_some]
    constructor
    · intro h
      obtain ⟨b, ext, e, ⟨stem, hend, hstem, hdot⟩, htext, he, hbare⟩ := h
      exact ⟨stem, b, ext, e, hend, hstem, hdot, htext, he, hbare⟩
    · intro h
      obtain ⟨stem, b, ext, e, hend, hstem, hdot, htext, he, hbare⟩ := h
      exact ⟨b, ext, e, ⟨stem, hend, hstem, hdot⟩, htext, he, hbare⟩
  · intro p q n hrel hq
    exact selects_of_endsIn (hq.join hrel p) hq s
  · intro p t ht
    exact selects_of_fileName?_eq (fileName?_append_trails p ht) s

theorem selects_hidden :
    let p : Path := ⟨[0x2E, 0xFF, 0x2E, 0x74, 0x73]⟩
    let s : Settings := { extensions := ["js", "\t..ts "] }
    p.isAbsolute = false ∧ p.EndsIn p.bytes ∧ Trails (Text.utf8 "/.//") ∧
    s.selects ⟨((Path.ofString "d//").join p).bytes ++ Text.utf8 "/.//"⟩ = true := by
  intro p s
  have hname : IsName p.bytes := ⟨by decide, by decide, by decide, by decide⟩
  have hend : p.EndsIn p.bytes := hname.endsIn
  have htrails : Trails (Text.utf8 "/.//") := .here (.slash (.slash .nil))
  have hbare : Bares "\t..ts " "ts" := bareExtension_eq_iff.1 (by decide)
  obtain ⟨hiff, -, hjoin, htrail⟩ := selects_iff_last_name s
  refine ⟨rfl, hend, htrails, ?_⟩
  rw [htrail _ _ htrails, hjoin _ p _ rfl hend]
  exact (hiff p).2 ⟨[0x2E, 0xFF], [0x74, 0x73], "ts", "\t..ts ", hend, by decide, by decide, by decide,
    by decide, hbare⟩

example : selects {} "src/.js" = false ∧ selects {} "src/..js" = true ∧ selects {} "a.js/.." = false := by
  decide

end KeyAudit.Settings
