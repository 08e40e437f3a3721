import KeyAudit.Proofs.Audit.Reading
import KeyAudit.Proofs.Enumeration

namespace KeyAudit

variable {d : Disk} {root template p : Path} {settings : Settings} {s : Sources} {t : Template}
  {files : List Path} {cause : AccessFailure}

namespace Disk

def HoldsTemplate (d : Disk) (p : Path) : Prop :=
  ∃ text t, d.readText p = .ok text ∧ Template.ofToml? text = some t

theorem readText_of_not_has (h : d.has p = false) : ∃ cause, d.readText p = .error cause := by
  unfold has at h
  split at h
  · cases h
  · rename_i cause he
    exact ⟨cause, by simp only [readText, read, he]⟩

theorem IsStray.not_has (h : d.IsStray p) : d.has p = false := by
  obtain ⟨-, cause, hl⟩ := h
  have hloc : ∀ loc, d.locate true p ≠ .ok loc := fun loc h ↦ by
    rw [leadsTo_of_locate h] at hl
    cases hl
  unfold has entry
  cases hlo : d.locate true p with
  | ok loc => exact absurd hlo (hloc loc)
  | error cause => rfl

theorem not_isReadable (h : d.readText p = .error cause) : ¬ d.IsReadable p := by
  intro h
  obtain ⟨text, ht⟩ := h
  rw [h] at ht
  cases ht

theorem IsStray.not_isReadable (h : d.IsStray p) : ¬ d.IsReadable p :=
  let ⟨_, hc⟩ := readText_of_not_has h.not_has
  Disk.not_isReadable hc

/-- What stops a walk below the root: the root itself if it leads to no directory, and a link that leads
back into its own way. -/
def Blocks (d : Disk) (root p : Path) : Prop :=
  (p = root ∧ ¬ ∃ loc, d.LeadsToDirectory root loc) ∨
    ∃ ns, d.Meets root ns ∧ d.ClosesCycle root ns ∧ p = root.below ns

theorem IsStray.not_blocks {ns : List Name} {n : Name} (hp : d.IsStray (root.below (ns ++ [n])))
    (hw : d.Walkable root (ns ++ [n])) : ¬ d.Blocks root (root.below (ns ++ [n])) := by
  intro h
  rcases h with ⟨-, hno⟩ | ⟨ms, -, ⟨-, loc, hl, -⟩, he⟩
  · exact hno hw.leadsToDirectory
  · exact hp.not_directory (he ▸ hl)

theorem canBeScanned_iff : d.CanBeScanned root ↔ ∀ p, ¬ d.Blocks root p := by
  constructor
  · rintro ⟨hdir, hcyc⟩ p (⟨-, hno⟩ | ⟨ns, hm, hc, -⟩)
    · exact hno hdir
    · exact hcyc ns hm hc
  · intro h
    refine ⟨?_, fun ns hm hc ↦ h _ (.inr ⟨ns, hm, hc, rfl⟩)⟩
    by_contra hno
    exact h root (.inl ⟨rfl, hno⟩)

theorem FirstUnreadable.not_isReadable (h : d.FirstUnreadable files p cause) :
    ¬ ∀ q ∈ files, d.IsReadable q := by
  obtain ⟨hp, before, after, rfl, -⟩ := h
  exact fun hall ↦ Disk.not_isReadable hp (hall p (by simp))

theorem FirstUnreadable.unique {q : Path} {cause' : AccessFailure}
    (h : d.FirstUnreadable files p cause) (h' : d.FirstUnreadable files q cause') :
    p = q ∧ cause = cause' := by
  obtain ⟨hp, before, after, rfl, hb⟩ := h
  obtain ⟨hq, before', after', he, hb'⟩ := h'
  have hpq : p = q := by
    rcases List.append_eq_append_iff.1 he with ⟨mid, rfl, hm⟩ | ⟨mid, rfl, hm⟩
    · rcases mid with _ | ⟨x, mid⟩
      · exact (List.cons.inj hm).1
      · obtain ⟨rfl, -⟩ := List.cons.inj hm
        exact absurd (hb' p (by simp)) (Disk.not_isReadable hp)
    · rcases mid with _ | ⟨x, mid⟩
      · exact (List.cons.inj hm).1.symm
      · obtain ⟨rfl, -⟩ := List.cons.inj hm
        exact absurd (hb q (by simp)) (Disk.not_isReadable hq)
  subst hpq
  exact ⟨rfl, Except.error.inj (hp.symm.trans hq)⟩

theorem firstUnreadable_of_pairwise {more : List Path} (hs : files.Pairwise Path.Precedes)
    (hp : p ∈ files) (hu : d.readText p = .error cause)
    (hb : ∀ q ∈ files, q.Precedes p → d.IsReadable q) :
    d.FirstUnreadable (files ++ more) p cause := by
  obtain ⟨before, after, rfl⟩ := List.append_of_mem hp
  refine ⟨hu, before, after ++ more, by simp, fun q hq ↦ hb q (by simp [hq]) ?_⟩
  exact (List.pairwise_append.1 hs).2.2 q hq p List.mem_cons_self

end Disk

theorem Template.load_eq_ok : load d p = .ok t ↔
    ∃ text, d.readText p = .ok text ∧ Template.ofToml? text = some t := by
  unfold load
  cases d.readText p with
  | error cause => simp
  | ok text => cases ht : Template.ofToml? text <;> simp [ht]

theorem Template.load_eq_error {e : AuditFailure} (h : load d p = .error e) :
    (∃ cause, e = .template p cause) ∧ ¬ d.HoldsTemplate p := by
  constructor
  · unfold load at h
    split at h
    · cases h
      exact ⟨_, rfl⟩
    · split at h
      · cases h
      · cases h
        exact ⟨_, rfl⟩
  · intro hholds
    obtain ⟨text, t, ht⟩ := hholds
    rw [load_eq_ok.2 ⟨text, ht⟩] at h
    cases h

namespace Audit

theorem run_eq (d : Disk) (root template : Path) (settings : Settings) :
    run d root template settings = match Template.load d template with
      | .error e => .error e
      | .ok t => match Sources.scan d root settings with
        | .error e => .error e
        | .ok s => (unmentioned d t s.all).map fun unused ↦ ⟨unused, s.count, t.keys.length⟩ := by
  unfold run
  cases Template.load d template with
  | error e => rfl
  | ok t =>
    cases hs : Sources.scan d root settings with
    | error e => simp only [bind, Except.bind]
    | ok s =>
      cases hu : unmentioned d t s.all <;>
        simp only [hu, bind, Except.bind, pure, Except.pure, Except.map]

theorem run_of_template_error {e : AuditFailure} (h : Template.load d template = .error e) :
    run d root template settings = .error e := by
  rw [run_eq, h]

theorem run_of_scan_error {e : AuditFailure} (ht : Template.load d template = .ok t)
    (hs : Sources.scan d root settings = .error e) : run d root template settings = .error e := by
  rw [run_eq, ht, hs]

theorem run_of_firstUnreadable (ht : Template.load d template = .ok t)
    (hs : Sources.scan d root settings = .ok s) (hp : d.FirstUnreadable s.all p cause) :
    run d root template settings = .error (.file p cause) := by
  rw [run_eq, ht, hs]
  simp only [unmentioned_of_firstUnreadable t hp]
  rfl

theorem run_of_readable (ht : Template.load d template = .ok t)
    (hs : Sources.scan d root settings = .ok s) (hr : ∀ p ∈ s.all, d.IsReadable p) :
    run d root template settings = .ok
      ⟨t.keys.filter fun k ↦ !Sightings.isMentioned (s.all.flatMap d.textLines) k, s.count,
        t.keys.length⟩ := by
  rw [run_eq, ht, hs]
  simp only [unmentioned_of_readable t hr]
  rfl

/-- How an audit ends, told from the disk alone. -/
inductive Ends (d : Disk) (root template : Path) (settings : Settings) :
    Except AuditFailure Audit → Prop
  | template (cause : TemplateFailure) : ¬ d.HoldsTemplate template →
    Ends d root template settings (.error (.template template cause))
  | scan (p : Path) (cause : ScanFailure) : d.HoldsTemplate template → d.Blocks root p →
    Ends d root template settings (.error (.scan p cause))
  | file (files : List Path) (p : Path) (cause : AccessFailure) : d.HoldsTemplate template →
    d.CanBeScanned root → d.Enumerates root settings files →
    d.FirstUnreadable (files ++ [root.join settings.entryFile]) p cause →
    Ends d root template settings (.error (.file p cause))
  | done (files : List Path) (a : Audit) : d.HoldsTemplate template →
    d.CanBeScanned root → d.Enumerates root settings files →
    (∀ p ∈ files ++ [root.join settings.entryFile], d.IsReadable p) →
    Ends d root template settings (.ok a)

namespace Ends

variable {o : Except AuditFailure Audit}

theorem template_path {cause : TemplateFailure}
    (h : Ends d root template settings (.error (.template p cause))) : p = template := by
  cases h
  rfl

theorem template_iff (h : Ends d root template settings o) :
    (∃ p cause, o = .error (.template p cause)) ↔ ¬ d.HoldsTemplate template := by
  cases h with
  | template cause hno => exact iff_of_true ⟨_, cause, rfl⟩ hno
  | scan p cause hholds => exact iff_of_false (by simp) (not_not_intro hholds)
  | file files p cause hholds => exact iff_of_false (by simp) (not_not_intro hholds)
  | done files a hholds => exact iff_of_false (by simp) (not_not_intro hholds)

theorem scan_iff (h : Ends d root template settings o) :
    (∃ p cause, o = .error (.scan p cause)) ↔
      d.HoldsTemplate template ∧ ¬ d.CanBeScanned root := by
  cases h with
  | template cause hno => exact iff_of_false (by simp) fun h ↦ hno h.1
  | scan p cause hholds hp =>
    exact iff_of_true ⟨p, cause, rfl⟩ ⟨hholds, fun hcan ↦ Disk.canBeScanned_iff.1 hcan p hp⟩
  | file files p cause hholds hcan => exact iff_of_false (by simp) fun h ↦ h.2 hcan
  | done files a hholds hcan => exact iff_of_false (by simp) fun h ↦ h.2 hcan

theorem path_ne_stray {e : AuditFailure} {ns : List Name} {n : Name}
    (h : Ends d root template settings (.error e)) (hw : d.Walkable root (ns ++ [n]))
    (hp : d.IsStray (root.below (ns ++ [n]))) (hsel : settings.selects ⟨n⟩ = false)
    (ht : root.below (ns ++ [n]) ≠ template)
    (hentry : root.below (ns ++ [n]) ≠ root.join settings.entryFile) :
    e.path ≠ root.below (ns ++ [n]) := by
  intro he
  cases h with
  | template cause => exact ht he.symm
  | scan p cause _ hblocks =>
    obtain rfl : p = _ := he
    exact hp.not_blocks hw hblocks
  | file files p cause _ _ henum hfirst =>
    obtain rfl : p = _ := he
    obtain ⟨-, before, after, hf, -⟩ := hfirst
    have hmem : root.below (ns ++ [n]) ∈ files ++ [root.join settings.entryFile] := by simp [hf]
    rcases List.mem_append.1 hmem with hfile | hlast
    · have hs := Sources.selects_of_selects ((henum.mem_iff _).1 hfile).1
      rw [Sources.selects_below hw, hsel] at hs
      cases hs
    · exact hentry (List.mem_singleton.1 hlast)

variable (hholds : d.HoldsTemplate template) (hcan : d.CanBeScanned root)
  (henum : d.Enumerates root settings files)
include hholds hcan henum

theorem file_iff (h : Ends d root template settings o) (p : Path) (cause : AccessFailure) :
    o = .error (.file p cause) ↔
      d.FirstUnreadable (files ++ [root.join settings.entryFile]) p cause := by
  cases h with
  | template _ hno => exact absurd hholds hno
  | scan q _ _ hq => exact absurd hq (Disk.canBeScanned_iff.1 hcan q)
  | file files' q cause' _ _ henum' hq =>
    obtain rfl := henum.unique henum'
    constructor
    · intro he
      cases he
      exact hq
    · intro hp
      obtain ⟨rfl, rfl⟩ := hp.unique hq
      rfl
  | done files' a _ _ henum' hr =>
    obtain rfl := henum.unique henum'
    exact iff_of_false (by simp) fun hp ↦ hp.not_isReadable hr

theorem ok_iff (h : Ends d root template settings o) :
    (∃ a, o = .ok a) ↔ ∀ p ∈ files ++ [root.join settings.entryFile], d.IsReadable p := by
  cases h with
  | template _ hno => exact absurd hholds hno
  | scan q _ _ hq => exact absurd hq (Disk.canBeScanned_iff.1 hcan q)
  | file files' q cause _ _ henum' hq =>
    obtain rfl := henum.unique henum'
    exact iff_of_false (by simp) hq.not_isReadable
  | done files' a _ _ henum' hr =>
    obtain rfl := henum.unique henum'
    exact iff_of_true ⟨a, rfl⟩ hr

end Ends

section

variable (hshort : ∀ ns, d.Meets root ns → Disk.isTooLong (root.below ns) = false)
include hshort

theorem blocks_of_scan_eq_error {e : AuditFailure} (h : Sources.scan d root settings = .error e) :
    ∃ p cause, e = .scan p cause ∧ d.Blocks root p := by
  rcases Sources.scan_eq_error h with ⟨hroot, cause, rfl⟩ | ⟨hroot, f, hf, hfail, cause, rfl⟩
  · refine ⟨root, cause, rfl, .inl ⟨rfl, ?_⟩⟩
    intro hdir
    rw [(Sources.isDirectory_iff_of_short hshort).2 hdir] at hroot
    cases hroot
  · obtain ⟨ns, hm, hp, hc | hlong⟩ := Disk.closesCycle_or_tooLong_of_failure hroot hf hfail
    · exact ⟨_, cause, rfl, .inr ⟨ns, hm, hc, hp⟩⟩
    · rw [hshort ns hm] at hlong
      cases hlong

theorem run_ends (template : Path) (settings : Settings) :
    Ends d root template settings (run d root template settings) := by
  cases ht : Template.load d template with
  | error e =>
    rw [run_of_template_error ht]
    obtain ⟨⟨cause, rfl⟩, hno⟩ := Template.load_eq_error ht
    exact .template cause hno
  | ok t =>
    have hholds : d.HoldsTemplate template :=
      let ⟨text, htext⟩ := Template.load_eq_ok.1 ht
      ⟨text, t, htext⟩
    cases hs : Sources.scan d root settings with
    | error e =>
      rw [run_of_scan_error ht hs]
      obtain ⟨p, cause, rfl, hp⟩ := blocks_of_scan_eq_error hshort hs
      exact .scan p cause hholds hp
    | ok s =>
      have hcan := (Sources.exists_scan_eq_ok_iff hshort).1 ⟨s, hs⟩
      have henum := Sources.enumerates_of_scan hs
      have hall := Sources.all_eq_of_scan hs
      rcases d.readable_or_firstUnreadable s.all with hr | ⟨p, cause, hp⟩
      · rw [run_of_readable ht hs hr]
        exact .done s.files _ hholds hcan henum (hall ▸ hr)
      · rw [run_of_firstUnreadable ht hs hp]
        exact .file s.files p cause hholds hcan henum (hall ▸ hp)

/-- The first failure decides how an audit ends: the template before all else, then the root and the
links below it that lead back into their own way, then the files in their order, the entry file last. It
does not matter which keys there are or have been found before. -/
theorem run_decided_by_first_failure (template : Path) (settings : Settings) :
    ((∃ p cause, run d root template settings = .error (.template p cause)) ↔
      ¬ d.HoldsTemplate template) ∧
    (∀ p cause, run d root template settings = .error (.template p cause) → p = template) ∧
    ((∃ p cause, run d root template settings = .error (.scan p cause)) ↔
      d.HoldsTemplate template ∧ ¬ d.CanBeScanned root) ∧
    (d.HoldsTemplate template → d.CanBeScanned root → ∃ files, d.Enumerates root settings files ∧
      (∀ p cause, run d root template settings = .error (.file p cause) ↔
        d.FirstUnreadable (files ++ [root.join settings.entryFile]) p cause) ∧
      ((∃ a, run d root template settings = .ok a) ↔
        ∀ p ∈ files ++ [root.join settings.entryFile], d.IsReadable p) ∧
      (∀ p, d.Selects root settings p → d.IsStray p →
        (∀ q ∈ files, q.Precedes p → d.IsReadable q) →
        ∃ cause, run d root template settings = .error (.file p cause)) ∧
      (d.has (root.join settings.entryFile) = false → (∀ q ∈ files, d.IsReadable q) →
        ∃ cause, run d root template settings =
          .error (.file (root.join settings.entryFile) cause))) ∧
    ∀ ns n, d.Walkable root (ns ++ [n]) → d.IsStray (root.below (ns ++ [n])) →
      settings.selects ⟨n⟩ = false → root.below (ns ++ [n]) ≠ template →
      root.below (ns ++ [n]) ≠ root.join settings.entryFile →
      ∀ e, run d root template settings = .error e → e.path ≠ root.below (ns ++ [n]) := by
  have hends := run_ends hshort template settings
  refine ⟨hends.template_iff, fun p cause h ↦ (h ▸ hends).template_path, hends.scan_iff,
    ?_, ?_⟩
  · intro hholds hcan
    obtain ⟨s, hs⟩ := (Sources.exists_scan_eq_ok_iff hshort).2 hcan
    have henum := Sources.enumerates_of_scan hs
    have hfile := hends.file_iff hholds hcan henum
    refine ⟨s.files, henum, hfile, hends.ok_iff hholds hcan henum, ?_, ?_⟩
    · intro p hsel hp hbefore
      obtain ⟨cause, hc⟩ := Disk.readText_of_not_has hp.not_has
      have hmem : p ∈ s.files := (henum.mem_iff p).2 ⟨hsel, .inr hp⟩
      refine ⟨cause, (hfile p cause).2 ?_⟩
      exact Disk.firstUnreadable_of_pairwise henum.pairwise hmem hc hbefore
    · intro hno hall
      obtain ⟨cause, hc⟩ := Disk.readText_of_not_has hno
      exact ⟨cause, (hfile _ cause).2 ⟨hc, s.files, [], rfl, hall⟩⟩
  · intro ns n hw hp hsel hne hne' e he
    exact (he ▸ hends).path_ne_stray hw hp hsel hne hne'

end

def strayDisk : Disk where
  records := [([Text.utf8 "r"], .directory), ([Text.utf8 "a.js", Text.utf8 "r"], .link "none"),
    ([Text.utf8 "t"], .file (Text.utf8 "k = 1"))]
  here := []

theorem walkable_strayDisk {ns : List Name} (h : strayDisk.Walkable "/r" ns) :
    ns = [] ∨ ns = [Text.utf8 "a.js"] := by
  have hroot : strayDisk.leadsTo "/r" = .ok [Text.utf8 "r"] := rfl
  have hlink : strayDisk.leadsTo "/r/a.js" = .error .notFound := rfl
  refine h.eq_nil_or_singleton hroot (by decide) fun l hd ↦ ?_
  cases hlink.symm.trans hd.1

theorem run_strayDisk :
    (∀ ns, strayDisk.Meets "/r" ns → Disk.isTooLong (Path.below "/r" ns) = false) ∧
    ∃ cause, run strayDisk "/r" "/t" {} = .error (.file "/r/a.js" cause) := by
  have hshort : ∀ ns, strayDisk.Meets "/r" ns → Disk.isTooLong (Path.below "/r" ns) = false := by
    rintro ns ⟨hw, -⟩
    rcases walkable_strayDisk hw with rfl | rfl
    · decide +kernel
    · decide +kernel
  have hscan : Sources.scan strayDisk "/r" {} = .ok ⟨["/r/a.js"], "/r/../index.template.html"⟩ := by
    decide +kernel
  have henum := Sources.enumerates_of_scan hscan
  have hcan := (Sources.exists_scan_eq_ok_iff hshort).1 ⟨_, hscan⟩
  have hholds : strayDisk.HoldsTemplate "/t" :=
    ⟨"k = 1", ⟨["k"]⟩, by decide +kernel, by decide +kernel⟩
  obtain ⟨files, henum', -, -, hstray, -⟩ :=
    (run_decided_by_first_failure hshort "/t" {}).2.2.2.1 hholds hcan
  obtain rfl := henum.unique henum'
  have hlink : strayDisk.IsStray "/r/a.js" :=
    ⟨⟨[Text.utf8 "a.js", Text.utf8 "r"], "none", by decide +kernel, by decide +kernel⟩, .notFound,
      by decide +kernel⟩
  refine ⟨hshort, hstray "/r/a.js" ?_ hlink ?_⟩
  · exact ((henum.mem_iff _).1 (List.mem_singleton_self _)).1
  · intro q hq hprec
    obtain rfl := List.mem_singleton.1 hq
    exact absurd hprec (asymm hprec)

end Audit

end KeyAudit
