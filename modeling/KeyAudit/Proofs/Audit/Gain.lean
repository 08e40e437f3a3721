import KeyAudit.Proofs.Audit.Result
import KeyAudit.Proofs.Disk.Gain

namespace KeyAudit

variable {d d' : Disk} {root template p : Path} {settings : Settings} {ns : List Name} {up : Location}
  {n : Name} {a : Audit} {s : Sources} {trail : Disk.Trail} {turn : Disk.Turn} {content : Bytes}
  {k : String}

namespace Disk

def Dangles (d : Disk) (p : Path) : Prop :=
  (∃ loc target, d.locate false p = .ok loc ∧ d.at? loc = some (.link target)) ∧
    ∃ cause, d.locate true p = .error cause

theorem Dangles.isStray (h : d.Dangles p) : isTooLong p = false ∧ d.IsStray p := by
  obtain ⟨⟨loc, target, hl, hat⟩, cause, hc⟩ := h
  obtain ⟨hshort, hs⟩ := resolve_of_locate hl
  exact ⟨hshort, ⟨loc, target, hs, hat⟩, cause, (locate_eq_leadsTo hshort).symm.trans hc⟩

theorem exists_entry_of_isReadable (h : d.IsReadable p) : ∃ e, d.entry p = .ok e := by
  obtain ⟨text, h⟩ := h
  cases he : d.entry p with
  | ok e => exact ⟨e, rfl⟩
  | error cause => simp [readText, read, he] at h

theorem Gains.read_eq (h : d.Gains d' up n) (hp : d.IsReadable p) : d'.read p = d.read p := by
  obtain ⟨e, he⟩ := exists_entry_of_isReadable hp
  rw [read, read, he, h.entry_of_ok he]

theorem Gains.readText_eq (h : d.Gains d' up n) (hp : d.IsReadable p) :
    d'.readText p = d.readText p := by
  rw [readText, readText, h.read_eq hp]

theorem Gains.mentions_iff (h : d.Gains d' up n) (hp : d.IsReadable p) :
    d'.Mentions p k ↔ d.Mentions p k := by
  rw [Mentions, Mentions, h.read_eq hp]

theorem turn_eq_of_file (hat : d'.at? (n :: up) = some (.file content)) (trail : Trail) :
    d'.turn trail up (root.below ns) n = .report (.file (root.below (ns ++ [n]))) := by
  simp only [turn, hat, Path.below_concat]

theorem turn_eq_of_directory (he : d'.entry (root.below (ns ++ [n])) = .ok .directory)
    (hat : d'.at? (n :: up) = some .directory) (trail : Trail) :
    d'.turn trail up (root.below ns) n = .enter (n :: up) := by
  obtain ⟨hshort, -⟩ := entry_eq_ok.1 he
  rw [Path.below_concat] at hshort
  simp only [turn, hat, hshort, Bool.false_eq_true, if_false]

namespace GainsBelow

variable (h : d.GainsBelow d' root ns up n)
include h

theorem turn_describes (trail : Trail) :
    (d'.turn trail up (root.below ns) n).Describes d' trail (root.below (ns ++ [n])) := by
  rw [Path.below_concat]
  exact Disk.turn_describes trail (h.leadsToDirectory h.leads) h.listed

theorem turn_of_entry_file (he : d'.entry (root.below (ns ++ [n])) = .ok (.file content))
    (trail : Trail) : d'.turn trail up (root.below ns) n = .report (.file (root.below (ns ++ [n]))) := by
  obtain ⟨hshort, loc, hl, hat⟩ := entry_eq_ok.1 he
  exact (h.turn_describes trail).eq_file ⟨loc, content, hl, hat⟩ hshort

theorem turn_of_dangles (hd : d'.Dangles (root.below (ns ++ [n]))) (trail : Trail) :
    d'.turn trail up (root.below ns) n = .report (.stray (root.below (ns ++ [n]))) := by
  obtain ⟨hshort, hstray⟩ := hd.isStray
  exact (h.turn_describes trail).eq_stray hstray hshort

end GainsBelow

end Disk

theorem Sources.mem_files_iff (hs : scan d root settings = .ok s) :
    p ∈ s.files ↔ (∃ f ∈ d.walk root, candidate? f = some p) ∧ settings.selects p = true := by
  obtain ⟨-, -, rfl⟩ := scan_eq_ok.1 hs
  rw [(Path.sort_perm _).mem_iff, List.mem_filter, List.mem_filterMap]

section

variable (h : d.GainsBelow d' root ns up n) (hs : Sources.scan d root settings = .ok s)
include h hs

theorem Disk.GainsBelow.notMem_files : root.below (ns ++ [n]) ∉ s.files := by
  intro hmem
  obtain ⟨⟨ms, m, hw, he, -⟩, -⟩ := (Sources.mem_files hs).1 hmem
  have hproper : ∀ k ∈ ns ++ [n], Disk.isProper k = true :=
    List.forall_mem_append.2 ⟨h.walkable.isProper, by simpa using h.isProper⟩
  have hnames := Path.eq_of_orderKey_below hw.bytes hproper hw.isProper (congrArg Path.orderKey he)
  rw [← hnames] at hw
  obtain ⟨-, loc, hl, hn⟩ := Disk.walkable_concat.1 hw
  obtain rfl := hl.unique h.leads
  have hsome := (Disk.mem_children.1 hn).2.2
  rw [h.fresh] at hsome
  cases hsome

/-- A scan gains what it finds at the new entry. -/
theorem Sources.scan_gains (hturn : ∀ trail, d'.turn trail up (root.below ns) n = turn)
    (hdead : ∀ next, turn = .enter next → d'.children next = [])
    (hok : ∀ f, turn = .report f → failure? f = none) :
    ∃ s', scan d' root settings = .ok s' ∧ s'.entryFile = s.entryFile ∧
      ∀ p, p ∈ s'.files ↔ p ∈ s.files ∨
        (∃ f, turn = .report f ∧ candidate? f = some p) ∧ settings.selects p = true := by
  obtain ⟨hroot, hfound, hs'⟩ := scan_eq_ok.1 hs
  have hwalk (f : Finding) := h.mem_walk (f := f) hturn hdead hroot hfound
  have hroot' : d'.isDirectory root = true :=
    Disk.isDirectory_eq_true.2 (h.entry_of_ok (Disk.isDirectory_eq_true.1 hroot))
  have hfound' : ∀ f ∈ d'.walk root, failure? f = none := by
    intro f hf
    rcases (hwalk f).1 hf with hf | hf
    · exact hfound f hf
    · exact hok f hf
  obtain ⟨s', hscan⟩ : ∃ s', scan d' root settings = .ok s' :=
    ⟨_, scan_eq_ok.2 ⟨hroot', hfound', rfl⟩⟩
  obtain ⟨-, -, hs''⟩ := scan_eq_ok.1 hscan
  refine ⟨s', hscan, by rw [hs', hs''], ?_⟩
  intro p
  rw [mem_files_iff hscan, mem_files_iff hs]
  simp only [hwalk]
  constructor
  · rintro ⟨⟨f, hf | hf, hc⟩, hsel⟩
    · exact .inl ⟨⟨f, hf, hc⟩, hsel⟩
    · exact .inr ⟨⟨f, hf, hc⟩, hsel⟩
  · rintro (⟨⟨f, hf, hc⟩, hsel⟩ | ⟨⟨f, hf, hc⟩, hsel⟩)
    · exact ⟨⟨f, .inl hf, hc⟩, hsel⟩
    · exact ⟨⟨f, .inr hf, hc⟩, hsel⟩

end

theorem Template.load_gains {t : Template} (h : d.Gains d' up n) (ht : load d template = .ok t) :
    load d' template = .ok t := by
  obtain ⟨text, hread, htoml⟩ := load_eq_ok.1 ht
  exact load_eq_ok.2 ⟨text, (h.readText_eq ⟨text, hread⟩).trans hread, htoml⟩

theorem Disk.Gains.isReadable (h : d.Gains d' up n) (hp : d.IsReadable p) : d'.IsReadable p := by
  obtain ⟨text, hread⟩ := hp
  exact ⟨text, (h.readText_eq ⟨text, hread⟩).trans hread⟩

namespace Audit

open scoped Classical in
theorem run_of_gained {s' : Sources} (gained : List Path) (h : d.Gains d' up n)
    (ha : run d root template settings = .ok a) (hs : Sources.scan d root settings = .ok s)
    (hs' : Sources.scan d' root settings = .ok s') (hentry : s'.entryFile = s.entryFile)
    (hperm : s'.files.Perm (gained ++ s.files)) (hg : ∀ p ∈ gained, d'.IsReadable p) :
    run d' root template settings = .ok ⟨a.unused.filter fun k ↦ ¬ ∃ p ∈ gained, d'.Mentions p k,
      a.fileCount + gained.length, a.keyCount⟩ := by
  obtain ⟨t, s₀, ht, hs₀, hr, rfl⟩ := run_eq_ok ha
  obtain rfl := Except.ok.inj (hs.symm.trans hs₀)
  have hmem (p : Path) : p ∈ s'.all ↔ p ∈ gained ∨ p ∈ s.all := by
    rw [Sources.all, Sources.all, List.mem_append, List.mem_append, hperm.mem_iff, List.mem_append,
      hentry, or_assoc]
  have hr' : ∀ p ∈ s'.all, d'.IsReadable p := by
    intro p hp
    rcases (hmem p).1 hp with hp | hp
    · exact hg p hp
    · exact h.isReadable (hr p hp)
  rw [run_of_readable (Template.load_gains h ht) hs' hr']
  congr 2
  · rw [List.filter_filter]
    apply List.filter_congr
    intro k _
    have hmentioned : (∃ p ∈ s'.all, d'.Mentions p k) ↔
        (∃ p ∈ gained, d'.Mentions p k) ∨ ∃ p ∈ s.all, d.Mentions p k := by
      constructor
      · rintro ⟨p, hp, hk⟩
        rcases (hmem p).1 hp with hp | hp
        · exact .inl ⟨p, hp, hk⟩
        · exact .inr ⟨p, hp, (h.mentions_iff (hr p hp)).1 hk⟩
      · rintro (⟨p, hp, hk⟩ | ⟨p, hp, hk⟩)
        · exact ⟨p, (hmem p).2 (.inl hp), hk⟩
        · exact ⟨p, (hmem p).2 (.inr hp), (h.mentions_iff (hr p hp)).2 hk⟩
    rw [← Disk.isMentioned_iff, ← Disk.isMentioned_iff (d := d)] at hmentioned
    rw [Bool.eq_iff_iff, Bool.not_eq_true', ← Bool.not_eq_true, hmentioned]
    simp [not_or]
  · rw [Sources.count, Sources.count, hperm.length_eq, List.length_append]
    dsimp only
    omega

section

variable (h : d.GainsBelow d' root ns up n) (ha : run d root template settings = .ok a)
include h ha

theorem run_of_gain_skipped (hturn : ∀ trail, d'.turn trail up (root.below ns) n = turn)
    (hdead : ∀ next, turn = .enter next → d'.children next = [])
    (hok : ∀ f, turn = .report f → Sources.failure? f = none ∧
      ∀ p, Sources.candidate? f = some p → settings.selects p = false) :
    run d' root template settings = .ok a := by
  obtain ⟨t, s, -, hs, -⟩ := run_eq_ok ha
  obtain ⟨s', hs', hentry, hmem⟩ := Sources.scan_gains h hs hturn hdead fun f hf ↦ (hok f hf).1
  have hfiles : s'.files = s.files := by
    apply (Sources.pairwise_files hs').eq_of_mem_iff (Sources.pairwise_files hs)
    intro p
    rw [hmem p, or_iff_left]
    rintro ⟨⟨f, hf, hc⟩, hsel⟩
    rw [(hok f hf).2 p hc] at hsel
    cases hsel
  have hrun := run_of_gained [] h.toGains ha hs hs' hentry (hfiles ▸ .refl _) (by simp)
  simpa using hrun

open scoped Classical in
theorem run_of_gained_file (hsel : settings.selects ⟨n⟩ = true)
    (he : d'.entry (root.below (ns ++ [n])) = .ok (.file content)) {text : String}
    (htext : Text.ofUtf8? content = some text) :
    run d' root template settings = .ok ⟨
      a.unused.filter fun k ↦ ¬ d'.Mentions (root.below (ns ++ [n])) k, a.fileCount + 1,
      a.keyCount⟩ := by
  have hq := (settings.selects_below root ns h.isProper).trans hsel
  obtain ⟨t, s, -, hs, -⟩ := run_eq_ok ha
  obtain ⟨s', hs', hentry, hmem⟩ := Sources.scan_gains h hs (h.turn_of_entry_file he)
    (fun _ hf ↦ by cases hf) (fun f hf ↦ by cases hf; rfl)
  have hperm : s'.files.Perm ([root.below (ns ++ [n])] ++ s.files) := by
    rw [List.singleton_append, List.perm_ext_iff_of_nodup (Sources.nodup_files hs')
      (List.nodup_cons.2 ⟨h.notMem_files hs, Sources.nodup_files hs⟩)]
    intro p
    rw [hmem p, List.mem_cons]
    constructor
    · rintro (hp | ⟨⟨f, hf, hc⟩, -⟩)
      · exact .inr hp
      · cases hf
        exact .inl (Option.some.inj hc).symm
    · rintro (rfl | hp)
      · exact .inr ⟨⟨_, rfl, rfl⟩, hq⟩
      · exact .inl hp
  have hreadable : d'.IsReadable (root.below (ns ++ [n])) := by
    refine ⟨text, ?_⟩
    simp only [Disk.readText, Disk.read, he, htext]
  have hrun := run_of_gained [root.below (ns ++ [n])] h.toGains ha hs hs' hentry hperm
    (by simpa using hreadable)
  simpa using hrun

theorem run_of_gained_unreadable {f : Finding} {cause : AccessFailure}
    (hsel : settings.selects ⟨n⟩ = true)
    (hturn : ∀ trail, d'.turn trail up (root.below ns) n = .report f)
    (hf : Sources.failure? f = none) (hc : Sources.candidate? f = some (root.below (ns ++ [n])))
    (hread : d'.readText (root.below (ns ++ [n])) = .error cause) :
    run d' root template settings = .error (.file (root.below (ns ++ [n])) cause) := by
  have hq := (settings.selects_below root ns h.isProper).trans hsel
  obtain ⟨t, s, ht, hs, hr, -⟩ := run_eq_ok ha
  obtain ⟨s', hs', hentry, hmem⟩ := Sources.scan_gains h hs hturn (fun _ hf ↦ by cases hf)
    (fun g hg ↦ by cases hg; exact hf)
  refine run_of_firstUnreadable (Template.load_gains h.toGains ht) hs' ?_
  have hin : root.below (ns ++ [n]) ∈ s'.files := (hmem _).2 (.inr ⟨⟨f, rfl, hc⟩, hq⟩)
  refine Disk.firstUnreadable_of_pairwise (Sources.pairwise_files hs') hin hread ?_
  intro p hp hbefore
  rcases (hmem p).1 hp with hp | ⟨⟨g, hg, hc'⟩, -⟩
  · exact h.isReadable (hr p (List.mem_append_left _ hp))
  · cases hg
    obtain rfl := Option.some.inj (hc.symm.trans hc')
    exact absurd hbefore (asymm hbefore)

end

open scoped Classical in
/-- What one new entry does to an audit that came to its end. A selected file takes away the keys that
it mentions and counts. What is not selected changes nothing, nor does a directory without anything in
it. A selected entry that cannot be read is reported. -/
theorem run_of_gained_entry (h : d.GainsBelow d' root ns up n)
    (ha : run d root template settings = .ok a) :
    (settings.selects ⟨n⟩ = true → ∀ content text,
      d'.entry (root.below (ns ++ [n])) = .ok (.file content) → Text.ofUtf8? content = some text →
      run d' root template settings = .ok ⟨
        a.unused.filter fun k ↦ ¬ d'.Mentions (root.below (ns ++ [n])) k, a.fileCount + 1,
        a.keyCount⟩) ∧
    (settings.selects ⟨n⟩ = false →
      (∃ content, d'.at? (n :: up) = some (.file content)) ∨ d'.Dangles (root.below (ns ++ [n])) →
      run d' root template settings = .ok a) ∧
    (d'.entry (root.below (ns ++ [n])) = .ok .directory → d'.at? (n :: up) = some .directory →
      d'.children (n :: up) = [] → run d' root template settings = .ok a) ∧
    (settings.selects ⟨n⟩ = true →
      d'.Dangles (root.below (ns ++ [n])) ∨
        (∃ content, d'.entry (root.below (ns ++ [n])) = .ok (.file content) ∧
          Text.ofUtf8? content = none) →
      ∃ cause, run d' root template settings = .error (.file (root.below (ns ++ [n])) cause)) := by
  have hq := settings.selects_below root ns h.isProper
  refine ⟨?_, ?_, ?_, ?_⟩
  · intro hsel content text he htext
    exact run_of_gained_file h ha hsel he htext
  · intro hsel hkind
    have hskip (f : Finding) (hc : Sources.candidate? f = some (root.below (ns ++ [n])))
        (p : Path) (hp : Sources.candidate? f = some p) : settings.selects p = false := by
      obtain rfl := Option.some.inj (hc.symm.trans hp)
      exact hq.trans hsel
    rcases hkind with ⟨content, hat⟩ | hd
    · refine run_of_gain_skipped h ha (Disk.turn_eq_of_file hat) (fun _ hf ↦ by cases hf) ?_
      intro f hf
      cases hf
      exact ⟨rfl, hskip _ rfl⟩
    · refine run_of_gain_skipped h ha (h.turn_of_dangles hd) (fun _ hf ↦ by cases hf) ?_
      intro f hf
      cases hf
      exact ⟨rfl, hskip _ rfl⟩
  · intro he hat hempty
    refine run_of_gain_skipped h ha (Disk.turn_eq_of_directory he hat) ?_ (fun _ hf ↦ by cases hf)
    intro next hnext
    cases hnext
    exact hempty
  · rintro hsel (hd | ⟨content, he, htext⟩)
    · obtain ⟨cause, hread⟩ := Disk.readText_of_not_has hd.isStray.2.not_has
      exact ⟨cause, run_of_gained_unreadable h ha hsel (h.turn_of_dangles hd) rfl rfl hread⟩
    · have hread : d'.readText (root.below (ns ++ [n])) = .error .notText := by
        simp only [Disk.readText, Disk.read, he, htext]
      exact ⟨_, run_of_gained_unreadable h ha hsel (h.turn_of_entry_file he) rfl rfl hread⟩

def grownDisk : Disk :=
  mentioningDisk.put [Text.utf8 "b.js", Text.utf8 "r"] (.file (Text.utf8 "free"))

theorem gainsBelow_grownDisk :
    mentioningDisk.GainsBelow grownDisk "/r" [] [Text.utf8 "r"] (Text.utf8 "b.js") := by
  refine ⟨Disk.gains_put (by decide) (by decide) (by decide) _, trivial,
    leadsToDirectory_mentioningDisk, ?_, ?_⟩
  · intro ms hw hl
    refine (walkable_mentioningDisk hw).resolve_right ?_
    rintro rfl
    exact not_leadsToDirectory_mentioningDisk _ hl
  · intro ms hw hlink
    exfalso
    obtain ⟨loc, target, hs, hat⟩ := hlink
    rcases walkable_mentioningDisk hw with rfl | rfl
    · have hplace : mentioningDisk.standsAt "/r" = .ok [Text.utf8 "r"] := rfl
      obtain rfl := Except.ok.inj (hplace.symm.trans hs)
      cases leadsToDirectory_mentioningDisk.2.symm.trans hat
    · have hplace : mentioningDisk.standsAt "/r/a.js" = .ok [Text.utf8 "a.js", Text.utf8 "r"] := rfl
      have hfile : mentioningDisk.at? [Text.utf8 "a.js", Text.utf8 "r"] =
          some (.file (Text.utf8 "x\r\nt.used")) := rfl
      obtain rfl := Except.ok.inj (hplace.symm.trans hs)
      cases hfile.symm.trans hat

theorem run_grownDisk :
    mentioningDisk.GainsBelow grownDisk "/r" [] [Text.utf8 "r"] (Text.utf8 "b.js") ∧
    run mentioningDisk "/r" "/t" {} = .ok ⟨["free"], 2, 2⟩ ∧
    run grownDisk "/r" "/t" {} = .ok ⟨[], 3, 2⟩ := by
  classical
  have ha : run mentioningDisk "/r" "/t" {} = .ok ⟨["free"], 2, 2⟩ := by decide +kernel
  obtain ⟨hfile, -⟩ := run_of_gained_entry gainsBelow_grownDisk ha
  have hrun := hfile (by decide +kernel) (Text.utf8 "free") "free" (by decide +kernel)
    (by decide +kernel)
  have hmentions : grownDisk.Mentions "/r/b.js" "free" := by
    obtain ⟨p, hp, hk⟩ := Disk.isMentioned_iff.1
      (show Sightings.isMentioned (["/r/b.js"].flatMap grownDisk.textLines) "free" = true by
        decide +kernel)
    rwa [List.mem_singleton.1 hp] at hk
  have hnone : ["free"].filter (fun k ↦ ¬ grownDisk.Mentions "/r/b.js" k) = [] := by
    simpa using hmentions
  refine ⟨gainsBelow_grownDisk, ha, hrun.trans ?_⟩
  exact congrArg (fun ks ↦ (.ok ⟨ks, 3, 2⟩ : Except AuditFailure Audit)) hnone

end Audit

end KeyAudit
