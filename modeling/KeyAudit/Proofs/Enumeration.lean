import KeyAudit.Proofs.Disk.Agreement
import KeyAudit.Proofs.Settings.Selection
import Mathlib.Data.List.Sort

namespace KeyAudit

variable {d d' : Disk} {root p q : Path} {settings : Settings} {s : Sources}

namespace Disk

/-- The path consists of the root and names that can be walked from there, and the settings select the
last name. -/
def Selects (d : Disk) (root : Path) (settings : Settings) (p : Path) : Prop :=
  ∃ ns n, d.Walkable root (ns ++ [n]) ∧ p = root.below (ns ++ [n]) ∧ settings.selects ⟨n⟩ = true

/-- The files to be read below the root: those that the settings select, and links in the place of such
files that lead nowhere; each of them once and in the order of paths. -/
structure Enumerates (d : Disk) (root : Path) (settings : Settings) (files : List Path) : Prop where
  pairwise : files.Pairwise Path.Precedes
  mem_iff (p : Path) : p ∈ files ↔ d.Selects root settings p ∧ (d.LeadsToFile p ∨ d.IsStray p)

theorem Enumerates.unique {files files' : List Path} (h : d.Enumerates root settings files)
    (h' : d.Enumerates root settings files') : files = files' :=
  h.pairwise.eq_of_mem_iff h'.pairwise fun p ↦ (h.mem_iff p).trans (h'.mem_iff p).symm

/-- The root leads to a directory, and no link that a walk meets there leads back into its own way. -/
def CanBeScanned (d : Disk) (root : Path) : Prop :=
  (∃ loc, d.LeadsToDirectory root loc) ∧ ∀ ns, d.Meets root ns → ¬ d.ClosesCycle root ns

end Disk

namespace Sources

theorem selects_below {ns : List Name} {n : Name} (hw : d.Walkable root (ns ++ [n])) :
    settings.selects (root.below (ns ++ [n])) = settings.selects ⟨n⟩ := by
  obtain ⟨-, hn⟩ := List.forall_mem_append.1 hw.isProper
  exact settings.selects_below root ns (hn n (List.mem_singleton_self n))

theorem selects_of_selects (h : d.Selects root settings p) : settings.selects p = true := by
  obtain ⟨ns, n, hw, rfl, hs⟩ := h
  exact (selects_below hw).trans hs

theorem ofFindings_eq_ok {found : List Finding} : ofFindings root settings found = .ok s ↔
    (∀ f ∈ found, failure? f = none) ∧
      s = ⟨Path.sort ((found.filterMap candidate?).filter settings.selects),
        root.join settings.entryFile⟩ := by
  unfold ofFindings
  split
  · rename_i e he
    constructor
    · intro h
      cases h
    · intro h
      obtain ⟨h, -⟩ := h
      obtain ⟨f, hf, hfe⟩ := List.exists_of_findSome?_eq_some he
      rw [h f hf] at hfe
      cases hfe
  · rename_i he
    rw [List.findSome?_eq_none_iff] at he
    constructor
    · intro h
      cases h
      exact ⟨he, rfl⟩
    · intro h
      obtain ⟨-, rfl⟩ := h
      rfl

theorem scan_eq_ok : scan d root settings = .ok s ↔ d.isDirectory root = true ∧
    (∀ f ∈ d.walk root, failure? f = none) ∧
      s = ⟨Path.sort (((d.walk root).filterMap candidate?).filter settings.selects),
        root.join settings.entryFile⟩ := by
  unfold scan
  split
  · rename_i h
    rw [ofFindings_eq_ok]
    simp only [h, true_and]
  · rename_i h
    simp [h]

theorem all_eq_of_scan (h : scan d root settings = .ok s) :
    s.all = s.files ++ [root.join settings.entryFile] := by
  obtain ⟨-, -, rfl⟩ := scan_eq_ok.1 h
  rfl

theorem filterMap_candidate?_sublist (found : List Finding) :
    (found.filterMap candidate?).Sublist (found.map Finding.path) := by
  induction found with
  | nil => exact .slnil
  | cons f found ih =>
    cases f with
    | file p | stray p => exact ih.cons_cons p
    | cycle p _ | tooLong p => exact ih.cons p

theorem mem_files (h : scan d root settings = .ok s) :
    p ∈ s.files ↔ d.Selects root settings p ∧ (d.LeadsToFile p ∨ d.IsStray p) := by
  obtain ⟨hroot, hok, rfl⟩ := scan_eq_ok.1 h
  rw [(Path.sort_perm _).mem_iff, List.mem_filter, Disk.mem_candidates hroot hok]
  constructor
  · intro h
    obtain ⟨⟨ns, n, hw, rfl, hp⟩, hs⟩ := h
    exact ⟨⟨ns, n, hw, rfl, selects_below hw ▸ hs⟩, hp⟩
  · intro h
    obtain ⟨⟨ns, n, hw, rfl, hs⟩, hp⟩ := h
    exact ⟨⟨ns, n, hw, rfl, hp⟩, (selects_below hw).trans hs⟩

theorem orderKey_injective_of_selects {p q : Path} (hroot : root.bytes ≠ [])
    (hp : d.Selects root settings p) (hq : d.Selects root settings q)
    (h : p.orderKey = q.orderKey) : p = q := by
  obtain ⟨ns, n, hw, rfl, -⟩ := hp
  obtain ⟨ms, m, hw', rfl, -⟩ := hq
  rw [Path.eq_of_orderKey_below hroot hw.isProper hw'.isProper h]

theorem pairwise_files (h : scan d root settings = .ok s) : s.files.Pairwise Path.Precedes := by
  have hmem : ∀ p ∈ s.files, d.Selects root settings p := fun p hp ↦ ((mem_files h).1 hp).1
  obtain ⟨hroot, hok, rfl⟩ := scan_eq_ok.1 h
  obtain ⟨-, loc, hl⟩ := Disk.isDirectory_iff.1 hroot
  have hnodup : (Path.sort (((d.walk root).filterMap candidate?).filter settings.selects)).Nodup := by
    have hpaths := Disk.nodup_walkIn [(loc, root)] loc root hl
    rw [← Disk.walk_eq hroot hl] at hpaths
    exact (Path.sort_perm _).symm.nodup ((hpaths.sublist (filterMap_candidate?_sublist _)).filter _)
  apply ((Path.pairwise_sort _).and hnodup).imp_of_mem
  intro p q hp hq hpq
  apply Path.precedes_of_le hpq.1
  intro hk
  apply hpq.2
  exact orderKey_injective_of_selects (Disk.bytes_of_isDirectory hroot) (hmem p hp) (hmem q hq) hk

theorem nodup_files (h : scan d root settings = .ok s) : s.files.Nodup := by
  apply (pairwise_files h).imp
  intro p q hpq he
  subst he
  exact asymm hpq hpq

theorem scan_eq_ok_of_agrees (ha : d.Agrees d') (h : scan d root settings = .ok s) :
    scan d' root settings = .ok s := by
  obtain ⟨hroot, hok, hs⟩ := scan_eq_ok.1 h
  have hok' : ∀ f ∈ d'.walk root, failure? f = none := fun f hf ↦ hok f (ha.mem_walk.2 hf)
  have h' : scan d' root settings = .ok
      ⟨Path.sort (((d'.walk root).filterMap candidate?).filter settings.selects),
        root.join settings.entryFile⟩ :=
    scan_eq_ok.2 ⟨ha.isDirectory root ▸ hroot, hok', rfl⟩
  rw [h', hs]
  congr 2
  have hsorted := pairwise_files h
  rw [hs] at hsorted
  apply (pairwise_files h').eq_of_mem_iff hsorted
  intro p
  simp only [(Path.sort_perm _).mem_iff, List.mem_filter, List.mem_filterMap, ha.mem_walk]

theorem enumerates_of_scan (h : scan d root settings = .ok s) : d.Enumerates root settings s.files :=
  ⟨pairwise_files h, fun _ ↦ mem_files h⟩

theorem failure?_eq_some {f : Finding} {e : AuditFailure} (h : failure? f = some e) :
    ∃ cause, e = .scan f.path cause := by
  cases f with
  | file p | stray p => cases h
  | cycle link a =>
    cases h
    exact ⟨_, rfl⟩
  | tooLong p =>
    cases h
    exact ⟨_, rfl⟩

theorem exists_failure_of_scan {e : AuditFailure} (hroot : d.isDirectory root = true)
    (h : scan d root settings = .error e) : ∃ f ∈ d.walk root, failure? f = some e := by
  rw [scan, if_pos hroot] at h
  unfold ofFindings at h
  split at h
  · rename_i e' he
    obtain rfl := Except.error.inj h
    exact List.exists_of_findSome?_eq_some he
  · cases h

theorem scan_eq_error {e : AuditFailure} (h : scan d root settings = .error e) :
    (d.isDirectory root = false ∧ ∃ cause, e = .scan root cause) ∨
      (d.isDirectory root = true ∧ ∃ f ∈ d.walk root, failure? f ≠ none ∧
        ∃ cause, e = .scan f.path cause) := by
  by_cases hroot : d.isDirectory root = true
  · obtain ⟨f, hf, hfe⟩ := exists_failure_of_scan hroot h
    exact .inr ⟨hroot, f, hf, by simp [hfe], failure?_eq_some hfe⟩
  · rw [scan, if_neg hroot] at h
    cases h
    exact .inl ⟨Bool.eq_false_iff.2 hroot, _, rfl⟩

section

variable (hshort : ∀ ns, d.Meets root ns → Disk.isTooLong (root.below ns) = false)
include hshort

theorem isDirectory_iff_of_short :
    d.isDirectory root = true ↔ ∃ loc, d.LeadsToDirectory root loc := by
  have hroot : Disk.isTooLong root = false :=
    hshort [] ⟨trivial, fun ms hms hne ↦ absurd (List.prefix_nil.1 hms) hne⟩
  rw [Disk.isDirectory_iff]
  exact and_iff_right hroot

theorem exists_scan_eq_ok_iff : (∃ s, scan d root settings = .ok s) ↔ d.CanBeScanned root := by
  constructor
  · intro h
    obtain ⟨s, hs⟩ := h
    obtain ⟨hroot, hok, -⟩ := scan_eq_ok.1 hs
    refine ⟨(isDirectory_iff_of_short hshort).1 hroot, ?_⟩
    intro ns hm hc
    obtain ⟨f, hf, hfail⟩ := Disk.exists_failure_of_closesCycle hroot hm.1 hc
    exact hfail (hok f hf)
  · intro h
    obtain ⟨hdir, hcyc⟩ := h
    have hroot := (isDirectory_iff_of_short hshort).2 hdir
    refine ⟨_, scan_eq_ok.2 ⟨hroot, ?_, rfl⟩⟩
    intro f hf
    by_contra hfail
    obtain ⟨ns, hm, -, hc | hlong⟩ := Disk.closesCycle_or_tooLong_of_failure hroot hf hfail
    · exact hcyc ns hm hc
    · rw [hshort ns hm] at hlong
      cases hlong

end

/-- A scan enumerates exactly the selected files and stray links below its root, each of them once and
in the order of their paths. It does so in whatever order directories list their names, and every order
occurs on some disk. It comes to its end unless the root or a link below it stands in the way. -/
theorem scan_enumerates (d : Disk) (root : Path) (settings : Settings) :
    (∀ s, scan d root settings = .ok s → d.Enumerates root settings s.files) ∧
    (∀ d', d.Agrees d' → ∀ s, scan d' root settings = .ok s ↔ scan d root settings = .ok s) ∧
    (∀ order : Location → List Name, (∀ loc, (order loc).Perm (d.children loc)) →
      ∃ d', d.Agrees d' ∧ ∀ loc, d'.children loc = order loc) ∧
    ((∀ ns, d.Meets root ns → Disk.isTooLong (root.below ns) = false) →
      ((∃ s, scan d root settings = .ok s) ↔ d.CanBeScanned root)) := by
  refine ⟨fun s h ↦ enumerates_of_scan h, ?_, ?_, exists_scan_eq_ok_iff⟩
  · intro d' ha s
    exact ⟨scan_eq_ok_of_agrees ha.symm, scan_eq_ok_of_agrees ha⟩
  · intro order h
    exact ⟨d.relisted order, Disk.agrees_relisted d order, Disk.children_relisted h⟩

def linkedDisk : Disk where
  records :=
    [([Text.utf8 "r"], .directory), ([Text.utf8 "a.js", Text.utf8 "r"], .file []),
      ([Text.utf8 "b", Text.utf8 "r"], .link "/s"), ([Text.utf8 "c.js", Text.utf8 "s"], .file []),
      ([Text.utf8 "b.vue", Text.utf8 "r"], .link "none"), ([Text.utf8 "s"], .directory)]
  here := []

theorem scan_linkedDisk_reversed : ∃ d : Disk,
    (∀ loc, d.children loc = (linkedDisk.children loc).reverse) ∧
    scan d "/r" {} = .ok ⟨["/r/a.js", "/r/b/c.js", "/r/b.vue"], "/r/../index.template.html"⟩ ∧
    d.Enumerates "/r" {} ["/r/a.js", "/r/b/c.js", "/r/b.vue"] := by
  have hwalk : linkedDisk.walk "/r" = [.file "/r/a.js", .file "/r/b/c.js", .stray "/r/b.vue"] := by
    decide +kernel
  have hscan : scan linkedDisk "/r" {} =
      .ok ⟨["/r/a.js", "/r/b/c.js", "/r/b.vue"], "/r/../index.template.html"⟩ := by
    rw [scan_eq_ok, hwalk]
    refine ⟨by decide +kernel, by decide, ?_⟩
    have hsorted : Path.sort ["/r/a.js", "/r/b/c.js", "/r/b.vue"] =
        ["/r/a.js", "/r/b/c.js", "/r/b.vue"] := List.mergeSort_of_pairwise (by decide +kernel)
    exact congrArg₂ mk hsorted.symm (by decide +kernel)
  obtain ⟨-, hagree, horder, -⟩ := scan_enumerates linkedDisk "/r" {}
  obtain ⟨d, ha, hd⟩ := horder (fun loc ↦ (linkedDisk.children loc).reverse) fun loc ↦
    List.reverse_perm _
  have hscan' := (hagree d ha _).2 hscan
  exact ⟨d, hd, hscan', (scan_enumerates d "/r" {}).1 _ hscan'⟩

end Sources

end KeyAudit
