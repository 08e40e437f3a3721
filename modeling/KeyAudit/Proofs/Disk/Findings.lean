import KeyAudit.Proofs.Disk.Walkable
import Mathlib.Data.List.Nodup

namespace KeyAudit

variable {d : Disk} {trail rest : Disk.Trail} {loc : Location} {p q root : Path} {n : Name}
  {ns ms : List Name} {f : Finding}

def Finding.path : Finding → Path
  | .file p | .stray p | .cycle p _ | .tooLong p => p

theorem Finding.Describes.path_eq (h : f.Describes d trail q) : f.path = q := by
  cases f <;> exact h.1

namespace Disk

theorem isDirectory_iff :
    d.isDirectory p = true ↔ isTooLong p = false ∧ ∃ loc, d.LeadsToDirectory p loc := by
  rw [isDirectory_eq_true, entry_eq_ok]
  rfl

theorem walk_eq (h : d.isDirectory root = true) (hl : d.LeadsToDirectory root loc) :
    d.walk root = d.walkIn [(loc, root)] loc root := by
  rw [walk, locate_eq_leadsTo (isDirectory_iff.1 h).1, hl.1]

theorem bytes_of_isDirectory (h : d.isDirectory root = true) : root.bytes ≠ [] :=
  let ⟨_, _, hl⟩ := isDirectory_iff.1 h
  (bytes_of_leadsTo hl.1).1

theorem describes_of_mem_walkIn (hp : d.LeadsToDirectory p loc)
    (hf : f ∈ d.walkIn ((loc, p) :: rest) loc p) :
    ∃ ns n trail, d.Advances ((loc, p) :: rest) ns trail ∧ d.Walkable p (ns ++ [n]) ∧
      f.Describes d trail (p.below (ns ++ [n])) := by
  obtain ⟨ns, trail, n, ha, hr⟩ := mem_walkIn.1 hf
  obtain ⟨hw, ⟨loc', rest', rfl, hd⟩, -⟩ := ha.invariant loc p rest rfl hp
  cases hr with
  | intro hn hturn =>
    have hdesc := turn_describes ((loc', p.below ns) :: rest') hd hn
    rw [hturn, ← Path.below_concat] at hdesc
    exact ⟨ns, n, _, ha, walkable_concat.2 ⟨hw, loc', hd, hn⟩, hdesc⟩

theorem Advances.mem_trail (hl : d.LeadsToDirectory root loc) (ha : d.Advances [(loc, root)] ns trail)
    (x : Location × Path) :
    x ∈ trail ↔ ∃ ms, ms <+: ns ∧ x.2 = root.below ms ∧ d.leadsTo x.2 = .ok x.1 := by
  rw [(ha.invariant loc root [] rfl hl).2.2 x, List.mem_singleton]
  constructor
  · intro h
    rcases h with rfl | ⟨ms, hms, -, hx⟩
    · exact ⟨[], List.nil_prefix, rfl, hl.1⟩
    · exact ⟨ms, hms, hx⟩
  · intro h
    obtain ⟨ms, hms, hx, hlead⟩ := h
    by_cases hnil : ms = []
    · subst hnil
      rw [hx] at hlead
      exact .inl (Prod.ext (Except.ok.inj (hlead.symm.trans hl.1)) hx)
    · exact .inr ⟨ms, hms, hnil, hx, hlead⟩

theorem Advances.not_closesCycle (hl : d.LeadsToDirectory root loc)
    (ha : d.Advances [(loc, root)] ns trail) (hms : ms <+: ns) : ¬ d.ClosesCycle root ms := by
  intro h
  obtain ⟨hlink, l, hd, ks, hks, hne, hlead⟩ := h
  have hnil : ms ≠ [] := by
    rintro rfl
    exact hne (List.prefix_nil.1 hks)
  exact (ha.link_fresh loc root [] rfl hl ms hms hnil hlink l hd).2 ks hks hne hlead

theorem ne_concat_of_isPrefix (h : ms <+: ns) : ms ≠ ns ++ [n] := by
  intro he
  have hlen := h.length_le
  rw [he, List.length_append, List.length_singleton] at hlen
  omega

theorem meets_concat : d.Meets p (ns ++ [n]) ↔
    d.Meets p ns ∧ ¬ d.ClosesCycle p ns ∧ d.Lists (p.below ns) n := by
  constructor
  · intro h
    obtain ⟨hw, hlist⟩ := walkable_concat.1 h.1
    have hno (ms) (hms : ms <+: ns) : ¬ d.ClosesCycle p ms :=
      h.2 ms (hms.trans (List.prefix_append _ _)) (ne_concat_of_isPrefix hms)
    exact ⟨⟨hw, fun ms hms _ ↦ hno ms hms⟩, hno ns List.prefix_rfl, hlist⟩
  · intro h
    obtain ⟨⟨hw, hno⟩, hc, hlist⟩ := h
    refine ⟨walkable_concat.2 ⟨hw, hlist⟩, fun ms hms hne ↦ ?_⟩
    by_cases he : ms = ns
    · exact he ▸ hc
    · exact hno ms ((List.prefix_concat_iff.1 hms).resolve_left hne) he

theorem walk_sound (hroot : d.isDirectory root = true) (hf : f ∈ d.walk root) :
    ∃ ns n trail, d.Meets root (ns ++ [n]) ∧ f.Describes d trail (root.below (ns ++ [n])) ∧
      ∀ x ∈ trail, ∃ ms, ms <+: ns ∧ x.2 = root.below ms ∧ d.leadsTo x.2 = .ok x.1 := by
  obtain ⟨-, loc, hl⟩ := isDirectory_iff.1 hroot
  rw [walk_eq hroot hl] at hf
  obtain ⟨ns, n, trail, ha, hw, hdesc⟩ := describes_of_mem_walkIn hl hf
  refine ⟨ns, n, trail, ⟨hw, ?_⟩, hdesc, fun x ↦ (ha.mem_trail hl x).1⟩
  intro ms hms hne
  exact ha.not_closesCycle hl ((List.prefix_concat_iff.1 hms).resolve_left hne)

theorem exists_turn_of_walkable (hroot : d.isDirectory root = true)
    (hok : ∀ f ∈ d.walk root, Sources.failure? f = none) (hw : d.Walkable root (ns ++ [n])) :
    ∃ trail, (∀ x, x ∈ trail ↔
        ∃ ms, ms <+: ns ∧ x.2 = root.below ms ∧ d.leadsTo x.2 = .ok x.1) ∧
      ∃ turn : Turn, turn.Describes d trail (root.below (ns ++ [n])) ∧
        ∀ f, turn = .report f → f ∈ d.walk root := by
  obtain ⟨-, loc, hl⟩ := isDirectory_iff.1 hroot
  rw [walk_eq hroot hl] at hok ⊢
  obtain ⟨hw, loc', hd, hn⟩ := walkable_concat.1 hw
  obtain ⟨trail, ha⟩ := advances_of_walkable hok hl hw hd
  obtain ⟨-, ⟨loc'', rest', rfl, hd'⟩, -⟩ := ha.invariant loc root [] rfl hl
  obtain rfl := hd.unique hd'
  refine ⟨(loc', root.below ns) :: rest', ha.mem_trail hl,
    d.turn ((loc', root.below ns) :: rest') loc' (root.below ns) n, ?_, ?_⟩
  · rw [Path.below_concat]
    exact turn_describes _ hd hn
  · intro f hf
    exact mem_walkIn.2 ⟨ns, _, n, ha, .intro hn hf⟩

theorem mem_candidates (hroot : d.isDirectory root = true)
    (hok : ∀ f ∈ d.walk root, Sources.failure? f = none) :
    q ∈ (d.walk root).filterMap Sources.candidate? ↔
      ∃ ns n, d.Walkable root (ns ++ [n]) ∧ q = root.below (ns ++ [n]) ∧
        (d.LeadsToFile q ∨ d.IsStray q) := by
  rw [List.mem_filterMap]
  constructor
  · intro h
    obtain ⟨f, hf, hq⟩ := h
    obtain ⟨ns, n, trail, hw, hdesc, -⟩ := walk_sound hroot hf
    refine ⟨ns, n, hw.1, ?_⟩
    cases f with
    | file r =>
      cases hq
      exact ⟨hdesc.1, .inl (hdesc.1 ▸ hdesc.2)⟩
    | stray r =>
      cases hq
      exact ⟨hdesc.1, .inr (hdesc.1 ▸ hdesc.2)⟩
    | cycle r a => cases hq
    | tooLong r => cases hq
  · intro h
    obtain ⟨ns, n, hw, rfl, hq⟩ := h
    obtain ⟨trail, -, turn, hdesc, hrep⟩ := exists_turn_of_walkable hroot hok hw
    cases turn with
    | enter loc =>
      rcases hq with hq | hq
      · exact absurd hq hdesc.1.not_file
      · exact absurd hdesc.1 hq.not_directory
    | report f =>
      have hf := hrep f rfl
      refine ⟨f, hf, ?_⟩
      have hnone := hok f hf
      cases f with
      | file r => exact congrArg some hdesc.1
      | stray r => exact congrArg some hdesc.1
      | cycle r a => cases hnone
      | tooLong r => cases hnone
    | pass =>
      rcases hq with hq | hq
      · exact absurd hq hdesc.1
      · exact absurd hq hdesc.2.1

theorem exists_failure_of_closesCycle (hroot : d.isDirectory root = true) (hw : d.Walkable root ns)
    (hc : d.ClosesCycle root ns) : ∃ f ∈ d.walk root, Sources.failure? f ≠ none := by
  by_contra hcon
  have hok : ∀ f ∈ d.walk root, Sources.failure? f = none := by
    simpa only [not_exists, not_and, not_not] using hcon
  obtain ⟨hlink, loc, hd, ms, hms, hne, hlead⟩ := hc
  rcases List.eq_nil_or_concat ns with rfl | ⟨ns, n, rfl⟩
  · exact hne (List.prefix_nil.1 hms)
  rw [List.concat_eq_append] at *
  have hms' : ms <+: ns := (List.prefix_concat_iff.1 hms).resolve_left hne
  obtain ⟨trail, htr, turn, hdesc, hrep⟩ := exists_turn_of_walkable hroot hok hw
  cases turn with
  | enter loc' =>
    obtain rfl := hd.unique hdesc.1
    exact hdesc.2 hlink (loc, root.below ms) ((htr _).2 ⟨ms, hms', rfl, hlead⟩) rfl
  | report f =>
    have hf := hok f (hrep f rfl)
    cases f with
    | file r => exact hd.not_file hdesc.2
    | stray r => exact hdesc.2.not_directory hd
    | cycle r a => cases hf
    | tooLong r => cases hf
  | pass => exact hdesc.2.2 loc hd

/-- A cycle that a walk reports is a link, and the ancestor a directory of its way to which it leads. -/
theorem exists_cycle_of_mem_walk (hroot : d.isDirectory root = true)
    (hf : .cycle p q ∈ d.walk root) :
    ∃ ns ms, d.Meets root ns ∧ p = root.below ns ∧ q = root.below ms ∧ d.IsLink (root.below ns) ∧
      ms <+: ns ∧ ms ≠ ns ∧
      ∃ loc, d.LeadsToDirectory (root.below ns) loc ∧ d.leadsTo (root.below ms) = .ok loc := by
  obtain ⟨ns, n, trail, hmeets, ⟨hp, hlink, loc, hd, ha⟩, htr⟩ := walk_sound hroot hf
  obtain ⟨ms, hms, hq, hlead⟩ := htr _ ha
  exact ⟨ns ++ [n], ms, hmeets, hp, hq, hlink, hms.trans (List.prefix_append _ _),
    ne_concat_of_isPrefix hms, loc, hd, hq ▸ hlead⟩

theorem closesCycle_or_tooLong_of_failure (hroot : d.isDirectory root = true)
    (hf : f ∈ d.walk root) (hfail : Sources.failure? f ≠ none) :
    ∃ ns, d.Meets root ns ∧ f.path = root.below ns ∧
      (d.ClosesCycle root ns ∨ isTooLong (root.below ns) = true) := by
  cases f with
  | file r => exact absurd rfl hfail
  | stray r => exact absurd rfl hfail
  | cycle r a =>
    obtain ⟨ns, ms, hmeets, hr, -, hlink, hms, hne, loc, hd, hlead⟩ := exists_cycle_of_mem_walk hroot hf
    exact ⟨ns, hmeets, hr, .inl ⟨hlink, loc, hd, ms, hms, hne, hlead⟩⟩
  | tooLong r =>
    obtain ⟨ns, n, trail, hmeets, hdesc, -⟩ := walk_sound hroot hf
    exact ⟨ns ++ [n], hmeets, hdesc.path_eq, .inr hdesc.2.1⟩

theorem nodup_children (d : Disk) (loc : Location) : (d.children loc).Nodup := by
  unfold children
  split
  · exact List.nodup_nil
  · exact nodup_eraseDups _

def findingsAt (d : Disk) (trail : Trail) (loc : Location) (p : Path) (n : Name) : List Finding :=
  match d.turn trail loc p n with
  | .enter next => d.walkIn ((next, p.join ⟨n⟩) :: trail) next (p.join ⟨n⟩)
  | .report f => [f]
  | .pass => []

theorem path_of_mem_findingsAt (hp : d.LeadsToDirectory p loc) (hn : n ∈ d.children loc)
    (hf : f ∈ d.findingsAt trail loc p n) :
    ∃ ns, (∀ m ∈ n :: ns, isProper m = true) ∧ f.path = p.below (n :: ns) := by
  have hproper := (mem_children.1 hn).2.1
  have hdesc := turn_describes trail hp hn
  unfold findingsAt at hf
  split at hf
  · rename_i next ht
    rw [ht] at hdesc
    obtain ⟨ns, m, trail', -, hw, hq⟩ := describes_of_mem_walkIn hdesc.1 hf
    exact ⟨ns ++ [m], List.forall_mem_cons.2 ⟨hproper, hw.isProper⟩, hq.path_eq⟩
  · rename_i g ht
    rw [ht] at hdesc
    rw [List.mem_singleton.1 hf]
    exact ⟨[], by simpa using hproper, hdesc.path_eq⟩
  · cases hf

theorem nodup_walkIn (trail : Trail) (loc : Location) (p : Path) (hp : d.LeadsToDirectory p loc) :
    ((d.walkIn trail loc p).map Finding.path).Nodup := by
  induction trail, loc, p using walk_induction (d := d) with
  | step trail loc p ih =>
    have hw : d.walkIn trail loc p = (d.children loc).flatMap (d.findingsAt trail loc p) :=
      walkIn_eq d trail loc p
    rw [hw, List.map_flatMap, List.nodup_flatMap]
    constructor
    · intro n hn
      have hdesc := turn_describes trail hp hn
      unfold findingsAt
      cases ht : d.turn trail loc p n with
      | enter next =>
        rw [ht] at hdesc
        exact ih n next ht hdesc.1
      | report f => exact List.nodup_singleton _
      | pass => exact List.nodup_nil
    · apply (nodup_children d loc).imp_of_mem
      intro n m hn hm hne q hq hq'
      obtain ⟨f, hf, rfl⟩ := List.mem_map.1 hq
      obtain ⟨g, hg, hgf⟩ := List.mem_map.1 hq'
      obtain ⟨ns, hns, hfp⟩ := path_of_mem_findingsAt hp hn hf
      obtain ⟨ms, hms, hgp⟩ := path_of_mem_findingsAt hp hm hg
      have hk : (p.below (n :: ns)).orderKey = (p.below (m :: ms)).orderKey := by
        rw [← hfp, ← hgp, hgf]
      apply hne
      exact (List.cons.inj (Path.eq_of_orderKey_below (bytes_of_leadsTo hp.1).1 hns hms hk)).1

end Disk

end KeyAudit
