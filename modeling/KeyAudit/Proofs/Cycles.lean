import KeyAudit.Proofs.Enumeration
import Mathlib.Data.Set.Finite.Lattice

namespace KeyAudit

variable {d : Disk} {root : Path} {settings : Settings} {trail trail' : Disk.Trail}
  {loc loc' : Location} {p : Path} {ns ms : List Name} {n : Name} {e : AuditFailure}

namespace Disk

theorem Advances.length_le_reach (h : d.Advances trail ns trail') :
    ∀ loc p rest, trail = (loc, p) :: rest → ns.length ≤ d.reach trail loc := by
  induction h with
  | stay trail =>
    intro loc p rest _
    exact Nat.zero_le _
  | @enter loc next p rest trail' n ns hn ht ha ih =>
    intro _ _ _ h
    cases h
    have hlt := reach_lt_of_turn ht
    have hle := ih next (p.join ⟨n⟩) _ rfl
    rw [List.length_cons]
    omega

theorem Advances.length_lt (hl : d.LeadsToDirectory root loc) (ha : d.Advances [(loc, root)] ns trail) :
    ns.length < d.directories.length * (d.depth + 1) := by
  have hle := ha.length_le_reach loc root [] rfl
  have hfresh : d.freshCount [(loc, root)] < d.freshCount [] := freshCount_cons_lt hl.2 rfl
  have hall : d.freshCount [] = d.directories.length := List.countP_eq_length.2 fun _ _ ↦ rfl
  have hmul := Nat.mul_le_mul_right (d.depth + 1) hfresh
  rw [hall, Nat.succ_mul] at hmul
  rw [reach] at hle
  omega

theorem finite_advances (d : Disk) (trail : Trail) (loc : Location) (p : Path) :
    ∀ rest, trail = (loc, p) :: rest → {ns | ∃ trail', d.Advances trail ns trail'}.Finite := by
  induction trail, loc, p using walk_induction (d := d) with
  | step trail loc p ih =>
    intro rest htrail
    subst htrail
    have hname (n : Name) : {ns | ∃ next, d.turn ((loc, p) :: rest) loc p n = .enter next ∧
        ∃ trail', d.Advances ((next, p.join ⟨n⟩) :: (loc, p) :: rest) ns trail'}.Finite := by
      cases ht : d.turn ((loc, p) :: rest) loc p n with
      | enter next =>
        apply (ih n next ht _ rfl).subset
        intro ns hns
        obtain ⟨_, he, ha⟩ := hns
        cases he
        exact ha
      | report f => simp
      | pass => simp
    have hbelow := (d.children loc).finite_toSet.biUnion fun n _ ↦ (hname n).image (List.cons n)
    apply (hbelow.union (Set.finite_singleton [])).subset
    intro ns hns
    obtain ⟨trail', ha⟩ := hns
    cases ha with
    | stay => exact .inr rfl
    | @enter _ next _ _ _ n ns hn ht ha =>
      exact .inl (Set.mem_biUnion hn ⟨ns, ⟨next, ht, trail', ha⟩, rfl⟩)

theorem Advances.concat (ha : d.Advances trail ns trail') {next : Location}
    {rest : Trail} (htrail : trail' = (loc, p) :: rest) (hn : n ∈ d.children loc)
    (ht : d.turn trail' loc p n = .enter next) :
    d.Advances trail (ns ++ [n]) ((next, p.join ⟨n⟩) :: trail') := by
  induction ha with
  | stay trail =>
    subst htrail
    exact .enter hn ht (.stay _)
  | enter hm hturn _ ih => exact .enter hm hturn (ih htrail ht)

theorem finite_lists (d : Disk) (p : Path) : {n | d.Lists p n}.Finite := by
  by_cases h : ∃ loc, d.LeadsToDirectory p loc
  · obtain ⟨loc, hl⟩ := h
    apply (d.children loc).finite_toSet.subset
    intro n hn
    obtain ⟨loc', hl', hn⟩ := hn
    exact hl.unique hl' ▸ hn
  · apply Set.finite_empty.subset
    intro n hn
    obtain ⟨loc, hl, -⟩ := hn
    exact h ⟨loc, hl⟩

section

variable (hshort : ∀ ns, d.Meets root ns → isTooLong (root.below ns) = false)
include hshort

/-- A walk enters each directory that it meets, save through links that lead back. -/
theorem advances_of_meets (hl : d.LeadsToDirectory root loc) (hm : d.Meets root ns)
    (hd : d.LeadsToDirectory (root.below ns) loc') (hc : ¬ d.ClosesCycle root ns) :
    ∃ trail, d.Advances [(loc, root)] ns trail := by
  induction ns using List.reverseRecOn generalizing loc' with
  | nil => exact ⟨_, .stay _⟩
  | append_singleton ns n ih =>
    obtain ⟨hns, hcns, l, hdir, hn⟩ := meets_concat.1 hm
    obtain ⟨trail, ha⟩ := ih hns hdir hcns
    obtain ⟨-, ⟨l', rest, htrail, hdir'⟩, -⟩ := ha.invariant loc root [] rfl hl
    obtain rfl := hdir.unique hdir'
    have hdesc := turn_describes trail hdir hn
    rw [← Path.below_concat] at hdesc
    cases ht : d.turn trail l (root.below ns) n with
    | enter next => exact ⟨_, ha.concat htrail hn ht⟩
    | pass =>
      rw [ht] at hdesc
      exact absurd hd (hdesc.2.2 loc')
    | report f =>
      rw [ht] at hdesc
      cases f with
      | file r => exact absurd hdesc.2 hd.not_file
      | stray r => exact absurd hd hdesc.2.not_directory
      | tooLong r =>
        have hlong := hdesc.2.1
        rw [hshort _ hm] at hlong
        cases hlong
      | cycle r a =>
        obtain ⟨-, hlink, l', hd', hmem⟩ := hdesc
        obtain ⟨ms, hms, rfl, hlead⟩ := (ha.mem_trail hl _).1 hmem
        exact absurd ⟨hlink, l', hd', ms, hms.trans (List.prefix_append _ _),
          ne_concat_of_isPrefix hms, hlead⟩ hc

theorem finite_meets (hl : d.LeadsToDirectory root loc) : {ns | d.Meets root ns}.Finite := by
  have hbelow := (finite_advances d [(loc, root)] loc root [] rfl).biUnion fun ns _ ↦
    (d.finite_lists (root.below ns)).image fun n ↦ ns ++ [n]
  apply (hbelow.union (Set.finite_singleton [])).subset
  intro ns hm
  induction ns using List.reverseRecOn with
  | nil => exact .inr rfl
  | append_singleton ns n =>
    obtain ⟨hns, hc, loc', hd, hn⟩ := meets_concat.1 hm
    exact .inl (Set.mem_biUnion (advances_of_meets hshort hl hns hd hc) ⟨n, ⟨loc', hd, hn⟩, rfl⟩)

theorem Meets.length_le (hl : d.LeadsToDirectory root loc) (hm : d.Meets root ns) :
    ns.length ≤ d.directories.length * (d.depth + 1) := by
  induction ns using List.reverseRecOn with
  | nil => exact Nat.zero_le _
  | append_singleton ns n =>
    obtain ⟨hns, hc, loc', hd, -⟩ := meets_concat.1 hm
    obtain ⟨trail, ha⟩ := advances_of_meets hshort hl hns hd hc
    rw [List.length_append, List.length_singleton]
    exact ha.length_lt hl

end

end Disk

namespace Sources

section

variable (hroot : ∃ loc, d.LeadsToDirectory root loc)
  (hshort : ∀ ns, d.Meets root ns → Disk.isTooLong (root.below ns) = false)
include hroot hshort

/-- What a failed scan reports is a link that leads to a directory around it. -/
theorem exists_cycle_of_scan (h : scan d root settings = .error e) :
    ∃ ns ms, d.Meets root ns ∧ d.IsLink (root.below ns) ∧ ms <+: ns ∧ ms ≠ ns ∧
      (∃ loc, d.LeadsToDirectory (root.below ns) loc ∧ d.leadsTo (root.below ms) = .ok loc) ∧
      e = .scan (root.below ns) (.cycle (root.below ns) (root.below ms)) := by
  have hroot := (isDirectory_iff_of_short hshort).2 hroot
  obtain ⟨f, hf, hfe⟩ := exists_failure_of_scan hroot h
  cases f with
  | file q | stray q => cases hfe
  | tooLong q =>
    obtain ⟨ns, n, trail, hmeets, hdesc, -⟩ := Disk.walk_sound hroot hf
    have hlong := hdesc.2.1
    rw [hshort _ hmeets] at hlong
    cases hlong
  | cycle q ancestor =>
    obtain ⟨ns, ms, hmeets, rfl, rfl, hlink, hms, hne, hloc⟩ := Disk.exists_cycle_of_mem_walk hroot hf
    exact ⟨ns, ms, hmeets, hlink, hms, hne, hloc, (Option.some.inj hfe).symm⟩

theorem exists_scan_eq_error_iff : (∃ e, scan d root settings = .error e) ↔
    ∃ ns, d.Meets root ns ∧ d.ClosesCycle root ns := by
  constructor
  · intro h
    obtain ⟨e, he⟩ := h
    obtain ⟨ns, ms, hm, hlink, hms, hne, ⟨loc, hl, hlead⟩, -⟩ := exists_cycle_of_scan hroot hshort he
    exact ⟨ns, hm, hlink, loc, hl, ms, hms, hne, hlead⟩
  · intro h
    obtain ⟨ns, hm, hc⟩ := h
    cases hs : scan d root settings with
    | error e => exact ⟨e, rfl⟩
    | ok s => exact absurd hc (((exists_scan_eq_ok_iff hshort).1 ⟨s, hs⟩).2 ns hm)

/-- A walk comes by finitely many paths, to all of which what it finds belongs, and so it comes to its
end. A scan fails exactly if one of these paths is a link to a directory of its own way, and reports such
a link then. No other link makes it fail, nor does a link that cannot be resolved. -/
theorem scan_fails_at_cycles (settings : Settings) :
    {ns | d.Meets root ns}.Finite ∧
    (∀ ns, d.Meets root ns → ns.length ≤ d.directories.length * (d.depth + 1)) ∧
    (∀ f ∈ d.walk root, ∃ ns, d.Meets root ns ∧ f.path = root.below ns) ∧
    ((∃ e, scan d root settings = .error e) ↔ ∃ ns, d.Meets root ns ∧ d.ClosesCycle root ns) ∧
    (∀ e, scan d root settings = .error e →
      ∃ ns ms, d.Meets root ns ∧ d.IsLink (root.below ns) ∧ ms <+: ns ∧ ms ≠ ns ∧
        (∃ loc, d.LeadsToDirectory (root.below ns) loc ∧ d.leadsTo (root.below ms) = .ok loc) ∧
        e = .scan (root.below ns) (.cycle (root.below ns) (root.below ms))) ∧
    (∀ ns, d.Walkable root ns → d.IsLink (root.below ns) → ¬ d.ClosesCycle root ns →
      ∀ e, scan d root settings = .error e → e.path ≠ root.below ns) ∧
    ∀ ns, d.IsStray (root.below ns) → ¬ d.ClosesCycle root ns := by
  obtain ⟨loc, hl⟩ := hroot
  refine ⟨Disk.finite_meets hshort hl, fun ns ↦ Disk.Meets.length_le hshort hl, ?_,
    exists_scan_eq_error_iff ⟨loc, hl⟩ hshort, fun e ↦ exists_cycle_of_scan ⟨loc, hl⟩ hshort, ?_, ?_⟩
  · intro f hf
    have hdir := (isDirectory_iff_of_short hshort).2 ⟨loc, hl⟩
    obtain ⟨ns, n, trail, hm, hdesc, -⟩ := Disk.walk_sound hdir hf
    exact ⟨ns ++ [n], hm, hdesc.path_eq⟩
  · intro ns hw _ hc e he hpath
    obtain ⟨ns', ms, hm, hlink, hms, hne, ⟨l, hd, hlead⟩, rfl⟩ := exists_cycle_of_scan ⟨loc, hl⟩ hshort he
    obtain rfl := Path.eq_of_orderKey_below (Disk.bytes_of_leadsTo hl.1).1 hm.1.isProper hw.isProper
      (congrArg Path.orderKey hpath)
    exact hc ⟨hlink, l, hd, ms, hms, hne, hlead⟩
  · intro ns hs hc
    obtain ⟨-, l, hd, -⟩ := hc
    exact hs.not_directory hd

end

def loopDisk : Disk where
  records := [([Text.utf8 "a"], .directory), ([Text.utf8 "b", Text.utf8 "a"], .directory),
    ([Text.utf8 "l", Text.utf8 "b", Text.utf8 "a"], .link "/a")]
  here := []

theorem closesCycle_loopDisk :
    loopDisk.ClosesCycle "/a/b" [Text.utf8 "l", Text.utf8 "b", Text.utf8 "l"] := by
  have hlink : loopDisk.standsAt "/a/b/l/b/l" = .ok [Text.utf8 "l", Text.utf8 "b", Text.utf8 "a"] := by
    decide +kernel
  have hdir : loopDisk.LeadsToDirectory "/a/b/l/b/l" [Text.utf8 "a"] :=
    ⟨by decide +kernel, by decide +kernel⟩
  exact ⟨⟨_, "/a", hlink, by decide +kernel⟩, _, hdir, [Text.utf8 "l"], by decide, by decide,
    by decide +kernel⟩

theorem meets_loopDisk {ns : List Name} (h : loopDisk.Meets "/a/b" ns) :
    ns = [] ∨ ns = [Text.utf8 "l"] ∨ ns = [Text.utf8 "l", Text.utf8 "b"] ∨
      ns = [Text.utf8 "l", Text.utf8 "b", Text.utf8 "l"] := by
  obtain ⟨hw, hno⟩ := h
  have hroot : loopDisk.leadsTo "/a/b" = .ok [Text.utf8 "b", Text.utf8 "a"] := by decide +kernel
  have hup : loopDisk.leadsTo "/a/b/l" = .ok [Text.utf8 "a"] := by decide +kernel
  have hdown : loopDisk.leadsTo "/a/b/l/b" = .ok [Text.utf8 "b", Text.utf8 "a"] := by decide +kernel
  obtain rfl | ⟨ns, rfl, hw₁⟩ := hw.eq_nil_or_cons hroot (n := Text.utf8 "l") (by decide +kernel)
  · exact .inl rfl
  obtain rfl | ⟨ns, rfl, hw₂⟩ := hw₁.eq_nil_or_cons hup (n := Text.utf8 "b") (by decide +kernel)
  · exact .inr (.inl rfl)
  obtain rfl | ⟨ns, rfl, -⟩ := hw₂.eq_nil_or_cons hdown (n := Text.utf8 "l") (by decide +kernel)
  · exact .inr (.inr (.inl rfl))
  cases ns with
  | nil => exact .inr (.inr (.inr rfl))
  | cons n ns => exact absurd closesCycle_loopDisk (hno _ ⟨n :: ns, rfl⟩ (by simp))

theorem scan_loopDisk :
    (∃ loc, loopDisk.LeadsToDirectory "/a/b" loc) ∧
    (∀ ns, loopDisk.Meets "/a/b" ns → Disk.isTooLong (Path.below "/a/b" ns) = false) ∧
    {ns | loopDisk.Meets "/a/b" ns}.Finite ∧
    scan loopDisk "/a/b" {} = .error (.scan "/a/b/l/b/l" (.cycle "/a/b/l/b/l" "/a/b/l")) ∧
    ∃ ns, loopDisk.Meets "/a/b" ns ∧ loopDisk.ClosesCycle "/a/b" ns := by
  have hroot : ∃ loc, loopDisk.LeadsToDirectory "/a/b" loc :=
    ⟨[Text.utf8 "b", Text.utf8 "a"], by decide +kernel, by decide +kernel⟩
  have hshort (ns) (h : loopDisk.Meets "/a/b" ns) :
      Disk.isTooLong (Path.below "/a/b" ns) = false := by
    obtain rfl | rfl | rfl | rfl := meets_loopDisk h <;> decide +kernel
  have hscan : scan loopDisk "/a/b" {} =
      .error (.scan "/a/b/l/b/l" (.cycle "/a/b/l/b/l" "/a/b/l")) := by decide +kernel
  obtain ⟨hfinite, -, -, hfails, -⟩ := scan_fails_at_cycles hroot hshort {}
  exact ⟨hroot, hshort, hfinite, hscan, hfails.1 ⟨_, hscan⟩⟩

end Sources

end KeyAudit
