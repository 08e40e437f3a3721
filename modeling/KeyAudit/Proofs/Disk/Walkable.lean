import KeyAudit.Audit.Sources
import KeyAudit.Proofs.Disk.Resolve
import KeyAudit.Proofs.Disk.Turns

namespace KeyAudit

variable {d : Disk} {trail rest : Disk.Trail} {loc loc' : Location} {p q root : Path} {n : Name}
  {ns ms : List Name} {f : Finding}

namespace Disk

def LeadsToDirectory (d : Disk) (p : Path) (loc : Location) : Prop :=
  d.leadsTo p = .ok loc ∧ d.at? loc = some .directory

def LeadsToFile (d : Disk) (p : Path) : Prop :=
  ∃ loc content, d.leadsTo p = .ok loc ∧ d.at? loc = some (.file content)

def IsLink (d : Disk) (p : Path) : Prop :=
  ∃ loc target, d.standsAt p = .ok loc ∧ d.at? loc = some (.link target)

/-- A link that cannot be resolved. -/
def IsStray (d : Disk) (p : Path) : Prop := d.IsLink p ∧ ∃ cause, d.leadsTo p = .error cause

def Lists (d : Disk) (p : Path) (n : Name) : Prop :=
  ∃ loc, d.LeadsToDirectory p loc ∧ n ∈ d.children loc

/-- Each of the names is listed in the directory to which those before it lead from `p`. -/
def Walkable (d : Disk) (p : Path) : List Name → Prop
  | [] => True
  | n :: ns => d.Lists p n ∧ Walkable d (p.join ⟨n⟩) ns

/-- The names end at a link to a directory through which they lead from `p`. -/
def ClosesCycle (d : Disk) (p : Path) (ns : List Name) : Prop :=
  d.IsLink (p.below ns) ∧ ∃ loc, d.LeadsToDirectory (p.below ns) loc ∧
    ∃ ms, ms <+: ns ∧ ms ≠ ns ∧ d.leadsTo (p.below ms) = .ok loc

/-- A walk from `p` comes by the end of the names: they can be walked, and no link leads them back into
their own way before. -/
def Meets (d : Disk) (p : Path) (ns : List Name) : Prop :=
  d.Walkable p ns ∧ ∀ ms, ms <+: ns → ms ≠ ns → ¬ d.ClosesCycle p ms

theorem leadsToDirectory_iff (h : d.leadsTo p = .ok loc) :
    d.LeadsToDirectory p loc' ↔ loc' = loc ∧ d.at? loc = some .directory := by
  constructor
  · intro h
    obtain ⟨hl, hd⟩ := h
    obtain rfl := Except.ok.inj (h.symm.trans hl)
    exact ⟨rfl, hd⟩
  · intro h
    obtain ⟨rfl, hd⟩ := h
    exact ⟨h, hd⟩

theorem leadsToFile_iff (h : d.leadsTo p = .ok loc) :
    d.LeadsToFile p ↔ ∃ content, d.at? loc = some (.file content) := by
  constructor
  · intro h
    obtain ⟨l, content, hl, hf⟩ := h
    obtain rfl := Except.ok.inj (h.symm.trans hl)
    exact ⟨content, hf⟩
  · intro h
    obtain ⟨content, hf⟩ := h
    exact ⟨loc, content, h, hf⟩

theorem not_isStray (h : d.leadsTo p = .ok loc) : ¬ d.IsStray p := by
  intro h
  obtain ⟨-, cause, hc⟩ := h
  rw [hc] at h
  cases h

theorem IsStray.not_directory (h : d.IsStray p) : ¬ d.LeadsToDirectory p loc :=
  fun hd ↦ not_isStray hd.1 h

theorem LeadsToDirectory.not_file (h : d.LeadsToDirectory p loc) : ¬ d.LeadsToFile p := by
  rw [leadsToFile_iff h.1, h.2]
  simp

theorem LeadsToDirectory.unique (h : d.LeadsToDirectory p loc) (h' : d.LeadsToDirectory p loc') :
    loc = loc' := ((leadsToDirectory_iff h'.1).1 h).1

theorem Lists.isProper (h : d.Lists p n) : isProper n = true :=
  let ⟨_, _, hn⟩ := h
  (mem_children.1 hn).2.1

theorem walkable_append : d.Walkable p (ns ++ ms) ↔ d.Walkable p ns ∧ d.Walkable (p.below ns) ms := by
  induction ns generalizing p with
  | nil => simp [Walkable]
  | cons n ns ih => simp only [List.cons_append, Walkable, ih, Path.below, and_assoc]

theorem walkable_concat :
    d.Walkable p (ns ++ [n]) ↔ d.Walkable p ns ∧ d.Lists (p.below ns) n := by
  rw [walkable_append]
  simp [Walkable]

theorem Walkable.leadsToDirectory (h : d.Walkable p (ns ++ [n])) :
    ∃ loc, d.LeadsToDirectory p loc := by
  cases ns with
  | nil =>
    obtain ⟨⟨loc, hl, -⟩, -⟩ := h
    exact ⟨loc, hl⟩
  | cons m ns =>
    obtain ⟨⟨loc, hl, -⟩, -⟩ := h
    exact ⟨loc, hl⟩

theorem Walkable.bytes (h : d.Walkable p (ns ++ [n])) : p.bytes ≠ [] :=
  let ⟨_, hl⟩ := h.leadsToDirectory
  (bytes_of_leadsTo hl.1).1

theorem Walkable.isProper (h : d.Walkable p ns) : ∀ n ∈ ns, isProper n = true := by
  induction ns generalizing p with
  | nil => simp
  | cons n ns ih => exact List.forall_mem_cons.2 ⟨h.1.isProper, ih h.2⟩

theorem Walkable.eq_nil_or_cons (h : d.Walkable p ns) (hl : d.leadsTo p = .ok loc)
    (hc : d.children loc = [n]) : ns = [] ∨ ∃ ms, ns = n :: ms ∧ d.Walkable (p.join ⟨n⟩) ms := by
  cases ns with
  | nil => exact .inl rfl
  | cons m ms =>
    obtain ⟨⟨loc', hd, hm⟩, hms⟩ := h
    obtain rfl := Except.ok.inj (hl.symm.trans hd.1)
    rw [hc, List.mem_singleton] at hm
    subst hm
    exact .inr ⟨ms, rfl, hms⟩

theorem Walkable.eq_nil_or_singleton (h : d.Walkable p ns) (hl : d.leadsTo p = .ok loc)
    (hc : d.children loc = [n]) (hno : ∀ l, ¬ d.LeadsToDirectory (p.join ⟨n⟩) l) :
    ns = [] ∨ ns = [n] := by
  obtain rfl | ⟨ms, rfl, hms⟩ := h.eq_nil_or_cons hl hc
  · exact .inl rfl
  cases ms with
  | nil => exact .inr rfl
  | cons k ms =>
    obtain ⟨⟨l, hd, -⟩, -⟩ := hms
    exact absurd hd (hno l)

end Disk

def Finding.Describes (d : Disk) (trail : Disk.Trail) (q : Path) : Finding → Prop
  | .file r => r = q ∧ d.LeadsToFile q
  | .stray r => r = q ∧ d.IsStray q
  | .cycle r ancestor => r = q ∧ d.IsLink q ∧ ∃ loc, d.LeadsToDirectory q loc ∧ (loc, ancestor) ∈ trail
  | .tooLong r => r = q ∧ Disk.isTooLong q = true ∧ (d.IsLink q ∨ ∃ loc, d.LeadsToDirectory q loc)

namespace Disk

def Turn.Describes (d : Disk) (trail : Trail) (q : Path) : Turn → Prop
  | .enter loc => d.LeadsToDirectory q loc ∧ (d.IsLink q → ∀ x ∈ trail, x.1 ≠ loc)
  | .report f => f.Describes d trail q
  | .pass => ¬ d.LeadsToFile q ∧ ¬ d.IsStray q ∧ ∀ loc, ¬ d.LeadsToDirectory q loc

theorem Turn.Describes.eq_file {turn : Turn} (h : turn.Describes d trail q) (hf : d.LeadsToFile q)
    (hshort : isTooLong q = false) : turn = .report (.file q) := by
  cases turn with
  | enter next => exact absurd hf h.1.not_file
  | pass => exact absurd hf h.1
  | report f =>
    cases f with
    | file r => rw [h.1]
    | stray r =>
      obtain ⟨loc, content, hl, -⟩ := hf
      exact absurd h.2 (not_isStray hl)
    | cycle r ancestor =>
      obtain ⟨-, -, loc, hd, -⟩ := h
      exact absurd hf hd.not_file
    | tooLong r =>
      have hlong := h.2.1
      rw [hshort] at hlong
      cases hlong

theorem Turn.Describes.eq_stray {turn : Turn} (h : turn.Describes d trail q) (hs : d.IsStray q)
    (hshort : isTooLong q = false) : turn = .report (.stray q) := by
  cases turn with
  | enter next => exact absurd h.1 hs.not_directory
  | pass => exact absurd hs h.2.1
  | report f =>
    cases f with
    | file r =>
      obtain ⟨-, loc, content, hl, -⟩ := h
      exact absurd hs (not_isStray hl)
    | stray r => rw [h.1]
    | cycle r ancestor =>
      obtain ⟨-, -, loc, hd, -⟩ := h
      exact absurd hd hs.not_directory
    | tooLong r =>
      have hlong := h.2.1
      rw [hshort] at hlong
      cases hlong

theorem describes_pass (trail : Trail) (hl : d.leadsTo p = .ok loc)
    (hnd : d.at? loc ≠ some .directory) (hnf : ∀ c, d.at? loc ≠ some (.file c)) :
    Turn.pass.Describes d trail p := by
  refine ⟨?_, not_isStray hl, ?_⟩
  · intro h
    obtain ⟨c, hc⟩ := (leadsToFile_iff hl).1 h
    exact hnf c hc
  · intro l h
    exact hnd ((leadsToDirectory_iff hl).1 h).2

theorem turn_describes_of_link (trail : Trail) {target : Path} (hlink : d.IsLink (p.join ⟨n⟩))
    (hat : d.at? (n :: loc) = some (.link target)) :
    (d.turn trail loc p n).Describes d trail (p.join ⟨n⟩) := by
  simp only [turn, hat]
  split
  · rename_i hlong
    exact ⟨rfl, hlong, .inl hlink⟩
  rename_i hlong
  rw [locate_eq_leadsTo (Bool.eq_false_iff.2 hlong)]
  cases hl : d.leadsTo (p.join ⟨n⟩) with
  | error cause => exact ⟨rfl, hlink, cause, hl⟩
  | ok place =>
    dsimp only
    split
    · rename_i ht
      have hdir : d.LeadsToDirectory (p.join ⟨n⟩) place := ⟨hl, ht⟩
      split
      · rename_i l ancestor hf
        obtain rfl : l = place := by simpa using List.find?_some hf
        exact ⟨rfl, hlink, l, hdir, List.mem_of_find?_eq_some hf⟩
      · rename_i hf
        refine ⟨hdir, ?_⟩
        intro _ x hx hxl
        exact List.find?_eq_none.1 hf x hx (beq_iff_eq.2 hxl)
    · rename_i c ht
      exact ⟨rfl, (leadsToFile_iff hl).2 ⟨c, ht⟩⟩
    · rename_i hnd hnf
      exact describes_pass trail hl hnd hnf

theorem turn_describes (trail : Trail) (hp : d.LeadsToDirectory p loc) (hn : n ∈ d.children loc) :
    (d.turn trail loc p n).Describes d trail (p.join ⟨n⟩) := by
  have hs := standsAt_join hp.1 hp.2 hn
  have hplain := leadsTo_join hp.1 hp.2 hn
  cases hat : d.at? (n :: loc) with
  | none => simpa [hat] using (mem_children.1 hn).2.2
  | some e =>
    cases e with
    | directory =>
      have hq : d.LeadsToDirectory (p.join ⟨n⟩) (n :: loc) := ⟨hplain (by simp [hat]), hat⟩
      simp only [turn, hat]
      split
      · rename_i hlong
        exact ⟨rfl, hlong, .inr ⟨_, hq⟩⟩
      · refine ⟨hq, ?_⟩
        intro h
        obtain ⟨l, t, hl, ht⟩ := h
        obtain rfl := Except.ok.inj (hs.symm.trans hl)
        rw [hat] at ht
        cases ht
    | file c =>
      simp only [turn, hat]
      exact ⟨rfl, _, c, hplain (by simp [hat]), hat⟩
    | link t => exact turn_describes_of_link trail ⟨_, t, hs, hat⟩ hat
    | device =>
      simp only [turn, hat]
      exact describes_pass trail (hplain (by simp [hat])) (by simp [hat]) (by simp [hat])

theorem Advances.invariant {trail' : Trail} (h : d.Advances trail ns trail') :
    ∀ loc p rest, trail = (loc, p) :: rest → d.LeadsToDirectory p loc →
      d.Walkable p ns ∧
      (∃ loc' rest', trail' = (loc', p.below ns) :: rest' ∧ d.LeadsToDirectory (p.below ns) loc') ∧
      ∀ x, x ∈ trail' ↔ x ∈ trail ∨
        ∃ ms, ms <+: ns ∧ ms ≠ [] ∧ x.2 = p.below ms ∧ d.leadsTo x.2 = .ok x.1 := by
  induction h with
  | stay trail =>
    rintro loc p rest rfl hp
    refine ⟨trivial, ⟨loc, rest, rfl, hp⟩, fun x ↦ ⟨.inl, ?_⟩⟩
    intro h
    rcases h with hx | ⟨ms, hms, hne, -⟩
    · exact hx
    · exact absurd (List.prefix_nil.1 hms) hne
  | @enter loc next p rest trail' n ns hn ht ha ih =>
    intro _ _ _ h hp
    cases h
    have hd := turn_describes ((loc, p) :: rest) hp hn
    rw [ht] at hd
    obtain ⟨hw, hend, htr⟩ := ih next (p.join ⟨n⟩) _ rfl hd.1
    refine ⟨⟨⟨loc, hp, hn⟩, hw⟩, hend, ?_⟩
    intro x
    rw [htr x, List.mem_cons (a := x)]
    constructor
    · intro h
      rcases h with (rfl | hx) | ⟨ms, hms, -, hx⟩
      · exact .inr ⟨[n], ⟨ns, rfl⟩, List.cons_ne_nil _ _, rfl, hd.1.1⟩
      · exact .inl hx
      · exact .inr ⟨n :: ms, List.cons_prefix_cons.2 ⟨rfl, hms⟩, List.cons_ne_nil _ _, hx⟩
    · intro h
      rcases h with hx | ⟨_ | ⟨m, ms⟩, hms, hne, hx, hl⟩
      · exact .inl (.inr hx)
      · exact absurd rfl hne
      · obtain ⟨rfl, htail⟩ := List.cons_prefix_cons.1 hms
        rcases ms with _ | ⟨k, ms⟩
        · refine .inl (.inl ?_)
          rw [hx] at hl
          exact Prod.ext (Except.ok.inj (hl.symm.trans hd.1.1)) hx
        · exact .inr ⟨k :: ms, htail, List.cons_ne_nil _ _, hx, hl⟩

theorem Advances.link_fresh {trail' : Trail} (h : d.Advances trail ns trail') :
    ∀ loc p rest, trail = (loc, p) :: rest → d.LeadsToDirectory p loc →
      ∀ ms, ms <+: ns → ms ≠ [] → d.IsLink (p.below ms) →
        ∀ l, d.LeadsToDirectory (p.below ms) l →
          (∀ x ∈ trail, x.1 ≠ l) ∧ ∀ ks, ks <+: ms → ks ≠ ms → d.leadsTo (p.below ks) ≠ .ok l := by
  induction h with
  | stay trail =>
    rintro loc p rest rfl hp ms hms hne
    exact absurd (List.prefix_nil.1 hms) hne
  | @enter loc next p rest trail' n ns hn ht ha ih =>
    intro _ _ _ h hp
    cases h
    rintro (_ | ⟨m, ms⟩) hms hne hlink l hl
    · exact absurd rfl hne
    obtain ⟨rfl, htail⟩ := List.cons_prefix_cons.1 hms
    have hd := turn_describes ((loc, p) :: rest) hp hn
    rw [ht] at hd
    have hfresh : (∀ x ∈ (loc, p) :: rest, x.1 ≠ l) ∧
        ∀ ks, ks <+: ms → ks ≠ ms → d.leadsTo ((p.join ⟨m⟩).below ks) ≠ .ok l := by
      by_cases hnil : ms = []
      · subst hnil
        obtain rfl := hd.1.unique hl
        exact ⟨hd.2 hlink, fun ks hks hne ↦ absurd (List.prefix_nil.1 hks) hne⟩
      · obtain ⟨hx, hks⟩ := ih next (p.join ⟨m⟩) _ rfl hd.1 ms htail hnil hlink l hl
        exact ⟨fun x hx' ↦ hx x (List.mem_cons_of_mem _ hx'), hks⟩
    refine ⟨hfresh.1, ?_⟩
    rintro (_ | ⟨k, ks⟩) hks hne' hlead
    · have hloc := hfresh.1 (loc, p) List.mem_cons_self
      exact hloc (Except.ok.inj (hp.1.symm.trans hlead))
    · obtain ⟨rfl, hks'⟩ := List.cons_prefix_cons.1 hks
      exact hfresh.2 ks hks' (fun he ↦ hne' (he ▸ rfl)) hlead

/-- A walk without failures passes through every directory below it. -/
theorem advances_of_walkable (hok : ∀ f ∈ d.walkIn ((loc, p) :: rest) loc p, Sources.failure? f = none)
    (hp : d.LeadsToDirectory p loc) (hw : d.Walkable p ns)
    (hd : d.LeadsToDirectory (p.below ns) loc') :
    ∃ trail', d.Advances ((loc, p) :: rest) ns trail' := by
  induction ns generalizing p loc rest with
  | nil => exact ⟨_, .stay _⟩
  | cons n ns ih =>
    obtain ⟨⟨l, hl, hn⟩, hw⟩ := hw
    obtain rfl := hp.unique hl
    have hq : ∃ l, d.LeadsToDirectory (p.join ⟨n⟩) l := by
      cases ns with
      | nil => exact ⟨_, hd⟩
      | cons m ns =>
        obtain ⟨⟨l, hl, -⟩, -⟩ := hw
        exact ⟨l, hl⟩
    obtain ⟨l, hq⟩ := hq
    have ht := turn_describes ((loc, p) :: rest) hp hn
    have hrep (f) (h : d.turn ((loc, p) :: rest) loc p n = .report f) : Sources.failure? f = none :=
      hok f (mem_walkIn.2 ⟨[], _, n, .stay _, .intro hn h⟩)
    cases hturn : d.turn ((loc, p) :: rest) loc p n with
    | enter next =>
      have hsub : ∀ f ∈ d.walkIn ((next, p.join ⟨n⟩) :: (loc, p) :: rest) next (p.join ⟨n⟩),
          Sources.failure? f = none := by
        intro f hf
        obtain ⟨ms, trail', m, ha, hr⟩ := mem_walkIn.1 hf
        exact hok f (mem_walkIn.2 ⟨n :: ms, trail', m, .enter hn hturn ha, hr⟩)
      rw [hturn] at ht
      obtain ⟨trail', ha⟩ := ih hsub ht.1 hw hd
      exact ⟨trail', .enter hn hturn ha⟩
    | report f =>
      rw [hturn] at ht
      have hf := hrep f hturn
      cases f with
      | file r => exact absurd ht.2 hq.not_file
      | stray r => exact absurd hq ht.2.not_directory
      | cycle r a => cases hf
      | tooLong r => cases hf
    | pass =>
      rw [hturn] at ht
      exact absurd hq (ht.2.2 l)

end Disk

end KeyAudit
