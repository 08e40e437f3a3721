import KeyAudit.Disk.Edit
import KeyAudit.Proofs.Disk.Findings

namespace KeyAudit.Disk

variable {d d' : Disk} {up loc : Location} {n : Name} {ns : List Name} {follow : Bool}
  {p root : Path} {e : Entry} {trail rest : Trail} {f : Finding}

/-- The second disk holds the same as the first one and one more entry, which the directory `up` lists.
Directories may list what they hold in different orders. -/
structure Gains (d d' : Disk) (up : Location) (n : Name) : Prop where
  here : d'.here = d.here
  fresh : d.at? (n :: up) = none
  listed : n ∈ d'.children up
  same : ∀ loc, loc ≠ n :: up → d'.at? loc = d.at? loc

theorem at?_put (hfresh : d.at? (n :: up) = none) (e : Entry) (loc : Location) :
    (d.put (n :: up) e).at? loc = if loc = n :: up then some e else d.at? loc := by
  have hnone : d.records.lookup (n :: up) = none := by
    rwa [at?, if_neg (List.cons_ne_nil _ _)] at hfresh
  rw [put, hnone, Option.isSome_none, if_neg Bool.false_ne_true]
  simp only [at?, List.lookup_append, List.lookup_cons, List.lookup_nil]
  by_cases hloc : loc = n :: up
  · subst hloc
    simp [hnone]
  · rw [beq_eq_false_iff_ne.2 hloc, if_neg hloc, Option.or_none]

theorem gains_put (hfresh : d.at? (n :: up) = none) (hn : isProper n) (hup : isRemoved up = false)
    (e : Entry) : d.Gains (d.put (n :: up) e) up n where
  here := by
    rw [put]
    split <;> rfl
  fresh := hfresh
  listed := mem_children.2 ⟨hup, hn, by rw [at?_put hfresh, if_pos rfl, Option.isSome_some]⟩
  same loc hloc := by rw [at?_put hfresh, if_neg hloc]

/-- The way of a path neither comes by a place nor ends there. It is the same when the place is barred. -/
structure Avoids (d : Disk) (place : Location) (p : Path) : Prop where
  way : d.resolve (· != place) true p = d.leadsTo p
  goal : d.leadsTo p ≠ .ok place

/-- A way that comes by the barred place finds nothing there. Any other way is the same on both disks. -/
def SameUnlessBarred (barred plain gained : Except AccessFailure Location) : Prop :=
  (barred = plain ∧ gained = plain) ∨
    (plain = .error .notFound ∧ barred = .error .nameTooLong)

theorem sameUnlessBarred_refl (r : Except AccessFailure Location) : SameUnlessBarred r r r :=
  .inl ⟨rfl, rfl⟩

namespace Gains

variable (h : d.Gains d' up n)
include h

theorem isProper : isProper n = true := (mem_children.1 h.listed).2.1

theorem ne_of_at? (hat : d.at? loc = some e) : loc ≠ n :: up := by
  rintro rfl
  rw [h.fresh] at hat
  cases hat

theorem at?_of_at? (hat : d.at? loc = some e) : d'.at? loc = some e :=
  (h.same loc (h.ne_of_at? hat)).trans hat

theorem descend_of_beyond (links : Nat)
    (hb : ∀ loc ps, SameUnlessBarred (d.beyond (· != n :: up) follow links loc ps)
      (d.beyond (fun _ ↦ true) follow links loc ps) (d'.beyond (fun _ ↦ true) follow links loc ps))
    (loc : Location) (ps : List Bytes) :
    SameUnlessBarred (d.descend (· != n :: up) follow links loc ps)
      (d.descend (fun _ ↦ true) follow links loc ps)
      (d'.descend (fun _ ↦ true) follow links loc ps) := by
  induction ps generalizing loc with
  | nil =>
    simp only [descend_nil]
    exact sameUnlessBarred_refl _
  | cons part ps ih =>
    simp only [descend_cons]
    by_cases hv : Path.isVoid part
    · simpa only [if_pos hv] using ih loc
    by_cases hu : part = [Path.dot, Path.dot]
    · simpa only [if_neg hv, if_pos hu] using ih loc.tail
    by_cases hr : isRemoved loc
    · simp only [if_neg hv, if_neg hu, if_pos hr]
      exact sameUnlessBarred_refl _
    by_cases hl : nameLimit < part.length
    · simp only [if_neg hv, if_neg hu, if_neg hr, hl, true_or, if_true]
      exact sameUnlessBarred_refl _
    by_cases hplace : part :: loc = n :: up
    · simp only [if_neg hv, if_neg hu, if_neg hr, hplace, h.fresh, hl]
      exact .inr ⟨by simp, by simp⟩
    simp only [if_neg hv, if_neg hu, if_neg hr, hl, bne_iff_ne.2 hplace, h.same _ hplace,
      Bool.not_true, Bool.false_eq_true, or_self, if_false]
    cases d.at? (part :: loc) with
    | none => exact sameUnlessBarred_refl _
    | some e =>
      cases e with
      | directory => exact ih (part :: loc)
      | file _ | device => exact sameUnlessBarred_refl _
      | link target =>
        dsimp only
        split
        · exact sameUnlessBarred_refl _
        split
        · exact sameUnlessBarred_refl _
        · exact hb _ _

theorem descend (links : Nat) (loc : Location) (ps : List Bytes) :
    SameUnlessBarred (d.descend (· != n :: up) follow links loc ps)
      (d.descend (fun _ ↦ true) follow links loc ps)
      (d'.descend (fun _ ↦ true) follow links loc ps) := by
  induction links generalizing loc ps with
  | zero => exact h.descend_of_beyond 0 (fun _ _ ↦ sameUnlessBarred_refl _) loc ps
  | succ links ih => exact h.descend_of_beyond (links + 1) ih loc ps

theorem resolve (follow : Bool) (p : Path) :
    SameUnlessBarred (d.resolve (· != n :: up) follow p) (d.resolve (fun _ ↦ true) follow p)
      (d'.resolve (fun _ ↦ true) follow p) := by
  simp only [Disk.resolve, h.here]
  split
  · exact sameUnlessBarred_refl _
  split
  · exact sameUnlessBarred_refl _
  · exact h.descend _ _ _

theorem resolve_of_ok (hp : d.resolve (fun _ ↦ true) follow p = .ok loc) :
    d'.resolve (fun _ ↦ true) follow p = .ok loc := by
  rcases h.resolve follow p with ⟨-, hsame⟩ | ⟨hno, -⟩
  · exact hsame.trans hp
  · rw [hp] at hno
    cases hno

theorem leadsTo_of_avoids (ha : d.Avoids (n :: up) p) : d'.leadsTo p = d.leadsTo p := by
  rcases h.resolve true p with ⟨-, hsame⟩ | ⟨hno, hbar⟩
  · exact hsame
  · have hway := ha.way
    rw [hbar, leadsTo, hno] at hway
    cases hway

theorem locate_of_avoids (ha : d.Avoids (n :: up) p) : d'.locate true p = d.locate true p := by
  have hl := h.leadsTo_of_avoids ha
  rw [leadsTo, leadsTo] at hl
  rw [locate, locate, hl]

theorem leadsToDirectory (hp : d.LeadsToDirectory p loc) : d'.LeadsToDirectory p loc :=
  ⟨h.resolve_of_ok hp.1, h.at?_of_at? hp.2⟩

theorem entry_of_ok (hp : d.entry p = .ok e) : d'.entry p = .ok e := by
  obtain ⟨hlong, loc, hl, hat⟩ := entry_eq_ok.1 hp
  exact entry_eq_ok.2 ⟨hlong, loc, h.resolve_of_ok hl, h.at?_of_at? hat⟩

theorem mem_children_of_ne {m : Name} (hm : m :: loc ≠ n :: up) :
    m ∈ d'.children loc ↔ m ∈ d.children loc := by
  rw [mem_children, mem_children, h.same _ hm]

theorem mem_children_of_mem {m : Name} (hm : m ∈ d.children loc) : m ∈ d'.children loc := by
  obtain ⟨e, he⟩ := Option.isSome_iff_exists.1 (mem_children.1 hm).2.2
  exact (h.mem_children_of_ne (h.ne_of_at? he)).2 hm

theorem turn_eq {m : Name} (hp : d.LeadsToDirectory p loc)
    (hm : m ∈ d.children loc)
    (hlink : d.IsLink (p.join ⟨m⟩) → d.Avoids (n :: up) (p.join ⟨m⟩)) :
    d'.turn trail loc p m = d.turn trail loc p m := by
  obtain ⟨e, hat⟩ := Option.isSome_iff_exists.1 (mem_children.1 hm).2.2
  simp only [turn, hat, h.at?_of_at? hat]
  cases e with
  | directory | file _ | device => rfl
  | link target =>
    have ha := hlink ⟨_, target, standsAt_join hp.1 hp.2 hm, hat⟩
    dsimp only
    rw [h.locate_of_avoids ha]
    split
    · rfl
    cases hl : d.locate true (p.join ⟨m⟩) with
    | error cause => rfl
    | ok place =>
      have hne : place ≠ n :: up := fun he ↦ ha.goal (he ▸ leadsTo_of_locate hl)
      simp only [h.same place hne]

end Gains

/-- A walk from the root comes by the new entry, as `n` below the names `ns` and in no other way. No link
that it comes by leads to the new entry. -/
structure GainsBelow (d d' : Disk) (root : Path) (ns : List Name) (up : Location) (n : Name) : Prop
    extends Gains d d' up n where
  walkable : d.Walkable root ns
  leads : d.LeadsToDirectory (root.below ns) up
  once : ∀ ms, d.Walkable root ms → d.LeadsToDirectory (root.below ms) up → ms = ns
  links : ∀ ms, d.Walkable root ms → d.IsLink (root.below ms) → d.Avoids (n :: up) (root.below ms)

def StandsBelow (d : Disk) (root : Path) (trail : Trail) : Prop :=
  ∃ loc ks rest, trail = (loc, root.below ks) :: rest ∧ d.Walkable root ks ∧
    d.LeadsToDirectory (root.below ks) loc

theorem StandsBelow.enter {next : Location} {rest : Trail} {m : Name}
    (hs : d.StandsBelow root ((loc, p) :: rest)) (hm : m ∈ d.children loc)
    (ht : d.turn ((loc, p) :: rest) loc p m = .enter next) :
    d.StandsBelow root ((next, p.join ⟨m⟩) :: (loc, p) :: rest) := by
  obtain ⟨_, ks, _, heq, hw, hp⟩ := hs
  cases heq
  have hd := turn_describes ((loc, root.below ks) :: rest) hp hm
  rw [ht, ← Path.below_concat] at hd
  exact ⟨next, ks ++ [m], _, by rw [Path.below_concat], walkable_concat.2 ⟨hw, loc, hp, hm⟩, hd.1⟩

namespace GainsBelow

variable (h : d.GainsBelow d' root ns up n)
include h

theorem turn_eq {m : Name} (hs : d.StandsBelow root ((loc, p) :: rest)) (hm : m ∈ d.children loc) :
    d'.turn ((loc, p) :: rest) loc p m = d.turn ((loc, p) :: rest) loc p m := by
  obtain ⟨_, ks, _, heq, hw, hp⟩ := hs
  cases heq
  apply h.toGains.turn_eq hp hm
  intro hlink
  have havoids := h.links (ks ++ [m]) (walkable_concat.2 ⟨hw, loc, hp, hm⟩)
  rw [Path.below_concat] at havoids
  exact havoids hlink

theorem reports {m : Name} (hs : d.StandsBelow root trail) (hr : d.Reports trail m f) :
    d'.Reports trail m f := by
  cases hr with
  | intro hm ht => exact .intro (h.mem_children_of_mem hm) ((h.turn_eq hs hm).trans ht)

theorem advances {trail' : Trail} {ms : List Name} (ha : d.Advances trail ms trail')
    (hs : d.StandsBelow root trail) : d'.Advances trail ms trail' ∧ d.StandsBelow root trail' := by
  induction ha with
  | stay trail => exact ⟨.stay trail, hs⟩
  | enter hm ht _ ih =>
    obtain ⟨ha, hs'⟩ := ih (hs.enter hm ht)
    exact ⟨.enter (h.mem_children_of_mem hm) ((h.turn_eq hs hm).trans ht) ha, hs'⟩

theorem turn_at_gain {m : Name} (hs : d.StandsBelow root ((loc, p) :: rest))
    (hm : m :: loc = n :: up) : loc = up ∧ p = root.below ns ∧ m = n := by
  obtain ⟨_, ks, _, heq, hw, hp⟩ := hs
  cases heq
  cases hm
  exact ⟨rfl, by rw [h.once ks hw hp], rfl⟩

variable {turn : Turn} (hturn : ∀ trail, d'.turn trail up (root.below ns) n = turn)
  (hdead : ∀ next, turn = .enter next → d'.children next = [])
include hturn hdead

theorem reports_or_gain {trail' : Trail} {ms : List Name} {m : Name}
    (ha : d'.Advances trail ms trail') (hs : d.StandsBelow root trail) (hr : d'.Reports trail' m f) :
    (d.Advances trail ms trail' ∧ d.Reports trail' m f) ∨ turn = .report f := by
  induction ha with
  | stay trail =>
    cases hr with
    | @intro loc p rest m f hm ht =>
      by_cases hgain : m :: loc = n :: up
      · obtain ⟨rfl, rfl, rfl⟩ := h.turn_at_gain hs hgain
        exact .inr ((hturn _).symm.trans ht)
      · have hm := (h.mem_children_of_ne hgain).1 hm
        exact .inl ⟨.stay _, .intro hm ((h.turn_eq hs hm).symm.trans ht)⟩
  | @enter loc next p rest trail' k ks hk ht ha ih =>
    by_cases hgain : k :: loc = n :: up
    · obtain ⟨rfl, rfl, rfl⟩ := h.turn_at_gain hs hgain
      have hnone := hdead next ((hturn _).symm.trans ht)
      cases ha with
      | stay =>
        cases hr with
        | intro hm _ =>
          rw [hnone] at hm
          cases hm
      | enter hm _ _ =>
        rw [hnone] at hm
        cases hm
    · have hk := (h.mem_children_of_ne hgain).1 hk
      have ht := (h.turn_eq hs hk).symm.trans ht
      exact (ih (hs.enter hk ht) hr).imp_left fun ⟨ha, hr⟩ ↦ ⟨.enter hk ht ha, hr⟩

/-- A walk without failures finds what it found before, and what it reports at the new entry. -/
theorem mem_walk (hroot : d.isDirectory root = true)
    (hok : ∀ f ∈ d.walk root, Sources.failure? f = none) :
    f ∈ d'.walk root ↔ f ∈ d.walk root ∨ turn = .report f := by
  obtain ⟨hshort, loc, hl⟩ := isDirectory_iff.1 hroot
  have hl' := h.leadsToDirectory hl
  have hroot' := isDirectory_iff.2 ⟨hshort, loc, hl'⟩
  have hs : d.StandsBelow root [(loc, root)] := ⟨loc, [], [], rfl, trivial, hl⟩
  rw [walk_eq hroot hl] at hok ⊢
  rw [walk_eq hroot' hl']
  constructor
  · intro hf
    obtain ⟨ms, trail, m, ha, hr⟩ := mem_walkIn.1 hf
    refine (h.reports_or_gain hturn hdead ha hs hr).imp_left ?_
    rintro ⟨ha, hr⟩
    exact mem_walkIn.2 ⟨ms, trail, m, ha, hr⟩
  · rintro (hf | hf)
    · obtain ⟨ms, trail, m, ha, hr⟩ := mem_walkIn.1 hf
      obtain ⟨ha, hs'⟩ := h.advances ha hs
      exact mem_walkIn.2 ⟨ms, trail, m, ha, h.reports hs' hr⟩
    · obtain ⟨trail, ha⟩ := advances_of_walkable hok hl h.walkable h.leads
      obtain ⟨-, ⟨loc', rest, rfl, hd⟩, -⟩ := ha.invariant loc root [] rfl hl
      obtain rfl := hd.unique h.leads
      exact mem_walkIn.2 ⟨ns, _, n, (h.advances ha hs).1, .intro h.listed ((hturn _).trans hf)⟩

end GainsBelow

end KeyAudit.Disk
