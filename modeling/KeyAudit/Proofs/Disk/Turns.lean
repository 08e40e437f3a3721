import KeyAudit.Disk.Walk

namespace KeyAudit.Disk

variable {d : Disk} {trail rest : Trail} {loc target : Location} {p : Path} {n : Name} {ns : List Name}
  {f : Finding}

/-- What a walk does at one name of a directory. -/
inductive Turn where
  | enter (loc : Location)
  | report (f : Finding)
  | pass

def turn (d : Disk) (trail : Trail) (loc : Location) (p : Path) (n : Name) : Turn :=
  let q := p.join ⟨n⟩
  match d.at? (n :: loc) with
  | some .directory => if isTooLong q then .report (.tooLong q) else .enter (n :: loc)
  | some (.file _) => .report (.file q)
  | some (.link _) =>
    if isTooLong q then .report (.tooLong q)
    else
      match d.locate true q with
      | .error _ => .report (.stray q)
      | .ok target =>
        match d.at? target with
        | some .directory =>
          match trail.find? (·.1 == target) with
          | some (_, ancestor) => .report (.cycle q ancestor)
          | none => .enter target
        | some (.file _) => .report (.file q)
        | _ => .pass
  | _ => .pass

theorem walkIn_eq (d : Disk) (trail : Trail) (loc : Location) (p : Path) :
    d.walkIn trail loc p = (d.children loc).flatMap fun n ↦
      match d.turn trail loc p n with
      | .enter next => d.walkIn ((next, p.join ⟨n⟩) :: trail) next (p.join ⟨n⟩)
      | .report f => [f]
      | .pass => [] := by
  rw [walkIn]
  congr 1
  funext n
  unfold turn
  split
  · rename_i h
    simp only [h]
    split <;> rfl
  · rename_i h
    simp only [h]
  · rename_i h
    simp only [h]
    split
    · rfl
    · cases d.locate true (p.join ⟨n⟩) with
      | error cause => rfl
      | ok target =>
        dsimp only
        split
        · rename_i h
          simp only [h]
          split <;> rename_i h <;> simp only [h]
        · rename_i h
          simp only [h]
        · rename_i hdir hfile
          cases hat : d.at? target with
          | none => simp only
          | some e =>
            cases e with
            | directory => exact absurd hat hdir
            | file c => exact absurd hat (hfile c)
            | link _ | device => rfl
  · rename_i hdir hfile hlink
    cases hat : d.at? (n :: loc) with
    | none => rfl
    | some e =>
      cases e with
      | directory => exact absurd hat hdir
      | file c => exact absurd hat (hfile c)
      | link t => exact absurd hat (hlink t)
      | device => rfl

theorem reach_lt_of_turn {next : Location} (h : d.turn trail loc p n = .enter next) :
    d.reach ((next, p.join ⟨n⟩) :: trail) next < d.reach trail loc := by
  unfold turn at h
  dsimp only at h
  split at h
  · rename_i hc
    split at h
    · cases h
    · cases h
      exact reach_child_lt trail _ hc
  · cases h
  · split at h
    · cases h
    · split at h
      · cases h
      · split at h
        · rename_i ht
          split at h
          · cases h
          · rename_i hf
            cases h
            exact reach_link_lt loc _ ht hf
        · cases h
        · cases h
  · cases h

/-- What holds for a directory of a walk as soon as it holds for those entered from it holds for all. -/
theorem walk_induction {motive : Trail → Location → Path → Prop}
    (step : ∀ trail loc p, (∀ n next, d.turn trail loc p n = .enter next →
      motive ((next, p.join ⟨n⟩) :: trail) next (p.join ⟨n⟩)) → motive trail loc p)
    (trail : Trail) (loc : Location) (p : Path) : motive trail loc p := by
  induction hr : d.reach trail loc using Nat.strongRecOn generalizing trail loc p with
  | ind r ih =>
    subst hr
    exact step trail loc p fun n next h ↦ ih _ (reach_lt_of_turn h) _ _ _ rfl

/-- The walk that stands in the innermost directory of a trail passes through the named directories to
another one. -/
inductive Advances (d : Disk) : Trail → List Name → Trail → Prop
  | stay (trail : Trail) : Advances d trail [] trail
  | enter {loc next : Location} {p : Path} {rest trail : Trail} {n : Name} {ns : List Name} :
      n ∈ d.children loc → d.turn ((loc, p) :: rest) loc p n = .enter next →
      Advances d ((next, p.join ⟨n⟩) :: (loc, p) :: rest) ns trail →
      Advances d ((loc, p) :: rest) (n :: ns) trail

inductive Reports (d : Disk) : Trail → Name → Finding → Prop
  | intro {loc : Location} {p : Path} {rest : Trail} {n : Name} {f : Finding} :
      n ∈ d.children loc → d.turn ((loc, p) :: rest) loc p n = .report f →
      Reports d ((loc, p) :: rest) n f

theorem advances_of_mem_walkIn (trail : Trail) (loc : Location) (p : Path) :
    ∀ rest, trail = (loc, p) :: rest → ∀ f ∈ d.walkIn trail loc p,
      ∃ ns trail' n, d.Advances trail ns trail' ∧ d.Reports trail' n f := by
  induction trail, loc, p using walk_induction (d := d) with
  | step trail loc p ih =>
    rintro rest rfl f hf
    rw [walkIn_eq, List.mem_flatMap] at hf
    obtain ⟨n, hn, hf⟩ := hf
    split at hf
    · rename_i next ht
      obtain ⟨ns, trail', m, ha, hr⟩ := ih n next ht _ rfl f hf
      exact ⟨n :: ns, trail', m, .enter hn ht ha, hr⟩
    · rename_i g ht
      rw [List.mem_singleton.1 hf]
      exact ⟨[], _, n, .stay _, .intro hn ht⟩
    · cases hf

theorem Advances.mem_walkIn {trail' : Trail} (ha : d.Advances trail ns trail')
    (hr : d.Reports trail' n f) :
    ∀ loc p rest, trail = (loc, p) :: rest → f ∈ d.walkIn trail loc p := by
  induction ha with
  | stay trail =>
    rintro loc p rest rfl
    cases hr with
    | intro hn ht =>
      rw [walkIn_eq, List.mem_flatMap]
      refine ⟨n, hn, ?_⟩
      rw [ht]
      exact List.mem_singleton_self f
  | @enter loc next p rest trail' m ns hm ht _ ih =>
    intro loc' p' rest' h
    cases h
    rw [walkIn_eq, List.mem_flatMap]
    refine ⟨m, hm, ?_⟩
    rw [ht]
    exact ih hr _ _ _ rfl

theorem mem_walkIn : f ∈ d.walkIn ((loc, p) :: rest) loc p ↔
    ∃ ns trail' n, d.Advances ((loc, p) :: rest) ns trail' ∧ d.Reports trail' n f :=
  ⟨advances_of_mem_walkIn _ _ _ rest rfl f,
    fun ⟨_, _, _, ha, hr⟩ ↦ ha.mem_walkIn hr loc p rest rfl⟩

end KeyAudit.Disk
