import KeyAudit.Proofs.Disk.Findings

namespace KeyAudit.Disk

variable {d d' : Disk} {trail : Trail} {loc up : Location} {p root : Path} {n : Name} {ns : List Name}
  {f : Finding}

/-- The two disks hold the same. Their directories may list what they hold in different orders. -/
structure Agrees (d d' : Disk) : Prop where
  here : d.here = d'.here
  at? : ∀ loc, d.at? loc = d'.at? loc

namespace Agrees

theorem symm (h : d.Agrees d') : d'.Agrees d := ⟨h.here.symm, fun loc ↦ (h.at? loc).symm⟩

variable (h : d.Agrees d')
include h

theorem descendVia (fits : Location → Bool) (follow : Bool)
    (onward : Location → List Bytes → Except AccessFailure Location) (loc : Location)
    (ps : List Bytes) :
    d.descendVia fits follow onward loc ps = d'.descendVia fits follow onward loc ps := by
  induction ps generalizing loc with
  | nil => rfl
  | cons part ps ih => simp only [Disk.descendVia, h.at?, ih]

theorem descend (fits : Location → Bool) (follow : Bool) (links : Nat) :
    d.descend fits follow links = d'.descend fits follow links := by
  induction links with
  | zero =>
    funext loc ps
    exact h.descendVia fits follow _ loc ps
  | succ links ih =>
    funext loc ps
    rw [Disk.descend, Disk.descend, ih]
    exact h.descendVia fits follow _ loc ps

theorem resolve (fits : Location → Bool) (follow : Bool) (p : Path) :
    d.resolve fits follow p = d'.resolve fits follow p := by
  rw [Disk.resolve, Disk.resolve, h.here, h.descend]

theorem locate (follow : Bool) (p : Path) : d.locate follow p = d'.locate follow p := by
  rw [Disk.locate, Disk.locate, h.resolve]

theorem entry (p : Path) : d.entry p = d'.entry p := by
  simp only [Disk.entry, h.locate, h.at?]

theorem isDirectory (p : Path) : d.isDirectory p = d'.isDirectory p := by
  rw [Disk.isDirectory, Disk.isDirectory, h.entry]

theorem mem_children : n ∈ d.children loc ↔ n ∈ d'.children loc := by
  rw [Disk.mem_children, Disk.mem_children, h.at?]

theorem turn (trail : Trail) (loc : Location) (p : Path) (n : Name) :
    d.turn trail loc p n = d'.turn trail loc p n := by
  simp only [Disk.turn, h.at?, h.locate]

theorem advances {trail' : Trail} (ha : d.Advances trail ns trail') : d'.Advances trail ns trail' := by
  induction ha with
  | stay trail => exact .stay trail
  | enter hn ht _ ih => exact .enter (h.mem_children.1 hn) (h.turn .. ▸ ht) ih

theorem reports (hr : d.Reports trail n f) : d'.Reports trail n f := by
  cases hr with
  | intro hn ht => exact .intro (h.mem_children.1 hn) (h.turn .. ▸ ht)

theorem mem_walk_of_mem (hf : f ∈ d.walk root) : f ∈ d'.walk root := by
  unfold walk at hf ⊢
  rw [← h.locate]
  split at hf
  · obtain ⟨ns, trail, n, ha, hr⟩ := mem_walkIn.1 hf
    exact mem_walkIn.2 ⟨ns, trail, n, h.advances ha, h.reports hr⟩
  · cases hf

theorem mem_walk : f ∈ d.walk root ↔ f ∈ d'.walk root := ⟨h.mem_walk_of_mem, h.symm.mem_walk_of_mem⟩

end Agrees

variable {order : Location → List Name}

def listedIn (d : Disk) (up : Location) (names : List Name) : List (Location × Entry) :=
  names.filterMap fun n ↦ (d.at? (n :: up)).map fun e ↦ (n :: up, e)

def relisted (d : Disk) (order : Location → List Name) : Disk :=
  { d with
    records := ((d.records.map (·.1.tail)).eraseDups.flatMap fun up ↦ d.listedIn up (order up)) ++
      d.records }

theorem at?_of_mem_listedIn {names : List Name} {place : Location} {e : Entry}
    (h : (place, e) ∈ d.listedIn up names) : d.at? place = some e ∧ ∃ n, place = n :: up := by
  obtain ⟨n, -, hn⟩ := List.mem_filterMap.1 h
  obtain ⟨e', he, heq⟩ := Option.map_eq_some_iff.1 hn
  cases heq
  exact ⟨he, n, rfl⟩

theorem agrees_relisted (d : Disk) (order : Location → List Name) : d.Agrees (d.relisted order) := by
  refine ⟨rfl, ?_⟩
  intro loc
  rw [relisted, at?, at?]
  split
  · rfl
  · rename_i hl
    rw [List.lookup_append]
    cases hlook : List.lookup loc
        ((d.records.map (·.1.tail)).eraseDups.flatMap fun up ↦ d.listedIn up (order up)) with
    | none => rfl
    | some e =>
      obtain ⟨up, -, he⟩ := List.mem_flatMap.1 (mem_of_lookup hlook)
      have hat := (at?_of_mem_listedIn he).1
      rw [at?, if_neg hl] at hat
      rw [hat]
      rfl

theorem filterMap_nameIn?_listedIn (hn : ∀ n ∈ order up, n ∈ d.children up) :
    (d.listedIn up (order up)).filterMap (fun r ↦ nameIn? up r.1) = order up := by
  rw [listedIn, List.filterMap_filterMap]
  calc (order up).filterMap _ = (order up).filterMap some := by
        apply List.filterMap_congr
        intro n hmem
        obtain ⟨-, hproper, hsome⟩ := Disk.mem_children.1 (hn n hmem)
        obtain ⟨e, he⟩ := Option.isSome_iff_exists.1 hsome
        simp [he, nameIn?_eq_some.2 ⟨rfl, hproper⟩]
    _ = order up := List.filterMap_some

theorem filterMap_nameIn?_listedIn_of_ne {up' : Location} (hne : up' ≠ up) (names : List Name) :
    (d.listedIn up' names).filterMap (fun r ↦ nameIn? up r.1) = [] := by
  rw [List.filterMap_eq_nil_iff]
  rintro ⟨place, e⟩ hmem
  obtain ⟨-, n, rfl⟩ := at?_of_mem_listedIn hmem
  exact if_neg fun h ↦ hne h.1

theorem children_relisted (h : ∀ loc, (order loc).Perm (d.children loc)) (loc : Location) :
    (d.relisted order).children loc = order loc := by
  have hnodup : (order loc).Nodup := (h loc).symm.nodup (nodup_children d loc)
  by_cases hr : isRemoved loc
  · have hc : d.children loc = [] := if_pos hr
    have ho : order loc = [] := List.perm_nil.1 (hc ▸ h loc)
    rw [children, if_pos hr, ho]
  · have hc : d.children loc = (d.records.filterMap fun r ↦ nameIn? loc r.1).eraseDups := if_neg hr
    have hlisted : (d.relisted order).records.filterMap (fun r ↦ nameIn? loc r.1) =
        order loc ++ d.records.filterMap fun r ↦ nameIn? loc r.1 := by
      rw [relisted, List.filterMap_append, List.filterMap_flatMap,
        flatMap_of_forall_ne (a := loc) (nodup_eraseDups _)]
      · rw [filterMap_nameIn?_listedIn fun n hn ↦ (h loc).subset hn]
      · by_cases hm : loc ∈ (d.records.map (·.1.tail)).eraseDups
        · exact .inl hm
        · refine .inr ?_
          rw [filterMap_nameIn?_listedIn fun n hn ↦ (h loc).subset hn, List.eq_nil_iff_forall_not_mem]
          intro n hn
          obtain ⟨e, he⟩ := Option.isSome_iff_exists.1
            (Disk.mem_children.1 ((h loc).subset hn)).2.2
          obtain ⟨r, hr, hrn⟩ := List.mem_map.1 (mem_of_at? (List.cons_ne_nil _ _) he)
          rw [List.mem_eraseDups] at hm
          exact hm (List.mem_map.2 ⟨r, hr, by rw [hrn, List.tail_cons]⟩)
      · exact fun up hup ↦ filterMap_nameIn?_listedIn_of_ne hup _
    have hrest : (d.records.filterMap fun r ↦ nameIn? loc r.1).removeAll (order loc) = [] := by
      rw [List.removeAll, List.filter_eq_nil_iff]
      intro n hn
      have hmem : n ∈ order loc := (h loc).symm.subset (hc ▸ List.mem_eraseDups.2 hn)
      simpa using hmem
    rw [children, if_neg hr, hlisted, List.eraseDups_append, eraseDups_of_nodup hnodup, hrest]
    exact List.append_nil _

end KeyAudit.Disk
