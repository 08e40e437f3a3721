import KeyAudit.Disk.Lookup
import KeyAudit.General

namespace KeyAudit

inductive Finding where
  /-- A regular file, or a link to one. -/
  | file (p : Path)
  /-- A link that leads nowhere. -/
  | stray (p : Path)
  /-- A link to a directory around it. -/
  | cycle (link ancestor : Path)
  /-- A directory or a link whose path is too long to be looked up. -/
  | tooLong (p : Path)
  deriving DecidableEq, Repr

namespace Disk

/-- The directories around a place of a walk, the innermost first, with the paths by which the walk
reached them. -/
abbrev Trail := List (Location × Path)

def directories (d : Disk) : List Location :=
  [] :: (d.records.map (·.1)).filter (fun loc ↦ d.at? loc = some .directory)

def depth (d : Disk) : Nat := (d.records.map (·.1.length)).foldr max 0

def isFresh (trail : Trail) (loc : Location) : Bool := trail.all (·.1 != loc)

def freshCount (d : Disk) (trail : Trail) : Nat := d.directories.countP (isFresh trail)

theorem mem_of_at? {d : Disk} {loc : Location} {e : Entry} (hl : loc ≠ [])
    (h : d.at? loc = some e) : loc ∈ d.records.map (·.1) := by
  rw [at?, if_neg hl] at h
  exact List.mem_map_of_mem (mem_of_lookup h)

theorem length_le_depth {d : Disk} {loc : Location} {e : Entry} (h : d.at? loc = some e) :
    loc.length ≤ d.depth := by
  by_cases hl : loc = []
  · simp [hl]
  · obtain ⟨r, hr, rfl⟩ := List.mem_map.1 (mem_of_at? hl h)
    exact le_foldr_max (List.mem_map_of_mem (f := fun r ↦ r.1.length) hr)

theorem mem_directories {d : Disk} {loc : Location} (h : d.at? loc = some .directory) :
    loc ∈ d.directories := by
  by_cases hl : loc = []
  · simp [directories, hl]
  · exact List.mem_cons_of_mem _ (List.mem_filter.2 ⟨mem_of_at? hl h, by simpa using h⟩)

theorem freshCount_cons_le (d : Disk) (trail : Trail) (x : Location × Path) :
    d.freshCount (x :: trail) ≤ d.freshCount trail :=
  List.countP_mono_left fun _ _ h ↦ by
    simp only [isFresh, List.all_cons, Bool.and_eq_true] at h
    exact h.2

theorem freshCount_cons_lt {d : Disk} {trail : Trail} {loc : Location} {p : Path}
    (h : d.at? loc = some .directory) (hf : trail.find? (·.1 == loc) = none) :
    d.freshCount ((loc, p) :: trail) < d.freshCount trail := by
  apply countP_lt_countP (mem_directories h)
  · intro x hx
    simp only [isFresh, List.all_cons, Bool.and_eq_true] at hx
    exact hx.2
  · simp [isFresh]
  · simpa [isFresh, List.find?_eq_none] using hf

/-- How far a walk can still go: into directories that links lead to, and down from `loc`. -/
def reach (d : Disk) (trail : Trail) (loc : Location) : Nat :=
  d.freshCount trail * (d.depth + 1) + (d.depth - loc.length)

theorem reach_child_lt {d : Disk} {n : Name} {loc : Location} {e : Entry} (trail : Trail)
    (p : Path) (h : d.at? (n :: loc) = some e) :
    d.reach ((n :: loc, p) :: trail) (n :: loc) < d.reach trail loc := by
  have := length_le_depth h
  have := Nat.mul_le_mul_right (d.depth + 1) (freshCount_cons_le d trail (n :: loc, p))
  simp only [reach, List.length_cons] at *
  omega

theorem reach_link_lt {d : Disk} {trail : Trail} {target : Location} (loc : Location) (p : Path)
    (h : d.at? target = some .directory) (hf : trail.find? (·.1 == target) = none) :
    d.reach ((target, p) :: trail) target < d.reach trail loc := by
  have := Nat.mul_le_mul_right (d.depth + 1) (freshCount_cons_lt (p := p) h hf)
  simp only [reach, Nat.succ_mul] at *
  omega

/-- Walks through the directory `loc`, which the walk reached as `p`. Links are followed, except into
a directory of the trail; real directories are entered as long as their path can be looked up. -/
def walkIn (d : Disk) (trail : Trail) (loc : Location) (p : Path) : List Finding :=
  (d.children loc).flatMap fun n ↦
    let q := p.join ⟨n⟩
    match _hc : d.at? (n :: loc) with
    | some .directory =>
      if isTooLong q then [.tooLong q] else walkIn d ((n :: loc, q) :: trail) (n :: loc) q
    | some (.file _) => [.file q]
    | some (.link _) =>
      if isTooLong q then [.tooLong q]
      else
        match d.locate true q with
        | .error _ => [.stray q]
        | .ok target =>
          match _ht : d.at? target with
          | some .directory =>
            match _hf : trail.find? (·.1 == target) with
            | some (_, ancestor) => [.cycle q ancestor]
            | none => walkIn d ((target, q) :: trail) target q
          | some (.file _) => [.file q]
          | _ => []
    | _ => []
termination_by d.reach trail loc
decreasing_by
  · exact reach_child_lt trail _ _hc
  · exact reach_link_lt loc _ _ht _hf

/-- What lies below the directory `root`, with everything below the directories that links lead to. -/
def walk (d : Disk) (root : Path) : List Finding :=
  match d.locate true root with
  | .ok loc => d.walkIn [(loc, root)] loc root
  | .error _ => []

end Disk

end KeyAudit
