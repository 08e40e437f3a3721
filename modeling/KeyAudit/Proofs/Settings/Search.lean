import KeyAudit.Proofs.Path.Parent
import KeyAudit.Settings.Search

namespace KeyAudit.Settings

variable {d d' : Disk} {dirs nearer further : List Path} {dir p : Path}

/-- The search goes on from a directory that holds neither a settings file nor the mark. -/
def Passes (d : Disk) (dir : Path) : Prop :=
  d.has (dir.join fileName) = false ∧ d.has (dir.join projectMark) = false

/-- The directory holds a settings file, and the search goes on from all that come before it. -/
def IsNearest (d : Disk) (dirs : List Path) (dir : Path) : Prop :=
  d.has (dir.join fileName) = true ∧
    ∃ nearer further, dirs = nearer ++ dir :: further ∧ ∀ q ∈ nearer, Passes d q

/-- The directories that the search looks into. -/
def visited (d : Disk) : List Path → List Path
  | [] => []
  | dir :: dirs =>
    dir :: if d.has (dir.join fileName) || d.has (dir.join projectMark) then [] else visited d dirs

theorem searchIn_of_file (h : d.has (dir.join fileName) = true) (dirs : List Path) :
    searchIn d (dir :: dirs) = some (dir.join fileName) := by
  rw [searchIn, if_pos h]

theorem searchIn_of_mark (h : d.has (dir.join fileName) = false)
    (hmark : d.has (dir.join projectMark) = true) (dirs : List Path) :
    searchIn d (dir :: dirs) = none := by
  rw [searchIn, if_neg (Bool.eq_false_iff.1 h), if_pos hmark]

theorem Passes.searchIn_cons (h : Passes d dir) (dirs : List Path) :
    searchIn d (dir :: dirs) = searchIn d dirs := by
  rw [searchIn, if_neg (Bool.eq_false_iff.1 h.1), if_neg (Bool.eq_false_iff.1 h.2)]

theorem searchIn_append (h : ∀ q ∈ nearer, Passes d q) (dirs : List Path) :
    searchIn d (nearer ++ dirs) = searchIn d dirs := by
  induction nearer with
  | nil => rfl
  | cons q nearer ih =>
    obtain ⟨hq, hnearer⟩ := List.forall_mem_cons.1 h
    exact (hq.searchIn_cons _).trans (ih hnearer)

theorem IsNearest.searchIn_eq (h : IsNearest d dirs dir) :
    searchIn d dirs = some (dir.join fileName) := by
  obtain ⟨hfile, nearer, further, rfl, hpass⟩ := h
  rw [searchIn_append hpass, searchIn_of_file hfile]

theorem exists_isNearest (h : searchIn d dirs = some p) :
    ∃ dir, IsNearest d dirs dir ∧ p = dir.join fileName := by
  induction dirs with
  | nil => cases h
  | cons q dirs ih =>
    cases hfile : d.has (q.join fileName) with
    | true =>
      rw [searchIn_of_file hfile] at h
      exact ⟨q, ⟨hfile, [], dirs, rfl, nofun⟩, (Option.some.inj h).symm⟩
    | false =>
      cases hmark : d.has (q.join projectMark) with
      | true =>
        rw [searchIn_of_mark hfile hmark] at h
        cases h
      | false =>
        have hpass : Passes d q := ⟨hfile, hmark⟩
        rw [hpass.searchIn_cons] at h
        obtain ⟨dir, ⟨hdir, nearer, further, rfl, hall⟩, hp⟩ := ih h
        exact ⟨dir, ⟨hdir, q :: nearer, further, rfl, List.forall_mem_cons.2 ⟨hpass, hall⟩⟩, hp⟩

theorem searchIn_eq_some : searchIn d dirs = some p ↔
    ∃ dir, IsNearest d dirs dir ∧ p = dir.join fileName := by
  constructor
  · exact exists_isNearest
  · intro h
    obtain ⟨dir, hdir, rfl⟩ := h
    exact hdir.searchIn_eq

theorem searchIn_append_of_mark (hmark : d.has (dir.join projectMark) = true) (nearer further : List Path) :
    searchIn d (nearer ++ dir :: further) = searchIn d (nearer ++ [dir]) := by
  induction nearer with
  | nil =>
    cases hfile : d.has (dir.join fileName) with
    | true => exact (searchIn_of_file hfile further).trans (searchIn_of_file hfile []).symm
    | false => exact (searchIn_of_mark hfile hmark further).trans (searchIn_of_mark hfile hmark []).symm
  | cons q nearer ih => rw [List.cons_append, List.cons_append, searchIn, searchIn, ih]

theorem visited_isPrefix (d : Disk) (dirs : List Path) : visited d dirs <+: dirs := by
  induction dirs with
  | nil => exact List.prefix_rfl
  | cons dir dirs ih =>
    rw [visited, List.prefix_cons_inj]
    split
    · exact List.nil_prefix
    · exact ih

/-- The search depends on nothing but what it asks about the directories that it looks into. -/
theorem searchIn_congr (h : ∀ dir ∈ visited d dirs, d'.has (dir.join fileName) = d.has (dir.join fileName) ∧
    d'.has (dir.join projectMark) = d.has (dir.join projectMark)) : searchIn d' dirs = searchIn d dirs := by
  induction dirs with
  | nil => rfl
  | cons dir dirs ih =>
    rw [visited, List.forall_mem_cons] at h
    obtain ⟨⟨hfile, hmark⟩, hrest⟩ := h
    rw [searchIn, searchIn, hfile, hmark]
    split
    · rfl
    · rename_i hf
      split
      · rfl
      · rename_i hm
        rw [if_neg (by simp [hf, hm])] at hrest
        exact ih hrest

/-- A search goes up from its start, one component after the other, to the root or to the empty path. It
finds the settings file of the first directory that has one, unless a directory before that one has the
mark; a file beside the mark counts, and what is above does not. The search asks only about directories on
its way, and looks into no more of them than the start has components, and one. -/
theorem search_eq_nearest (d : Disk) (start : Path) :
    (start.ancestors.head? = some start ∧
      start.ancestors.IsChain (fun p q ↦ p.parent? = some q) ∧
      (∀ dir ∈ start.ancestors, dir.components <+: start.components) ∧
      ∃ last, start.ancestors.getLast? = some last ∧ (last.bytes = [] ∨ last.components = [.root])) ∧
    (∀ p, search d start = some p ↔
      ∃ dir, IsNearest d start.ancestors dir ∧ p = dir.join fileName) ∧
    (search d start = none ↔ ∀ dir, ¬ IsNearest d start.ancestors dir) ∧
    (∀ nearer dir further, start.ancestors = nearer ++ dir :: further →
      d.has (dir.join projectMark) = true → search d start = searchIn d (nearer ++ [dir])) ∧
    (∀ nearer dir further, start.ancestors = nearer ++ dir :: further → (∀ q ∈ nearer, Passes d q) →
      d.has (dir.join projectMark) = true →
      search d start = if d.has (dir.join fileName) then some (dir.join fileName) else none) ∧
    (∀ d' : Disk, (∀ dir ∈ visited d start.ancestors,
        d'.has (dir.join fileName) = d.has (dir.join fileName) ∧
          d'.has (dir.join projectMark) = d.has (dir.join projectMark)) →
      search d' start = search d start) ∧
    visited d start.ancestors <+: start.ancestors ∧
    (visited d start.ancestors).length ≤ start.components.length + 1 := by
  refine ⟨⟨start.head?_ancestors, start.isChain_ancestors, ?_, start.exists_last_ancestor⟩, ?_, ?_, ?_, ?_,
    ?_, visited_isPrefix d _, ?_⟩
  · exact fun dir ↦ Path.components_isPrefix_of_mem_ancestors
  · exact fun p ↦ searchIn_eq_some
  · rw [search, Option.eq_none_iff_forall_ne_some]
    constructor
    · intro h dir hdir
      exact h _ hdir.searchIn_eq
    · intro h p hp
      obtain ⟨dir, hdir, -⟩ := exists_isNearest hp
      exact h dir hdir
  · intro nearer dir further he hmark
    rw [search, he, searchIn_append_of_mark hmark]
  · intro nearer dir further he hpass hmark
    rw [search, he, searchIn_append hpass]
    split
    · rename_i hfile
      exact searchIn_of_file hfile further
    · rename_i hfile
      exact searchIn_of_mark (Bool.eq_false_iff.2 hfile) hmark further
  · exact fun d' h ↦ searchIn_congr h
  · exact (visited_isPrefix d _).length_le.trans start.length_ancestors_le

def markedDisk : Disk where
  records := [([Text.utf8 "p"], .directory), ([Text.utf8 "a", Text.utf8 "p"], .directory),
    ([Text.utf8 "b", Text.utf8 "a", Text.utf8 "p"], .directory),
    ([fileName.bytes, Text.utf8 "p"], .file []),
    ([projectMark.bytes, Text.utf8 "a", Text.utf8 "p"], .directory),
    ([fileName.bytes, Text.utf8 "a", Text.utf8 "p"], .file [])]
  here := []

theorem search_markedDisk :
    IsNearest markedDisk (Path.ancestors "p/..//p/a/./b/") "p/..//p/a" ∧
    markedDisk.has (Path.join "p/..//p/a" projectMark) = true ∧
    search markedDisk "p/..//p/a/./b/" = some ("p/..//p/a/.checkunusedrc.json" : Path) := by
  have hfile : markedDisk.has (Path.join "p/..//p/a" fileName) = true := rfl
  have hmark : markedDisk.has (Path.join "p/..//p/a" projectMark) = true := rfl
  have hpass : Passes markedDisk "p/..//p/a/./b/" := ⟨rfl, rfl⟩
  have hnearest : IsNearest markedDisk (Path.ancestors "p/..//p/a/./b/") "p/..//p/a" :=
    ⟨hfile, ["p/..//p/a/./b/"], ["p/..//p", "p/..", "p", ""], by decide +kernel,
      List.forall_mem_singleton.2 hpass⟩
  obtain ⟨-, hfound, -⟩ := search_eq_nearest markedDisk "p/..//p/a/./b/"
  exact ⟨hnearest, hmark, (hfound _).2 ⟨_, hnearest, by decide⟩⟩

end KeyAudit.Settings
