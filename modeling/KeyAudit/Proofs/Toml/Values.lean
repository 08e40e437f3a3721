import KeyAudit.Proofs.Toml.Entries

namespace KeyAudit

theorem Reader.exists_read_of_mem_many {α : Type} {item : Reader α} {a : α} {s : List Char}
    (h : a ∈ (item.many s).1) : ∃ s' r, item.read s' = some (a, r) := by
  induction hl : s.length using Nat.strongRecOn generalizing s with
  | ind n ih =>
    rw [many_eq] at h
    cases hr : item.read s with
    | none => simp [hr] at h
    | some p =>
      obtain ⟨b, r⟩ := p
      rw [hr] at h
      rcases List.mem_cons.1 h with rfl | h
      · exact ⟨s, r, hr⟩
      · exact ih r.length (hl ▸ item.shorter hr) h rfl

namespace Toml

variable {s r : List Char} {v : Item}

theorem isImplied_of_scalar (h : scalar s = some (v, r)) : v.isImplied = false := by
  unfold scalar at h
  split at h
  · cases h
    rfl
  · obtain ⟨_, _, h⟩ := Option.map_eq_some_iff.1 h
    cases h
    rfl

theorem isImplied_of_arrayTail {value : Reader Item} (h : arrayTail value s = some (v, r)) :
    v.isImplied = false := by
  unfold arrayTail at h
  split at h
  · cases h
    rfl
  · obtain ⟨⟨_, _⟩, _, h⟩ := Option.bind_eq_some_iff.1 h
    obtain ⟨_, _, h⟩ := Option.bind_eq_some_iff.1 h
    cases h
    rfl

theorem isImplied_of_inlineTail {value : Reader Item} (h : inlineTail value s = some (v, r)) :
    v.isImplied = false := by
  unfold inlineTail at h
  split at h
  · cases h
    rfl
  · obtain ⟨⟨_, _⟩, _, h⟩ := Option.bind_eq_some_iff.1 h
    obtain ⟨_, _, h⟩ := Option.bind_eq_some_iff.1 h
    obtain ⟨_, _, h⟩ := Option.bind_eq_some_iff.1 h
    cases h
    rfl

theorem isImplied_of_value {depth : Nat} (h : (value depth).read s = some (v, r)) :
    v.isImplied = false := by
  cases depth with
  | zero => exact isImplied_of_scalar h
  | succ depth =>
    change bracketed (value depth) s = some (v, r) at h
    unfold bracketed at h
    split at h
    · exact isImplied_of_arrayTail h
    split at h
    · exact isImplied_of_inlineTail h
    · exact isImplied_of_scalar h

theorem isImplied_of_pair {depth : Nat} {p : Pair} (h : pair (value depth) s = some (p, r)) :
    p.2.isImplied = false := by
  unfold pair at h
  obtain ⟨⟨_, _⟩, _, h⟩ := Option.bind_eq_some_iff.1 h
  obtain ⟨_, _, h⟩ := Option.bind_eq_some_iff.1 h
  obtain ⟨⟨_, _⟩, hv, h⟩ := Option.bind_eq_some_iff.1 h
  cases h
  exact isImplied_of_value hv

theorem isImplied_of_line {p : Pair} (h : line s = some (.pair p, r)) : p.2.isImplied = false := by
  have hheader {kind : HeaderKind} {closing t : List Char} :
      headerTail kind closing t ≠ some (.pair p, r) := by
    intro h
    unfold headerTail at h
    obtain ⟨⟨_, _⟩, _, h⟩ := Option.bind_eq_some_iff.1 h
    obtain ⟨_, _, h⟩ := Option.bind_eq_some_iff.1 h
    obtain ⟨_, _, h⟩ := Option.bind_eq_some_iff.1 h
    cases h
  unfold line at h
  split at h
  · cases h
  unfold lineBody at h
  split at h
  · exact absurd h hheader
  split at h
  · exact absurd h hheader
  split at h
  · cases h
  · unfold pairLine at h
    obtain ⟨⟨_, _⟩, hp, h⟩ := Option.bind_eq_some_iff.1 h
    obtain ⟨_, _, h⟩ := Option.bind_eq_some_iff.1 h
    cases h
    exact isImplied_of_pair hp

theorem pair_mem_of_mem_preamble {ls : List Line} {p : Pair}
    (h : p ∈ (Document.ofLines ls).preamble) : .pair p ∈ ls := by
  induction ls with
  | nil => cases h
  | cons l ls ih =>
    cases l with
    | blank => exact List.mem_cons_of_mem _ (ih h)
    | pair q =>
      rcases List.mem_cons.1 h with rfl | h
      · exact List.mem_cons_self
      · exact List.mem_cons_of_mem _ (ih h)
    | header kind path => cases h

end Toml

end KeyAudit
