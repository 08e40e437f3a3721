import KeyAudit.Path.Ancestors

namespace KeyAudit.Path

variable {p q : Path} {b : Bytes}

def steps (b : Bytes) : List Component := (b.splitOn slash).filterMap componentOf?

theorem steps_append_slash (b c : Bytes) : steps (b ++ slash :: c) = steps b ++ steps c := by
  rw [steps, List.splitOn_append_cons_self, List.filterMap_append]
  rfl

theorem steps_of_notMem (h : slash ∉ b) : steps b = (componentOf? b).toList := by
  rw [steps, List.splitOn_eq_singleton h, List.filterMap_cons, List.filterMap_nil]
  cases componentOf? b <;> rfl

theorem steps_bytes (p : Path) : steps p.bytes = p.parts.filterMap componentOf? := by
  obtain ⟨b⟩ := p
  unfold parts front
  split
  · rename_i habs
    obtain ⟨t, rfl⟩ : ∃ t, b = slash :: t := List.head?_eq_some_iff.1 (beq_iff_eq.1 habs)
    exact steps_append_slash [] t
  split
  · rename_i hdot
    rcases hdot with hdot | hdot
    · obtain rfl : b = [dot] := hdot
      rfl
    · obtain ⟨t, rfl⟩ : ∃ t, [dot, slash] ++ t = b := List.isPrefixOf_iff_prefix.1 hdot
      exact (steps_append_slash [dot] t).trans (steps_append_slash [] t).symm
  · rfl

theorem components_eq (p : Path) : p.components = p.frontComponents ++ steps p.bytes := by
  rw [components, steps_bytes]

theorem ne_root_of_mem_steps {c : Component} (h : c ∈ steps b) : c ≠ .root := by
  obtain ⟨part, -, hc⟩ := List.mem_filterMap.1 h
  intro h
  subst h
  unfold componentOf? at hc
  split at hc
  · cases hc
  · split at hc <;> cases hc

theorem nil_join (hq : q.isAbsolute = false) : (⟨[]⟩ : Path).join q = q := by
  rw [join, hq]
  rfl

theorem bytes_join (hp : p.bytes ≠ []) (hq : q.isAbsolute = false) :
    ((∃ b, p.bytes = b ++ [slash]) ∧ (p.join q).bytes = p.bytes ++ q.bytes) ∨
      (p.join q).bytes = p.bytes ++ slash :: q.bytes := by
  unfold join
  rw [hq, if_neg Bool.false_ne_true]
  split
  · rename_i h
    have hlast := h.resolve_left hp
    exact .inl ⟨List.getLast?_eq_some_iff.1 hlast, rfl⟩
  · exact .inr rfl

theorem front_join (hp : p.bytes ≠ []) (hq : q.isAbsolute = false) : (p.join q).front = p.front := by
  have hb := bytes_join hp hq
  generalize p.join q = r at hb
  obtain ⟨_ | ⟨x, xs⟩⟩ := p
  · exact absurd rfl hp
  have hr : ∃ t, r.bytes = x :: (xs ++ t) ∧ (xs = [] → x = dot → ∃ u, t = slash :: u) := by
    rcases hb with ⟨⟨b, hx⟩, h⟩ | h
    · refine ⟨q.bytes, h, ?_⟩
      intro hxs hdot
      subst hxs hdot
      have hlast := congrArg List.getLast? hx
      rw [List.getLast?_concat] at hlast
      exact absurd hlast (by decide)
    · exact ⟨slash :: q.bytes, h, fun _ _ ↦ ⟨q.bytes, rfl⟩⟩
  obtain ⟨t, ht, hdot⟩ := hr
  simp only [front, isAbsolute, ht]
  cases xs with
  | nil =>
    by_cases hx : x = dot
    · obtain ⟨u, rfl⟩ := hdot rfl hx
      subst hx
      simp [List.isPrefixOf]
    · have hx' : ¬ dot = x := fun h ↦ hx h.symm
      simp [List.isPrefixOf, hx, hx']
  | cons y ys => simp [List.isPrefixOf]

theorem steps_join (hp : p.bytes ≠ []) (hq : q.isAbsolute = false) :
    steps (p.join q).bytes = steps p.bytes ++ steps q.bytes := by
  rcases bytes_join hp hq with ⟨⟨b, hb⟩, h⟩ | h
  · have hvoid : steps (b ++ [slash]) = steps b := by
      rw [steps_append_slash]
      exact List.append_nil _
    rw [h, hb, hvoid, List.append_assoc, List.singleton_append, steps_append_slash]
  · rw [h, steps_append_slash]

theorem components_join_of_relative (hp : p.bytes ≠ []) (hq : q.isAbsolute = false) :
    (p.join q).components = p.components ++ steps q.bytes := by
  rw [components_eq, components_eq, steps_join hp hq, frontComponents, frontComponents,
    front_join hp hq, List.append_assoc]

theorem components_join_of_front (hq : q.front = []) (p : Path) :
    (p.join q).components = p.components ++ q.components := by
  have hrel : q.isAbsolute = false := by
    rw [← Bool.not_eq_true]
    intro habs
    rw [front, if_pos habs] at hq
    cases hq
  have hcomponents : q.components = steps q.bytes := by
    rw [components_eq, frontComponents, hq]
    rfl
  by_cases hp : p.bytes = []
  · obtain rfl : p = ⟨[]⟩ := congrArg mk hp
    rw [nil_join hrel]
    rfl
  · rw [components_join_of_relative hp hrel, hcomponents]

end KeyAudit.Path
