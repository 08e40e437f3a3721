import KeyAudit.Proofs.Path.Parent
import KeyAudit.Proofs.Path.Steps
import KeyAudit.Template

namespace KeyAudit

namespace Path

variable {p : Path}

theorem components_eq_nil : p.components = [] ↔ p.bytes = [] := by
  constructor
  · intro h
    cases hq : p.parent? with
    | none =>
      refine (parent?_eq_none_iff.1 hq).resolve_right ?_
      rw [h]
      exact nofun
    | some q =>
      obtain ⟨c, -, hc⟩ := components_of_parent? hq
      rw [h] at hc
      exact absurd hc (by simp)
  · intro h
    obtain rfl : p = ⟨[]⟩ := congrArg mk h
    rfl

theorem root_mem_components : .root ∈ p.components ↔ p.isAbsolute = true := by
  rw [components_eq, List.mem_append]
  constructor
  · intro h
    rcases h with h | h
    · by_contra habs
      unfold frontComponents at h
      rw [front, if_neg habs] at h
      split at h
      · revert h
        decide
      · revert h
        decide
    · exact absurd rfl (ne_root_of_mem_steps h)
  · intro habs
    refine .inl ?_
    rw [frontComponents, front, if_pos habs, if_pos rfl]
    exact List.mem_singleton_self _

/-- The components without the last one; where there is none but the root, `.` takes their place. -/
def above (cs : List Component) : List Component :=
  if cs = [] ∨ cs = [.root] then [.here] else cs.dropLast

theorem exists_components_eq_concat (h : ¬ (p.components = [] ∨ p.components = [.root])) :
    ∃ q c, p.parent? = some q ∧ c ≠ .root ∧ p.components = q.components ++ [c] := by
  rw [components_eq_nil, ← parent?_eq_none_iff] at h
  obtain ⟨q, hq⟩ := Option.ne_none_iff_exists'.1 h
  obtain ⟨c, hc, hcomponents⟩ := components_of_parent? hq
  exact ⟨q, c, hq, hc, hcomponents⟩

theorem components_parent (p : Path) : (p.parent?.getD ".").components = above p.components := by
  unfold above
  split
  · rename_i h
    rw [components_eq_nil, ← parent?_eq_none_iff] at h
    rw [h]
    rfl
  · rename_i h
    obtain ⟨q, c, hq, -, hc⟩ := exists_components_eq_concat h
    rw [hq, Option.getD_some, hc, List.dropLast_concat]

theorem root_mem_above (p : Path) :
    .root ∈ above p.components ↔ p.isAbsolute = true ∧ p.components ≠ [.root] := by
  rw [← root_mem_components, above]
  split
  · rename_i h
    rcases h with h | h <;> simp [h]
  · rename_i h
    obtain ⟨q, c, -, hc, hcomponents⟩ := exists_components_eq_concat h
    have hroot : p.components ≠ [.root] := fun hr ↦ h (.inr hr)
    rw [and_iff_left hroot, hcomponents, List.dropLast_concat, List.mem_append, List.mem_singleton,
      or_iff_left hc.symm]

end Path

namespace Template

open KeyAudit.Path

theorem components_besideProgram (program : Path) : (besideProgram program).components =
    above program.components ++
      [.up, .up, .name (Text.utf8 "common"), .name (Text.utf8 "template.toml")] := by
  rw [besideProgram, components_join_of_front rfl, components_join_of_front rfl,
    components_join_of_front rfl, components_join_of_front rfl, components_parent]
  simp only [List.append_assoc]
  rfl

/-- The template lies two steps above what the program lies in, and these stand behind all components of
the program but its last. So it depends on nothing but the components of the program. -/
theorem besideProgram_by_components (program : Path) :
    (besideProgram program).components = above program.components ++
      [.up, .up, .name (Text.utf8 "common"), .name (Text.utf8 "template.toml")] ∧
    (∀ q : Path, q.components = program.components →
      (besideProgram q).components = (besideProgram program).components) ∧
    ((besideProgram program).isAbsolute = true ↔
      program.isAbsolute = true ∧ program.components ≠ [.root]) ∧
    (besideProgram program).components.count .up = (above program.components).count .up + 2 := by
  have hcomponents := components_besideProgram program
  refine ⟨hcomponents, ?_, ?_, ?_⟩
  · intro q hq
    rw [components_besideProgram, hq, hcomponents]
  · rw [← root_mem_components, hcomponents, List.mem_append, root_mem_above]
    simp
  · rw [hcomponents, List.count_append]
    rfl

theorem besideProgram_slashes :
    components "/opt//bin/./x/" = components "/opt/bin/x" ∧
    (besideProgram "/opt//bin/./x/").components = (besideProgram "/opt/bin/x").components := by
  have hspelling : components "/opt//bin/./x/" = components "/opt/bin/x" := by decide
  obtain ⟨-, hall, -⟩ := besideProgram_by_components "/opt/bin/x"
  exact ⟨hspelling, hall _ hspelling⟩

example : besideProgram "/" = "./../../common/template.toml" ∧
    besideProgram "x" = "../../common/template.toml" ∧
    besideProgram "a/../x" = "a/../../../common/template.toml" := by
  decide

end Template

end KeyAudit
