import KeyAudit.Path.Basic

namespace KeyAudit.Path

theorem length_intercalate_append (sep : Bytes) (xs ys : List Bytes) :
    (sep.intercalate xs).length + (sep.intercalate ys).length ≤
      (sep.intercalate (xs ++ ys)).length := by
  induction xs with
  | nil => simp [List.intercalate]
  | cons x xs ih =>
    cases xs with
    | nil =>
      cases ys with
      | nil => simp [List.intercalate]
      | cons y ys => simp [List.intercalate_cons_cons]
    | cons x' xs =>
      simp only [List.cons_append, List.intercalate_cons_cons, List.length_append] at *
      omega

theorem length_intercalate_le (sep : Bytes) {xs ys : List Bytes} (h : xs <+: ys) :
    (sep.intercalate xs).length ≤ (sep.intercalate ys).length := by
  obtain ⟨zs, rfl⟩ := h
  have := length_intercalate_append sep xs zs
  omega

theorem dropVoidEnd_isPrefix (ps : List Bytes) : dropVoidEnd ps <+: ps := by
  rw [dropVoidEnd, ← List.reverse_suffix, List.reverse_reverse]
  exact List.dropWhile_suffix _

theorem front_isPrefix (p : Path) : p.front <+: p.bytes := by
  unfold front
  split
  · rename_i h
    cases hb : p.bytes <;> simp_all [isAbsolute]
  split
  · rename_i h
    rcases h with h | h
    · simp [h]
    · rw [List.isPrefixOf_iff_prefix] at h
      exact .trans ⟨[slash], rfl⟩ h
  · exact List.nil_prefix

theorem front_append_parts (p : Path) : p.front ++ [slash].intercalate p.parts = p.bytes := by
  rw [parts, List.intercalate_splitOn, List.prefix_iff_eq_append.1 (front_isPrefix p)]

theorem parent?_shorter {p q : Path} (h : p.parent? = some q) : q.bytes.length < p.bytes.length := by
  have hp := congrArg List.length (front_append_parts p)
  rw [List.length_append] at hp
  unfold parent? at h
  split at h
  · split at h
    · rename_i hf
      cases h
      rw [hf] at hp
      simp only [List.length_cons, List.length_nil] at *
      omega
    · cases h
  · rename_i ps hne
    cases h
    have hlast : (dropVoidEnd p.parts).getLast hne ≠ [] := by
      have hd : p.parts.reverse.dropWhile isVoid ≠ [] := fun hd ↦ hne (by rw [dropVoidEnd, hd]; rfl)
      simp only [dropVoidEnd, List.getLast_reverse]
      intro h
      have := List.head_dropWhile_not isVoid hd
      rw [h] at this
      cases this
    have h₁ := length_intercalate_le [slash] (dropVoidEnd_isPrefix p.parts)
    have h₂ := length_intercalate_le [slash]
      (dropVoidEnd_isPrefix (dropVoidEnd p.parts).dropLast)
    have h₃ := length_intercalate_append [slash] (dropVoidEnd p.parts).dropLast
      [(dropVoidEnd p.parts).getLast hne]
    rw [List.dropLast_concat_getLast] at h₃
    have := List.length_pos_iff.2 hlast
    simp [List.intercalate] at *
    omega

def ancestors (p : Path) : List Path :=
  match _h : p.parent? with
  | some q => p :: ancestors q
  | none => [p]
termination_by p.bytes.length
decreasing_by exact parent?_shorter _h

theorem ancestors_eq (p : Path) :
    p.ancestors = match p.parent? with
      | some q => p :: q.ancestors
      | none => [p] := by
  rw [ancestors]
  split <;> rename_i h <;> rw [h]

end KeyAudit.Path
