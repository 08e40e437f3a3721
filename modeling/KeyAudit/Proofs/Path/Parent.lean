import KeyAudit.Path.Ancestors
import Mathlib.Data.List.Chain
import Mathlib.Data.List.DropRight

namespace KeyAudit.Path

/-- How the parts of a path begin behind its front. Behind a leading `.` there is a slash or nothing, and
without a front the path begins with a component. -/
inductive Opens : Bytes → List Bytes → Prop
  | root {ps : List Bytes} (hne : ps ≠ []) : Opens [slash] ps
  | here (ps : List Bytes) : Opens [dot] ([] :: ps)
  | plain {part : Bytes} (ps : List Bytes) (hpart : isVoid part = false) (hslash : slash ∉ part) :
      Opens [] (part :: ps)

variable {p q : Path} {f part : Bytes} {ps qs : List Bytes}

theorem slash_notMem_of_mem_splitOn {b : Bytes} (h : part ∈ b.splitOn slash) : slash ∉ part := by
  induction b generalizing part with
  | nil =>
    rw [List.splitOn_nil, List.mem_singleton] at h
    exact h ▸ List.not_mem_nil
  | cons x b ih =>
    rw [List.splitOn_cons_eq_if_modifyHead] at h
    split at h
    · rcases List.mem_cons.1 h with rfl | h
      · exact List.not_mem_nil
      · exact ih h
    · rename_i hx
      cases hb : b.splitOn slash with
      | nil => exact absurd hb (List.splitOn_ne_nil slash b)
      | cons y ys =>
        rw [hb] at h ih
        rcases List.mem_cons.1 h with rfl | h
        · rw [List.mem_cons, not_or]
          exact ⟨fun he ↦ hx (beq_iff_eq.2 he.symm), ih List.mem_cons_self⟩
        · exact ih (List.mem_cons_of_mem _ h)

theorem componentOf?_eq_none : componentOf? part = none ↔ isVoid part = true := by
  unfold componentOf?
  split
  · rename_i h
    exact iff_of_true rfl h
  · rename_i h
    split
    · exact iff_of_false nofun h
    · exact iff_of_false nofun h

theorem filterMap_dropVoidEnd (ps : List Bytes) :
    (dropVoidEnd ps).filterMap componentOf? = ps.filterMap componentOf? := by
  have hvoid : (ps.rtakeWhile isVoid).filterMap componentOf? = [] := by
    rw [List.filterMap_eq_nil_iff]
    intro part h
    exact componentOf?_eq_none.2 (List.mem_rtakeWhile_imp h)
  have hsplit : ps.rdropWhile isVoid ++ ps.rtakeWhile isVoid = ps := List.rdropWhile_append_rtakeWhile
  calc (ps.rdropWhile isVoid).filterMap componentOf?
      = (ps.rdropWhile isVoid ++ ps.rtakeWhile isVoid).filterMap componentOf? := by
        rw [List.filterMap_append, hvoid, List.append_nil]
    _ = ps.filterMap componentOf? := by rw [hsplit]

theorem dropVoidEnd_eq_nil : dropVoidEnd ps = [] ↔ ps.filterMap componentOf? = [] := by
  change ps.rdropWhile isVoid = [] ↔ _
  simp only [List.rdropWhile_eq_nil_iff, List.filterMap_eq_nil_iff, componentOf?_eq_none]

theorem exists_componentOf?_getLast (h : dropVoidEnd ps ≠ []) :
    ∃ c, c ≠ .root ∧ componentOf? ((dropVoidEnd ps).getLast h) = some c := by
  have hlast : ¬ isVoid ((dropVoidEnd ps).getLast h) = true := List.rdropWhile_last_not isVoid ps h
  rw [componentOf?, if_neg hlast]
  split
  · exact ⟨.up, nofun, rfl⟩
  · exact ⟨.name _, nofun, rfl⟩

theorem Opens.of_isPrefix (h : Opens f ps) (hqs : qs <+: ps) (hne : qs ≠ []) : Opens f qs := by
  obtain ⟨part, rest, rfl⟩ := List.exists_cons_of_ne_nil hne
  obtain ⟨more, rfl⟩ := hqs
  cases h with
  | root => exact .root hne
  | here => exact .here rest
  | plain _ hpart hslash => exact .plain rest hpart hslash

theorem intercalate_cons (x : UInt8) (part : Bytes) (ps : List Bytes) :
    [slash].intercalate ((x :: part) :: ps) = x :: [slash].intercalate (part :: ps) := by
  cases ps with
  | nil => rfl
  | cons y ps =>
    rw [List.intercalate_cons_cons, List.intercalate_cons_cons]
    rfl

theorem intercalate_nil_cons (ps : List Bytes) : [slash].intercalate ([] :: ps) = [] ∧ ps = [] ∨
    ∃ b, [slash].intercalate ([] :: ps) = slash :: b := by
  cases ps with
  | nil => exact .inl ⟨rfl, rfl⟩
  | cons part ps =>
    rw [List.intercalate_cons_cons]
    exact .inr ⟨_, rfl⟩

theorem opens_parts (hp : p.bytes ≠ []) : Opens p.front p.parts := by
  obtain ⟨_ | ⟨x, b⟩⟩ := p
  · exact absurd rfl hp
  unfold parts front
  split
  · exact .root (List.splitOn_ne_nil _ _)
  rename_i habs
  have hx : x ≠ slash := by simpa [isAbsolute] using habs
  split
  · rename_i hdot
    rcases hdot with hdot | hdot
    · obtain ⟨rfl, rfl⟩ := List.cons.inj hdot
      exact .here []
    · obtain ⟨rest, hrest⟩ := List.isPrefixOf_iff_prefix.1 hdot
      obtain ⟨rfl, rfl⟩ := List.cons.inj hrest
      exact .here _
  · rename_i hdot
    rw [List.length_nil, List.drop_zero, List.splitOn_cons_eq_if_modifyHead, if_neg (by simpa using hx)]
    have hb : [slash].intercalate (b.splitOn slash) = b := List.intercalate_splitOn slash
    have hslash : ∀ part ∈ b.splitOn slash, slash ∉ part := fun _ ↦ slash_notMem_of_mem_splitOn
    cases hs : b.splitOn slash with
    | nil => exact absurd hs (List.splitOn_ne_nil slash b)
    | cons y ys =>
      rw [hs] at hb hslash
      refine .plain ys (Bool.eq_false_iff.2 fun hvoid ↦ hdot ?_) ?_
      · obtain ⟨rfl, rfl⟩ : x = dot ∧ y = [] := by simpa [isVoid] using hvoid
        rcases intercalate_nil_cons ys with ⟨hi, -⟩ | ⟨rest, hi⟩
        · rw [← hb, hi]
          exact .inl rfl
        · rw [← hb, hi]
          exact .inr rfl
      · rw [List.mem_cons, not_or]
        exact ⟨hx.symm, hslash y List.mem_cons_self⟩

theorem Opens.front_eq (h : Opens f ps) : (⟨f ++ [slash].intercalate ps⟩ : Path).front = f := by
  cases h with
  | root => rfl
  | here ps =>
    rcases intercalate_nil_cons ps with ⟨hi, -⟩ | ⟨b, hi⟩
    · rw [hi]
      rfl
    · rw [hi]
      rfl
  | @plain part ps hpart hslash =>
    rcases part with _ | ⟨x, _ | ⟨y, part⟩⟩
    · cases hpart
    · have hx : slash ≠ x := List.ne_of_not_mem_cons hslash
      have hdot : dot ≠ x := by
        intro he
        subst he
        cases hpart
      rw [List.nil_append, intercalate_cons, front]
      simp [isAbsolute, List.isPrefixOf, hx.symm, hdot, hdot.symm]
    · obtain ⟨hx, hslash⟩ := not_or.1 (mt List.mem_cons.2 hslash)
      have hy : slash ≠ y := List.ne_of_not_mem_cons hslash
      rw [List.nil_append, intercalate_cons, intercalate_cons, front]
      simp [isAbsolute, List.isPrefixOf, Ne.symm hx, hy]

theorem Opens.ne_nil (h : Opens f ps) : ps ≠ [] := by
  cases h with
  | root hne => exact hne
  | here => exact List.cons_ne_nil _ _
  | plain => exact List.cons_ne_nil _ _

theorem Opens.components_eq (h : Opens p.front qs) (hslash : ∀ part ∈ qs, slash ∉ part) :
    (⟨p.front ++ [slash].intercalate qs⟩ : Path).components =
      p.frontComponents ++ qs.filterMap componentOf? := by
  simp only [components, frontComponents, parts, h.front_eq, List.drop_left,
    List.splitOn_intercalate slash hslash h.ne_nil]

theorem front_cases (p : Path) : p.front = [slash] ∨ p.front = [dot] ∨ p.front = [] := by
  unfold front
  split
  · exact .inl rfl
  · split
    · exact .inr (.inl rfl)
    · exact .inr (.inr rfl)

theorem components_front (p : Path) : (⟨p.front⟩ : Path).components = p.frontComponents := by
  rcases front_cases p with h | h | h
  · rw [frontComponents, h]
    rfl
  · rw [frontComponents, h]
    rfl
  · rw [frontComponents, h]
    rfl

theorem dropVoidEnd_dropLast_isPrefix (ps : List Bytes) :
    dropVoidEnd (dropVoidEnd ps).dropLast <+: ps :=
  (dropVoidEnd_isPrefix _).trans ((List.dropLast_prefix _).trans (dropVoidEnd_isPrefix ps))

/-- Going up takes away the last component. -/
theorem components_of_parent? (h : p.parent? = some q) :
    ∃ c, c ≠ .root ∧ p.components = q.components ++ [c] := by
  unfold parent? at h
  split at h
  · rename_i hnil
    split at h
    · rename_i hfront
      obtain rfl := Option.some.inj h
      refine ⟨.here, nofun, ?_⟩
      rw [components, frontComponents, hfront, dropVoidEnd_eq_nil.1 hnil]
      rfl
    · cases h
  · rename_i hne
    obtain rfl := Option.some.inj h
    have hp : p.bytes ≠ [] := by
      intro hp
      obtain rfl : p = ⟨[]⟩ := congrArg mk hp
      exact hne rfl
    obtain ⟨c, hc, hlast⟩ := exists_componentOf?_getLast hne
    refine ⟨c, hc, ?_⟩
    have hcomponents : p.components =
        p.frontComponents ++ (dropVoidEnd (dropVoidEnd p.parts).dropLast).filterMap componentOf? ++ [c] := by
      rw [components, ← filterMap_dropVoidEnd p.parts, filterMap_dropVoidEnd (dropVoidEnd p.parts).dropLast,
        List.append_assoc]
      conv_lhs => rw [← List.dropLast_concat_getLast hne, List.filterMap_append,
        List.filterMap_cons_some hlast, List.filterMap_nil]
    rw [hcomponents, List.append_cancel_right_eq]
    by_cases hqs : dropVoidEnd (dropVoidEnd p.parts).dropLast = []
    · rw [hqs, List.filterMap_nil, List.append_nil, List.intercalate_nil, List.append_nil, components_front]
    · have hfront := dropVoidEnd_dropLast_isPrefix p.parts
      have hopens := (opens_parts hp).of_isPrefix hfront hqs
      refine (hopens.components_eq ?_).symm
      intro part hpart
      exact slash_notMem_of_mem_splitOn (hfront.subset hpart)

theorem parent?_eq_none_iff : p.parent? = none ↔ p.bytes = [] ∨ p.components = [.root] := by
  constructor
  · intro h
    by_cases hp : p.bytes = []
    · exact .inl hp
    right
    unfold parent? at h
    split at h
    · rename_i hnil
      split at h
      · cases h
      · rename_i hfront
        have hopens := opens_parts hp
        have hparts := dropVoidEnd_eq_nil.1 hnil
        rw [components, frontComponents, hparts, List.append_nil]
        generalize p.front = f at hopens hfront
        generalize p.parts = ps at hopens hparts
        cases hopens with
        | root => rfl
        | here => exact absurd rfl hfront
        | plain ps hpart =>
          rw [List.filterMap_eq_nil_iff] at hparts
          have hvoid := componentOf?_eq_none.1 (hparts _ List.mem_cons_self)
          rw [hpart] at hvoid
          cases hvoid
    · cases h
  · intro h
    cases hq : p.parent? with
    | none => rfl
    | some q =>
      obtain ⟨c, hc, hcomp⟩ := components_of_parent? hq
      rcases h with h | h
      · obtain rfl : p = ⟨[]⟩ := congrArg mk h
        cases hq
      · rw [h] at hcomp
        have hlast := congrArg List.getLast? hcomp
        rw [List.getLast?_concat] at hlast
        exact absurd (Option.some.inj hlast).symm hc

theorem head?_ancestors (p : Path) : p.ancestors.head? = some p := by
  rw [ancestors_eq]
  split
  · rfl
  · rfl

theorem isChain_ancestors (p : Path) : p.ancestors.IsChain fun p q ↦ p.parent? = some q := by
  induction p using ancestors.induct with
  | case1 p q h ih =>
    rw [ancestors_eq, h]
    refine ih.cons ?_
    intro r hr
    rw [head?_ancestors] at hr
    exact Option.some.inj hr ▸ h
  | case2 p h =>
    rw [ancestors_eq, h]
    exact .singleton p

theorem exists_last_ancestor (p : Path) :
    ∃ q, p.ancestors.getLast? = some q ∧ (q.bytes = [] ∨ q.components = [.root]) := by
  induction p using ancestors.induct with
  | case1 p q h ih =>
    obtain ⟨r, hr, hend⟩ := ih
    refine ⟨r, ?_, hend⟩
    rw [ancestors_eq, h, List.getLast?_cons, hr]
    rfl
  | case2 p h =>
    refine ⟨p, ?_, parent?_eq_none_iff.1 h⟩
    rw [ancestors_eq, h]
    rfl

theorem components_isPrefix_of_mem_ancestors (h : q ∈ p.ancestors) : q.components <+: p.components := by
  induction p using ancestors.induct with
  | case1 p r hr ih =>
    rw [ancestors_eq, hr] at h
    rcases List.mem_cons.1 h with rfl | h
    · exact List.prefix_rfl
    · obtain ⟨c, -, hc⟩ := components_of_parent? hr
      exact hc ▸ (ih h).trans (List.prefix_append _ _)
  | case2 p hr =>
    rw [ancestors_eq, hr, List.mem_singleton] at h
    exact h ▸ List.prefix_rfl

theorem length_ancestors_le (p : Path) : p.ancestors.length ≤ p.components.length + 1 := by
  induction p using ancestors.induct with
  | case1 p q h ih =>
    obtain ⟨c, -, hc⟩ := components_of_parent? h
    have hlength := congrArg List.length hc
    rw [List.length_append, List.length_singleton] at hlength
    rw [ancestors_eq, h, List.length_cons]
    omega
  | case2 p h =>
    rw [ancestors_eq, h, List.length_singleton]
    omega

end KeyAudit.Path
