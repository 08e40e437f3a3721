import KeyAudit.Proofs.Path.Steps
import Mathlib.Data.List.Induction
import Mathlib.Data.List.TakeWhile

namespace KeyAudit.Path

variable {p q : Path} {b n t ext : Bytes}

/-- What may stand behind the last component of a path: slashes, each alone or with a dot behind it. -/
inductive Trails : Bytes → Prop
  | nil : Trails []
  | slash {t : Bytes} (h : Trails t) : Trails (slash :: t)
  | here {t : Bytes} (h : Trails t) : Trails (slash :: dot :: t)

/-- A name as a component can be one: neither `.` nor `..`. -/
structure IsName (n : Bytes) : Prop where
  ne_nil : n ≠ []
  ne_here : n ≠ [dot]
  ne_up : n ≠ [dot, dot]
  noSlash : slash ∉ n

/-- The last component of the path is the name `n`. -/
def EndsIn (p : Path) (n : Bytes) : Prop :=
  IsName n ∧ ∃ before after, p.bytes = before ++ (n ++ after) ∧
    (∀ b ∈ before.getLast?, b = slash) ∧ Trails after

theorem isName_of_length (hlength : 2 < n.length) (hslash : slash ∉ n) : IsName n := by
  refine ⟨?_, ?_, ?_, hslash⟩
  · intro h
    subst h
    simp at hlength
  · intro h
    subst h
    simp at hlength
  · intro h
    subst h
    simp at hlength

theorem IsName.endsIn (h : IsName n) : EndsIn ⟨n⟩ n :=
  ⟨h, [], [], (List.append_nil n).symm, nofun, .nil⟩

theorem IsName.isVoid_eq_false (h : IsName n) : isVoid n = false := by
  simp [isVoid, h.ne_nil, h.ne_here]

theorem IsName.componentOf?_eq (h : IsName n) : componentOf? n = some (.name n) := by
  rw [componentOf?, h.isVoid_eq_false, if_neg Bool.false_ne_true, if_neg h.ne_up]

theorem componentOf?_eq_name {part : Bytes} (h : componentOf? part = some (.name n)) :
    part = n ∧ n ≠ [] ∧ n ≠ [dot] ∧ n ≠ [dot, dot] := by
  unfold componentOf? at h
  split at h
  · cases h
  rename_i hvoid
  split at h
  · cases h
  rename_i hup
  obtain rfl : part = n := Component.name.inj (Option.some.inj h)
  simp only [isVoid, Bool.or_eq_true, beq_iff_eq, not_or] at hvoid
  exact ⟨rfl, hvoid.1, hvoid.2, hup⟩

/-- Bytes are taken apart from behind, at their last slash. -/
theorem slash_induction {motive : Bytes → Prop} (one : ∀ y, slash ∉ y → motive y)
    (step : ∀ x y, slash ∉ y → motive x → motive (x ++ slash :: y)) (b : Bytes) : motive b := by
  have hall : ∀ y, slash ∉ y → motive (b ++ y) := by
    induction b using List.reverseRecOn with
    | nil => exact one
    | append_singleton b c ih =>
      intro y hy
      rw [List.append_assoc, List.singleton_append]
      by_cases hc : c = slash
      · subst hc
        have hb := ih [] List.not_mem_nil
        rw [List.append_nil] at hb
        exact step b y hy hb
      · refine ih (c :: y) ?_
        rw [List.mem_cons, not_or]
        exact ⟨fun h ↦ hc h.symm, hy⟩
  have hb := hall [] List.not_mem_nil
  rwa [List.append_nil] at hb

theorem Trails.append (h : Trails t) {u : Bytes} (hu : Trails u) : Trails (t ++ u) := by
  induction h with
  | nil => exact hu
  | slash h ih => exact .slash ih
  | here h ih => exact .here ih

theorem Trails.steps_append (h : Trails t) (b : Bytes) : steps (b ++ t) = steps b := by
  induction h generalizing b with
  | nil => rw [List.append_nil]
  | slash h ih =>
    rw [List.append_cons, ih, steps_append_slash]
    exact List.append_nil _
  | here h ih =>
    rw [List.append_cons, List.append_cons, ih, List.append_assoc, List.singleton_append,
      steps_append_slash]
    exact List.append_nil _

theorem getLast?_steps_of_notMem (h : slash ∉ b) : (steps b).getLast? = componentOf? b := by
  rw [steps_of_notMem h]
  cases componentOf? b <;> rfl

theorem getLast?_steps_append (b : Bytes) {c : Bytes} (hc : slash ∉ c) :
    (steps (b ++ slash :: c)).getLast? = (componentOf? c).or (steps b).getLast? := by
  rw [steps_append_slash, List.getLast?_append, getLast?_steps_of_notMem hc]

theorem exists_of_getLast?_steps (h : (steps b).getLast? = some (.name n)) :
    IsName n ∧ ∃ before after, b = before ++ (n ++ after) ∧
      (∀ c ∈ before.getLast?, c = slash) ∧ Trails after := by
  induction b using slash_induction with
  | one y hy =>
    rw [getLast?_steps_of_notMem hy] at h
    obtain ⟨rfl, hne, hhere, hup⟩ := componentOf?_eq_name h
    exact ⟨⟨hne, hhere, hup, hy⟩, [], [], (List.append_nil y).symm, nofun, .nil⟩
  | step x y hy ih =>
    rw [getLast?_steps_append x hy] at h
    cases hc : componentOf? y with
    | some c =>
      rw [hc, Option.some_or] at h
      obtain ⟨rfl, hne, hhere, hup⟩ := componentOf?_eq_name (hc.trans h)
      refine ⟨⟨hne, hhere, hup, hy⟩, x ++ [slash], [], by simp, ?_, .nil⟩
      intro c hlast
      rw [List.getLast?_concat] at hlast
      exact (Option.some.inj hlast).symm
    | none =>
      rw [hc, Option.none_or] at h
      obtain ⟨hn, before, after, rfl, hbefore, hafter⟩ := ih h
      have htrail : Trails (slash :: y) := by
        unfold componentOf? at hc
        split at hc
        · rename_i hvoid
          simp only [isVoid, Bool.or_eq_true, beq_iff_eq] at hvoid
          rcases hvoid with rfl | rfl
          · exact .slash .nil
          · exact .here .nil
        · split at hc <;> cases hc
      exact ⟨hn, before, after ++ slash :: y, by simp, hbefore, hafter.append htrail⟩

theorem name_notMem_frontComponents (p : Path) (n : Bytes) : .name n ∉ p.frontComponents := by
  unfold frontComponents
  split
  · simp
  · split <;> simp

theorem fileName?_eq_some_iff :
    p.fileName? = some n ↔ (steps p.bytes).getLast? = some (.name n) := by
  have hlast : p.components.getLast? =
      (steps p.bytes).getLast?.or p.frontComponents.getLast? := by
    rw [components_eq, List.getLast?_append]
  have hname : p.fileName? = some n ↔ p.components.getLast? = some (.name n) := by
    unfold fileName?
    split
    · rename_i m h
      rw [h, Option.some_inj, Option.some_inj, Component.name.injEq]
    · rename_i h
      exact iff_of_false nofun (h n)
  rw [hname, hlast, Option.or_eq_some_iff]
  refine or_iff_left ?_
  intro h
  obtain ⟨-, h⟩ := h
  exact name_notMem_frontComponents p n (List.mem_of_getLast? h)

theorem fileName?_eq_some : p.fileName? = some n ↔ p.EndsIn n := by
  rw [fileName?_eq_some_iff]
  constructor
  · exact exists_of_getLast?_steps
  · intro h
    obtain ⟨hn, before, after, hb, hbefore, hafter⟩ := h
    rw [hb, ← List.append_assoc, hafter.steps_append]
    rcases List.eq_nil_or_concat before with rfl | ⟨x, c, rfl⟩
    · rw [List.nil_append, getLast?_steps_of_notMem hn.noSlash, hn.componentOf?_eq]
    · obtain rfl : c = slash := hbefore c (by simp)
      rw [List.concat_eq_append, List.append_assoc, List.singleton_append,
        getLast?_steps_append x hn.noSlash, hn.componentOf?_eq, Option.some_or]

theorem fileName?_append_trails (p : Path) (h : Trails t) :
    (⟨p.bytes ++ t⟩ : Path).fileName? = p.fileName? := by
  ext n
  rw [fileName?_eq_some_iff, fileName?_eq_some_iff, h.steps_append]

theorem EndsIn.join (h : q.EndsIn n) (hq : q.isAbsolute = false) (p : Path) :
    (p.join q).EndsIn n := by
  by_cases hp : p.bytes = []
  · obtain rfl : p = ⟨[]⟩ := congrArg mk hp
    rwa [nil_join hq]
  · rw [← fileName?_eq_some, fileName?_eq_some_iff] at h ⊢
    rw [steps_join hp hq, List.getLast?_append, h, Option.some_or]

theorem nameExtension?_of_notMem (h : dot ∉ n) : nameExtension? n = none := by
  have hdrop : n.reverse.dropWhile (· != dot) = [] := by
    rw [List.dropWhile_eq_nil_iff]
    intro b hb
    exact bne_iff_ne.2 fun he ↦ h (he ▸ List.mem_reverse.1 hb)
  rw [nameExtension?, hdrop]

theorem nameExtension?_append (stem : Bytes) (h : dot ∉ ext) :
    nameExtension? (stem ++ dot :: ext) = if stem = [] then none else some ext := by
  have hext : ∀ b ∈ ext.reverse, (b != dot) = true := by
    intro b hb
    exact bne_iff_ne.2 fun he ↦ h (he ▸ List.mem_reverse.1 hb)
  have hreverse : (stem ++ dot :: ext).reverse = ext.reverse ++ dot :: stem.reverse := by simp
  have htake : (stem ++ dot :: ext).reverse.takeWhile (· != dot) = ext.reverse := by
    rw [hreverse, List.takeWhile_append_of_pos hext]
    simp
  have hdrop : (stem ++ dot :: ext).reverse.dropWhile (· != dot) = dot :: stem.reverse := by
    rw [hreverse, List.dropWhile_append_of_pos hext]
    simp
  rw [nameExtension?, htake, hdrop, List.reverse_reverse]
  rcases List.eq_nil_or_concat stem with rfl | ⟨stem, b, rfl⟩
  · rfl
  · simp

theorem nameExtension?_eq_some : nameExtension? n = some ext ↔
    ∃ stem, n = stem ++ dot :: ext ∧ stem ≠ [] ∧ dot ∉ ext := by
  constructor
  · intro h
    by_cases hdot : dot ∈ n.reverse
    · obtain ⟨ext', stem, hn, hext⟩ := List.eq_append_cons_of_mem hdot
      obtain rfl : n = stem.reverse ++ dot :: ext'.reverse := by
        rw [← List.reverse_reverse n, hn]
        simp
      rw [nameExtension?_append _ (mt List.mem_reverse.1 hext)] at h
      split at h
      · cases h
      · rename_i hstem
        obtain rfl := Option.some.inj h
        exact ⟨stem.reverse, rfl, hstem, mt List.mem_reverse.1 hext⟩
    · rw [nameExtension?_of_notMem (mt List.mem_reverse.2 hdot)] at h
      cases h
  · intro h
    obtain ⟨stem, rfl, hstem, hext⟩ := h
    rw [nameExtension?_append stem hext, if_neg hstem]

theorem extension?_eq_some : p.extension? = some ext ↔
    ∃ stem, p.EndsIn (stem ++ dot :: ext) ∧ stem ≠ [] ∧ dot ∉ ext := by
  rw [extension?, Option.bind_eq_some_iff]
  simp only [fileName?_eq_some, nameExtension?_eq_some]
  constructor
  · intro h
    obtain ⟨n, hn, stem, rfl, hstem, hext⟩ := h
    exact ⟨stem, hn, hstem, hext⟩
  · intro h
    obtain ⟨stem, hn, hstem, hext⟩ := h
    exact ⟨_, hn, stem, rfl, hstem, hext⟩

end KeyAudit.Path
