namespace KeyAudit

theorem mem_of_lookup {α β : Type} [BEq α] [LawfulBEq α] {a : α} {b : β} {l : List (α × β)}
    (h : l.lookup a = some b) : (a, b) ∈ l := by
  obtain ⟨before, after, rfl, -⟩ := List.lookup_eq_some_iff.1 h
  simp

theorem le_foldr_max {n : Nat} {ns : List Nat} (h : n ∈ ns) : n ≤ ns.foldr max 0 := by
  induction ns with
  | nil => cases h
  | cons m ns ih =>
    rw [List.foldr_cons]
    rcases List.mem_cons.1 h with rfl | h
    · exact Nat.le_max_left _ _
    · exact Nat.le_trans (ih h) (Nat.le_max_right _ _)

theorem countP_lt_countP {α : Type} {p q : α → Bool} {l : List α} {a : α} (ha : a ∈ l)
    (hpq : ∀ x, p x = true → q x = true) (hp : p a = false) (hq : q a = true) :
    l.countP p < l.countP q := by
  induction l with
  | nil => cases ha
  | cons b l ih =>
    rw [List.countP_cons, List.countP_cons]
    have hm : l.countP p ≤ l.countP q := List.countP_mono_left fun x _ ↦ hpq x
    rcases List.mem_cons.1 ha with rfl | ha
    · simp only [hp, hq, if_true, Bool.false_eq_true, if_false]
      omega
    · have := ih ha
      have hle : (if p b = true then 1 else 0) ≤ if q b = true then 1 else 0 := by
        split
        · rename_i hb
          exact Nat.le_of_eq (if_pos (hpq b hb)).symm
        · exact Nat.zero_le _
      omega

theorem nodup_eraseDups {α : Type} [BEq α] [LawfulBEq α] (l : List α) : l.eraseDups.Nodup := by
  induction hl : l.length using Nat.strongRecOn generalizing l with
  | ind k ih =>
    cases l with
    | nil => simp
    | cons a l =>
      rw [List.eraseDups_cons, List.nodup_cons, List.mem_eraseDups]
      refine ⟨by simp, ih _ ?_ _ rfl⟩
      rw [← hl, List.length_cons]
      exact Nat.lt_succ_of_le (List.length_filter_le _ _)

theorem flatMap_of_forall_ne {α β : Type} {l : List α} {g : α → List β} {a : α} (hl : l.Nodup)
    (ha : a ∈ l ∨ g a = []) (h : ∀ b, b ≠ a → g b = []) : l.flatMap g = g a := by
  induction l with
  | nil => exact (ha.resolve_left List.not_mem_nil).symm
  | cons b l ih =>
    obtain ⟨hb, hl⟩ := List.nodup_cons.1 hl
    rw [List.flatMap_cons]
    by_cases hba : b = a
    · subst hba
      have hrest : l.flatMap g = [] := List.flatMap_eq_nil_iff.2 fun c hc ↦ h c fun hcb ↦ hb (hcb ▸ hc)
      rw [hrest, List.append_nil]
    · rw [h b hba, List.nil_append]
      exact ih hl (ha.imp_left fun hm ↦ (List.mem_cons.1 hm).resolve_left (Ne.symm hba))

theorem eraseDups_of_nodup {α : Type} [BEq α] [LawfulBEq α] {l : List α} (h : l.Nodup) :
    l.eraseDups = l := by
  induction l with
  | nil => rfl
  | cons a l ih =>
    obtain ⟨ha, hl⟩ := List.nodup_cons.1 h
    have hf : l.filter (fun b ↦ !b == a) = l := by
      rw [List.filter_eq_self]
      intro b hb
      have hne : b ≠ a := fun he ↦ ha (he ▸ hb)
      simpa using hne
    rw [List.eraseDups_cons, hf, ih hl]

theorem toNat_lt (c : Char) : c.toNat < 0x110000 := by
  have hc := c.valid
  rw [UInt32.isValidChar, Nat.isValidChar] at hc
  change c.val.toNat < _
  omega

section

variable {α β γ δ : Type} {R : α → β → Prop} {S : γ → δ → Prop} {x x' : Option α} {y y' : Option β}

theorem cases_of_rel (h : Option.Rel R x y) :
    (x = none ∧ y = none) ∨ ∃ a b, x = some a ∧ y = some b ∧ R a b := by
  cases h with
  | some hab => exact .inr ⟨_, _, rfl, rfl, hab⟩
  | none => exact .inl ⟨rfl, rfl⟩

theorem bind_rel {f : α → Option γ} {g : β → Option δ} (h : Option.Rel R x y)
    (hfg : ∀ a b, R a b → Option.Rel S (f a) (g b)) : Option.Rel S (x.bind f) (y.bind g) := by
  cases h with
  | some hab => exact hfg _ _ hab
  | none => exact .none

theorem map_rel {f : α → γ} {g : β → δ} (h : Option.Rel R x y) (hfg : ∀ a b, R a b → S (f a) (g b)) :
    Option.Rel S (x.map f) (y.map g) := by
  cases h with
  | some hab => exact .some (hfg _ _ hab)
  | none => exact .none

theorem or_rel (h : Option.Rel R x y) (h' : Option.Rel R x' y') :
    Option.Rel R (x.or x') (y.or y') := by
  cases h with
  | some hab => exact .some hab
  | none => exact h'

theorem getD_rel {a : α} {b : β} (h : Option.Rel R x y) (hab : R a b) : R (x.getD a) (y.getD b) := by
  cases h with
  | some hab => exact hab
  | none => exact hab

theorem guard_rel {q : Prop} [Decidable q] (h : Option.Rel R x y) :
    Option.Rel R ((guard q : Option Unit).bind fun _ ↦ x) ((guard q : Option Unit).bind fun _ ↦ y) := by
  have hguard : (guard q : Option Unit) = if q then some () else none := rfl
  rw [hguard]
  split
  · exact h
  · exact .none

end

end KeyAudit
