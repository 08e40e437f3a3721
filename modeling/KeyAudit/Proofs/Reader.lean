import KeyAudit.Reader
import Mathlib.Data.List.Forall2

namespace KeyAudit

variable {α β : Type} {P : α → List Char → Prop} {R : α → β → Prop} {item : Reader β} {as : List α}
  {bs : List β} {s r r' w : List Char} {close : Char}

/-- Items as they are written, one or more, with commas between them. -/
inductive Separated (P : α → List Char → Prop) : List α → List Char → Prop
  | last (a : α) (w : List Char) : P a w → Separated P [a] w
  | cons (a : α) (w : List Char) (as : List α) (ws : List Char) : P a w → Separated P as ws →
    Separated P (a :: as) (w ++ ',' :: ws)

namespace Reader

theorem sepBy_congr {s' : List Char} (h : item.read s = item.read s') :
    item.sepBy ',' s = item.sepBy ',' s' := by
  rw [sepBy_eq, h, ← sepBy_eq]

/-- What is written for an item is read as it before a comma and before the closing character. -/
def Reads (item : Reader β) (P : α → List Char → Prop) (R : α → β → Prop) (close : Char) : Prop :=
  ∀ a w d t, P a w → d = ',' ∨ d = close →
    ∀ b u, item.read (w ++ d :: t) = some (b, u) ↔ R a b ∧ u = d :: t

theorem sepBy_append (hitem : item.Reads P R close) (hclose : close ≠ ',') (h : Separated P as w)
    (hbs : List.Forall₂ R as bs) (r : List Char) :
    item.sepBy ',' (w ++ close :: r) = some (bs, close :: r) := by
  induction h generalizing bs with
  | last a w ha =>
    cases hbs with
    | cons hab hnil =>
      cases hnil
      have hread := (hitem a w close r ha (.inr rfl) _ _).2 ⟨hab, rfl⟩
      rw [sepBy_eq, hread]
      exact if_neg hclose
  | cons a w as ws ha _ ih =>
    cases hbs with
    | cons hab hbs =>
      have hread := (hitem a w ',' (ws ++ close :: r) ha (.inl rfl) _ _).2 ⟨hab, rfl⟩
      rw [List.append_assoc, List.cons_append, sepBy_eq, hread]
      dsimp only [Option.bind_some]
      rw [if_pos rfl, ih hbs]

theorem forall₂_of_sepBy (hitem : item.Reads P R close) (hclose : close ≠ ',') (h : Separated P as w)
    (hread : item.sepBy ',' (w ++ close :: r) = some (bs, close :: r')) :
    List.Forall₂ R as bs ∧ r' = r := by
  induction h generalizing bs with
  | last a w ha =>
    rw [sepBy_eq] at hread
    obtain ⟨⟨b, u⟩, hb, hrest⟩ := Option.bind_eq_some_iff.1 hread
    obtain ⟨hab, rfl⟩ := (hitem a w close r ha (.inr rfl) b u).1 hb
    dsimp only at hrest
    rw [if_neg hclose] at hrest
    cases hrest
    exact ⟨.cons hab .nil, rfl⟩
  | cons a w as ws ha _ ih =>
    rw [List.append_assoc, List.cons_append, sepBy_eq] at hread
    obtain ⟨⟨b, u⟩, hb, hrest⟩ := Option.bind_eq_some_iff.1 hread
    obtain ⟨hab, rfl⟩ := (hitem a w ',' _ ha (.inl rfl) b u).1 hb
    dsimp only at hrest
    rw [if_pos rfl] at hrest
    split at hrest
    · rename_i bs' u hbs
      cases hrest
      obtain ⟨htail, hr⟩ := ih hbs
      exact ⟨.cons hab htail, hr⟩
    · cases hrest
      exact absurd rfl hclose

theorem exists_separated_of_sepBy {P : β → List Char → Prop}
    (hitem : ∀ s b u, item.read s = some (b, u) → ∃ w, s = w ++ u ∧ P b w)
    (h : item.sepBy ',' s = some (bs, r)) : ∃ w, s = w ++ r ∧ Separated P bs w := by
  fun_induction sepBy item ',' s generalizing bs r with
  | case1 => cases h
  | case2 s b hs =>
    cases h
    obtain ⟨w, hw, hb⟩ := hitem _ _ _ hs
    exact ⟨w, hw, .last _ _ hb⟩
  | case3 s b rest bs' rest' hrest hs ih =>
    cases h
    obtain ⟨w, hw, hb⟩ := hitem _ _ _ hs
    obtain ⟨ws, hws, hsep⟩ := ih hrest
    refine ⟨w ++ ',' :: ws, ?_, .cons _ _ _ _ hb hsep⟩
    rw [hw, hws, List.append_assoc, List.cons_append]
  | case4 s b rest hrest hs ih =>
    cases h
    obtain ⟨w, hw, hb⟩ := hitem _ _ _ hs
    exact ⟨w, hw, .last _ _ hb⟩
  | case5 s b c rest hs hc =>
    cases h
    obtain ⟨w, hw, hb⟩ := hitem _ _ _ hs
    exact ⟨w, hw, .last _ _ hb⟩

end Reader

end KeyAudit
