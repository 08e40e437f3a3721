import KeyAudit.Settings.Json
import KeyAudit.Proofs.Json.Skipping
import KeyAudit.Proofs.Reader

namespace KeyAudit

open Json
open Toml (StopsAt)

variable {α : Type} {P : α → List Char → Prop} {as : List α} {t : String} {ts es : List String}
  {b r r' s v w : List Char} {d : Char}

inductive Padded (P : α → List Char → Prop) (a : α) : List Char → Prop
  | intro (b w b' : List Char) : IsSpaces b → P a w → IsSpaces b' → Padded P a (b ++ (w ++ b'))

theorem Separated.skipSpace_head (hP : ∀ a w, P a w → ∃ u, w = '"' :: u)
    (h : Separated (Padded P) as w) (r : List Char) : (skipSpace (w ++ r)).head? = some '"' := by
  have hpadded (a : α) (w r : List Char) (ha : Padded P a w) :
      (skipSpace (w ++ r)).head? = some '"' := by
    cases ha with
    | intro b w b' hb ha _ =>
      obtain ⟨u, rfl⟩ := hP a w ha
      rw [List.append_assoc, skipSpace_append hb, List.cons_append, List.cons_append,
        skipSpace_cons (by decide)]
      rfl
  cases h with
  | last a w ha => exact hpadded a w r ha
  | cons a w as ws ha _ =>
    rw [List.append_assoc]
    exact hpadded a w _ ha

namespace Settings

inductive SpellsStrings : List String → List Char → Prop
  | nil (b : List Char) : IsSpaces b → SpellsStrings [] ('[' :: (b ++ [']']))
  | list (ts : List String) (w : List Char) : Separated (Padded SpellsString) ts w →
    SpellsStrings ts ('[' :: (w ++ [']']))

theorem string_append (h : SpellsString t w) (r : List Char) : string (w ++ r) = some (t, r) := by
  simp only [string, text_append h, Option.map_some, String.ofList_toList]

theorem exists_spellsString_of_string (h : string s = some (t, r)) :
    ∃ w, s = w ++ r ∧ SpellsString t w := by
  rw [string] at h
  obtain ⟨⟨u, r'⟩, hu, heq⟩ := Option.map_eq_some_iff.1 h
  cases heq
  exact exists_spellsString_of_text hu

theorem item_append (h : Padded SpellsString t w) (hd : isSpace d = false) (r : List Char) :
    item (w ++ d :: r) = some (t, d :: r) := by
  cases h with
  | intro b w b' hb hw hb' =>
    have hstart : skipSpace (w ++ (b' ++ d :: r)) = w ++ (b' ++ d :: r) := by
      cases hw
      exact skipSpace_cons (by decide) _
    simp only [List.append_assoc, item, skipSpace_append hb, hstart, string_append hw, Option.map_some,
      skipSpace_append hb', skipSpace_cons hd]

theorem exists_spaces (s : List Char) : ∃ b, IsSpaces b ∧ s = b ++ skipSpace s :=
  ⟨s.takeWhile isSpace, fun _ ↦ List.mem_takeWhile_imp, List.takeWhile_append_dropWhile.symm⟩

theorem exists_padded_of_item (h : item s = some (t, r)) :
    ∃ w, s = w ++ r ∧ Padded SpellsString t w := by
  rw [item] at h
  obtain ⟨⟨u, s'⟩, hs, heq⟩ := Option.map_eq_some_iff.1 h
  cases heq
  obtain ⟨w, hw, hspells⟩ := exists_spellsString_of_string hs
  obtain ⟨b, hb, hstart⟩ := exists_spaces s
  obtain ⟨b', hb', hend⟩ := exists_spaces s'
  refine ⟨b ++ (w ++ b'), ?_, .intro b w b' hb hspells hb'⟩
  rw [List.append_assoc, List.append_assoc, ← hend, ← hw, ← hstart]

theorem items_reads : items.Reads (Padded SpellsString) Eq ']' := by
  intro t w d r hw hd t' r'
  have hspace : isSpace d = false := by
    rcases hd with rfl | rfl <;> rfl
  change item (w ++ d :: r) = some (t', r') ↔ _
  rw [item_append hw hspace, Option.some_inj, Prod.mk.injEq, @eq_comm _ (d :: r)]

theorem items_sepBy_skipSpace (s : List Char) :
    items.sepBy ',' (skipSpace s) = items.sepBy ',' s := by
  apply Reader.sepBy_congr
  change item (skipSpace s) = item s
  rw [item, item, skipSpace_skipSpace]

theorem SpellsStrings.starts (h : SpellsStrings ts w) : ∃ u, w = '[' :: u := by
  cases h with
  | nil b _ => exact ⟨_, rfl⟩
  | list ts w _ => exact ⟨_, rfl⟩

theorem strings_bracket (h : (skipSpace s).head? ≠ some ']') : strings ('[' :: s) =
    match items.sepBy ',' s with
    | some (ts, ']' :: r) => some (ts, r)
    | _ => none := by
  rw [strings, ← items_sepBy_skipSpace s]
  split
  · rename_i hs
    rw [hs] at h
    exact absurd rfl h
  · rfl

theorem strings_append (h : SpellsStrings ts w) (r : List Char) : strings (w ++ r) = some (ts, r) := by
  cases h with
  | nil b hb =>
    rw [List.cons_append, List.append_assoc, List.singleton_append, strings, skipSpace_append hb,
      skipSpace_cons (by decide)]
    rfl
  | list ts w hw =>
    have hhead := hw.skipSpace_head (fun _ _ ↦ SpellsString.starts) (']' :: r)
    have heq : List.Forall₂ Eq ts ts := List.forall₂_refl ts
    rw [List.cons_append, List.append_assoc, List.singleton_append, strings_bracket (by simp [hhead]),
      Reader.sepBy_append items_reads (by decide) hw heq]
    rfl

theorem exists_spellsStrings_of_strings (h : strings s = some (ts, r)) :
    ∃ w, s = w ++ r ∧ SpellsStrings ts w := by
  unfold strings at h
  split at h
  · rename_i s
    split at h
    · rename_i hs
      cases h
      obtain ⟨b, hb, hstart⟩ := exists_spaces s
      refine ⟨'[' :: (b ++ [']']), ?_, .nil b hb⟩
      rw [List.cons_append, List.append_assoc, List.singleton_append, ← hs, ← hstart]
    · rw [items_sepBy_skipSpace] at h
      split at h
      · rename_i hs
        cases h
        obtain ⟨w, rfl, hw⟩ := Reader.exists_separated_of_sepBy (fun _ _ _ ↦ exists_padded_of_item) hs
        refine ⟨'[' :: (w ++ [']']), ?_, .list ts w hw⟩
        rw [List.cons_append, List.append_assoc, List.singleton_append]
      · cases h
  · cases h

theorem skipValue_string (h : SpellsString t w) (r : List Char) : skipValue (w ++ r) = some r := by
  cases h with
  | intro w hw =>
    rw [List.cons_append, List.append_assoc]
    exact skipValue_text hw.isText r

theorem isWritten_of_strings (h : Separated (Padded SpellsString) ts w) :
    IsWritten (.entries .array) w := by
  have hentry (t : String) (w : List Char) (ht : Padded SpellsString t w) :
      IsWritten (.entry .array) w := by
    cases ht with
    | intro b w b' hb hw hb' =>
      cases hw with
      | intro u hu => exact .item b _ b' hb (.scalar _ (.text u hu.isText)) hb'
  induction h with
  | last t w ht => exact .last _ w (hentry t w ht)
  | cons t w ts ws ht _ ih => exact .cons _ w ws (hentry t w ht) ih

theorem skipValue_strings (h : SpellsStrings ts w) (r : List Char) : skipValue (w ++ r) = some r := by
  cases h with
  | nil b hb =>
    rw [List.cons_append, List.append_assoc]
    exact skipValue_empty (f := .array) hb r
  | list ts w hw =>
    rw [List.cons_append, List.append_assoc]
    exact skipValue_frame (isWritten_of_strings hw) r

theorem read_eq_some {S : α → List Char → Prop} {read : List Char → Option (α × List Char)} {a : α}
    (happend : ∀ a w r, S a w → read (w ++ r) = some (a, r))
    (hexists : ∀ s a r, read s = some (a, r) → ∃ w, s = w ++ r ∧ S a w)
    (hskip : ∀ a w r, S a w → skipValue (w ++ r) = some r) (hv : IsValue v)
    (hr : StopsAt isNumberPart r) : read (v ++ r) = some (a, r') ↔ S a v ∧ r' = r := by
  constructor
  · intro h
    obtain ⟨w, hsplit, hw⟩ := hexists _ _ _ h
    have hrest := skipValue_append hv hr
    rw [hsplit, hskip a w r' hw] at hrest
    obtain rfl := Option.some.inj hrest
    obtain rfl := List.append_cancel_right hsplit
    exact ⟨hw, rfl⟩
  · intro ⟨hw, hrest⟩
    rw [happend a v r hw, hrest]

theorem strings_eq_some (hv : IsValue v) (hr : StopsAt isNumberPart r) :
    strings (v ++ r) = some (ts, r') ↔ SpellsStrings ts v ∧ r' = r :=
  read_eq_some (fun _ _ r h ↦ strings_append h r) (fun _ _ _ ↦ exists_spellsStrings_of_strings)
    (fun _ _ r h ↦ skipValue_strings h r) hv hr

theorem string_eq_some (hv : IsValue v) (hr : StopsAt isNumberPart r) :
    string (v ++ r) = some (t, r') ↔ SpellsString t v ∧ r' = r :=
  read_eq_some (fun _ _ r h ↦ string_append h r) (fun _ _ _ ↦ exists_spellsString_of_string)
    (fun _ _ r h ↦ skipValue_string h r) hv hr

end Settings

end KeyAudit
