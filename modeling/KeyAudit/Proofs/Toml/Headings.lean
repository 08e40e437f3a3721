import KeyAudit.Proofs.Toml.Redefinition

namespace KeyAudit

namespace Toml

variable {b r s t w : List Char} {k : String} {path : List String} {h : Heading}

inductive SpellsPath : List String → List Char → Prop
  | last (k : String) (b w b' : List Char) : SpellsKey k w → (∀ c ∈ b ++ b', isBlank c = true) →
    SpellsPath [k] (b ++ (w ++ b'))
  | cons (k : String) (b w b' : List Char) (path : List String) (s : List Char) : SpellsKey k w →
    (∀ c ∈ b ++ b', isBlank c = true) → SpellsPath path s →
    SpellsPath (k :: path) (b ++ (w ++ (b' ++ '.' :: s)))

def HeaderKind.opening : HeaderKind → List Char
  | .table => ['[']
  | .element => ['[', '[']

def HeaderKind.closing : HeaderKind → List Char
  | .table => [']']
  | .element => [']', ']']

/-- A header in its brackets. -/
inductive SpellsHeading (h : Heading) : List Char → Prop
  | intro (w : List Char) : SpellsPath h.path w →
    SpellsHeading h (h.kind.opening ++ (w ++ h.kind.closing))

/-- A line with a pair on it, or with a header, or with neither. -/
inductive SpellsStatement : Option ((String × String) ⊕ Heading) → List Char → Prop
  | line (o : Option (String × String)) (w : List Char) : SpellsLine o w →
    SpellsStatement (o.map .inl) w
  | heading (h : Heading) (b w t : List Char) : (∀ c ∈ b, isBlank c = true) → SpellsHeading h w →
    IsTrailing t → SpellsStatement (some (.inr h)) (b ++ (w ++ t))

/-- A document with the pairs, in their order, and then the headers. -/
def SpellsDocument (ps : List (String × String)) (hs : List Heading) (s : List Char) : Prop :=
  Written SpellsStatement (ps.map .inl ++ hs.map .inr) s

theorem SpellsPath.single (hk : SpellsKey k w) : SpellsPath [k] w := by
  simpa using SpellsPath.last k [] w [] hk (List.forall_mem_nil _)

theorem SpellsPath.dot (hk : SpellsKey k w) (hs : SpellsPath path s) :
    SpellsPath (k :: path) (w ++ '.' :: s) := by
  simpa using SpellsPath.cons k [] w [] path s hk (List.forall_mem_nil _) hs

theorem SpellsHeading.statement (h' : SpellsHeading h w) (ht : IsTrailing t) :
    SpellsStatement (some (.inr h)) (w ++ t) :=
  .heading h [] w t (List.forall_mem_nil _) h' ht

theorem SpellsHeading.alone (h' : SpellsHeading h w) : SpellsStatement (some (.inr h)) w := by
  simpa using h'.statement isTrailing_nil

theorem spellsStatement_nil : SpellsStatement none [] := .line none [] (.empty [] isTrailing_nil)

theorem SpellsPath.starts (h : SpellsPath path w) (r : List Char) :
    StopsAt (· == '[') (w ++ r) := by
  have hkey {k : String} {w : List Char} (hk : SpellsKey k w) (r : List Char) :
      StopsAt (· == '[') (w ++ r) := by
    obtain ⟨c, u, rfl, hc⟩ := hk.starts
    have hne : c ≠ '[' := ne_of_startsKey hc (by decide)
    exact StopsAt.cons (p := (· == '[')) (beq_false_of_ne hne) _
  cases h with
  | last k b w b' hk hb =>
    rw [List.append_assoc, List.append_assoc]
    exact stopsAt_append_of_blank ⟨rfl, rfl⟩ (List.forall_mem_append.1 hb).1 (hkey hk _)
  | cons k b w b' path s hk hb _ =>
    rw [List.append_assoc, List.append_assoc]
    exact stopsAt_append_of_blank ⟨rfl, rfl⟩ (List.forall_mem_append.1 hb).1 (hkey hk _)

theorem sepBy_path (h : SpellsPath path w) (r : List Char) :
    keyParts.sepBy '.' (w ++ ']' :: r) = some (path, ']' :: r) := by
  induction h with
  | last k b w b' hk hb =>
    have hread : keyParts.read (b ++ (w ++ (b' ++ ']' :: r))) = some (k, ']' :: r) :=
      keyPart_append hk hb (.cons rfl r) (.cons rfl r)
    rw [List.append_assoc, List.append_assoc, Reader.sepBy_eq, hread]
    rfl
  | cons k b w b' path s hk hb _ ih =>
    have hread : keyParts.read (b ++ (w ++ (b' ++ '.' :: (s ++ ']' :: r)))) =
        some (k, '.' :: (s ++ ']' :: r)) := keyPart_append hk hb (.cons rfl _) (.cons rfl _)
    simp only [List.append_assoc, List.cons_append]
    rw [Reader.sepBy_eq, hread]
    simp only [Option.bind_some, if_true, ih]

theorem length_path_le (h : Heading) : h.path.length ≤ depthLimit := by
  obtain ⟨k, form⟩ := h
  cases form with
  | table | element => exact Nat.le_of_ble_eq_true rfl
  | inner m => exact Nat.le_of_ble_eq_true rfl

theorem headerTail_append (h' : SpellsPath h.path w) (ht : IsTrailing t) (hr : IsRest r s)
    (kind : HeaderKind) : headerTail kind kind.closing (w ++ (kind.closing ++ (t ++ r))) =
      some (.header kind h.path, s) := by
  have hkey : key (w ++ (kind.closing ++ (t ++ r))) = some (h.path, kind.closing ++ (t ++ r)) := by
    cases kind <;> simp [key, HeaderKind.closing, sepBy_path h', length_path_le]
  simp only [headerTail, hkey, word_append, Option.bind_eq_bind, Option.bind_some,
    lineEnd_append ht hr]
  rfl

theorem lineBody_table (hs : StopsAt (· == '[') s) :
    lineBody ('[' :: s) = headerTail .table [']'] s := by
  have hword : word ['[', '['] ('[' :: s) = none := by
    cases s with
    | nil => rfl
    | cons c s => exact word_eq_none_of_ne (ne_of_beq_false (hs c rfl)) _ s
  rw [lineBody, hword, expect_self]

theorem lineBody_heading (h' : SpellsHeading h w) (ht : IsTrailing t) (hr : IsRest r s) :
    lineBody (w ++ (t ++ r)) = some (.header h.kind h.path, s) := by
  cases h' with
  | intro w hw =>
    have htail := headerTail_append hw ht hr h.kind
    have hassoc : h.kind.opening ++ (w ++ h.kind.closing) ++ (t ++ r) =
        h.kind.opening ++ (w ++ (h.kind.closing ++ (t ++ r))) := by simp
    rw [hassoc]
    cases hk : h.kind with
    | element =>
      rw [hk] at htail
      exact htail
    | table =>
      rw [hk] at htail
      exact (lineBody_table (hw.starts _)).trans htail

def statementLine : Option ((String × String) ⊕ Heading) → Line
  | none => .blank
  | some (.inl p) => .pair (asPair p)
  | some (.inr h) => .header h.kind h.path

theorem SpellsHeading.starts (h' : SpellsHeading h w) : ∃ u, w = '[' :: u := by
  cases h' with
  | intro w hw => cases h.kind <;> exact ⟨_, rfl⟩

theorem isLineSpelling_spellsStatement : IsLineSpelling SpellsStatement statementLine where
  blank := rfl
  eq_none {o} h := by
    generalize he : [] = w at h
    cases h with
    | line o w hw =>
      subst he
      rw [hw.eq_none]
      rfl
    | heading h b w t hb hw ht =>
      obtain ⟨u, rfl⟩ := hw.starts
      simp at he
  read {o w r s} h hr hne := by
    cases h with
    | line o w hw =>
      rw [line_append hw hr hne]
      cases o <;> rfl
    | heading h b w t hb hw ht =>
      obtain ⟨u, he⟩ := hw.starts
      have hfront : skipBlank (b ++ (w ++ t) ++ r) = w ++ (t ++ r) := by
        rw [List.append_assoc, List.append_assoc, skipBlank_append hb, he]
        exact skipBlank_of_stopsAt (.cons rfl _)
      rw [line, if_neg hne, hfront]
      exact lineBody_heading hw ht hr
  stopsAt_mark {o w r} h hr := by
    cases h with
    | line o w hw => exact hw.stopsAt_mark hr
    | heading h b w t hb hw ht =>
      obtain ⟨u, rfl⟩ := hw.starts
      rw [List.append_assoc]
      exact stopsAt_append_of_blank ⟨rfl, rfl⟩ hb (.cons rfl _)

theorem ofLines_statements (ps : List (String × String)) (hs : List Heading) :
    Document.ofLines ((ps.map Sum.inl ++ hs.map Sum.inr).map fun a ↦ statementLine (some a)) =
      listingOf ps hs := by
  rw [List.map_append, List.map_map, List.map_map]
  induction ps with
  | nil =>
    induction hs with
    | nil => rfl
    | cons h hs ih => exact congrArg (Document.before (.header h.kind h.path)) ih
  | cons p ps ih => exact congrArg (Document.before (.pair (asPair p))) ih

theorem exists_spellsStatement (a : (String × String) ⊕ Heading) :
    ∃ w, SpellsStatement (some a) w := by
  have hkey (k : String) : ∃ w, SpellsKey k w := by
    obtain ⟨w, hw⟩ := exists_spellsText k.toList
    exact ⟨_, .basic w hw⟩
  cases a with
  | inl p =>
    obtain ⟨w, hw⟩ := exists_spellsLine p
    exact ⟨w, .line (some p) w hw⟩
  | inr h =>
    have hpath : ∃ w, SpellsPath h.path w := by
      obtain ⟨k, form⟩ := h
      obtain ⟨wk, hk⟩ := hkey k
      cases form with
      | table | element => exact ⟨wk, .single hk⟩
      | inner m =>
        obtain ⟨wm, hm⟩ := hkey m
        exact ⟨_, .dot hk (.single hm)⟩
    obtain ⟨w, hw⟩ := hpath
    exact ⟨_, SpellsHeading.alone (.intro w hw)⟩

end Toml

namespace Template

open Toml

variable {ps : List (String × String)} {hs : List Heading} {s : List Char}

theorem exists_ofToml?_iff (h : SpellsDocument ps hs s) :
    (∃ t, ofToml? (String.ofList s) = some t) ↔
      Consistent ps hs ∧ ∀ k, Form.IsUnreserved (Heading.under k hs) := by
  have hmark : Document.dropMark (String.ofList s).toList = s := by
    rw [String.toList_ofList]
    exact Written.dropMark isLineSpelling_spellsStatement h
  have hread : Document.ofText? (String.ofList s).toList = some (listingOf ps hs) := by
    rw [Written.ofText? isLineSpelling_spellsStatement h hmark, ofLines_statements]
  rw [ofToml?, hread, Option.bind_some, ← exists_entries?_listingOf]
  cases (listingOf ps hs).entries? with
  | none => simp
  | some es => cases areSoundEntries es <;> simp

/-- A document of pairs and headers, however it is written, is a template exactly if its pairs and headers
are consistent and the key that marks a moment is not the first one in any table that they open. There
are such documents for all pairs and headers. -/
theorem ofToml?_headings (ps : List (String × String)) (hs : List Heading) :
    (∃ s, SpellsDocument ps hs s) ∧ ∀ s, SpellsDocument ps hs s →
      ((∃ t, ofToml? (String.ofList s) = some t) ↔
        Consistent ps hs ∧ ∀ k, Form.IsUnreserved (Heading.under k hs)) := by
  exact ⟨exists_written spellsStatement_nil exists_spellsStatement _, fun s ↦ exists_ofToml?_iff⟩

def reopenedListing : String := "x = \"v\"\n[b.m]\r\n[[a]]\n[a.m]\n[ b ] # again\n[[a]]\n[a . m]"

def reopenedHeadings : List Heading :=
  [⟨"b", .inner "m"⟩, ⟨"a", .element⟩, ⟨"a", .inner "m"⟩, ⟨"b", .table⟩, ⟨"a", .element⟩,
    ⟨"a", .inner "m"⟩]

theorem ofToml?_reopenedListing :
    (∃ s, SpellsDocument [("x", "v")] reopenedHeadings s ∧ reopenedListing = String.ofList s) ∧
    ∃ t, ofToml? reopenedListing = some t := by
  have hx : SpellsKey "x" "x".toList := .bare (by decide) (List.all_eq_true.1 rfl)
  have ha : SpellsKey "a" "a".toList := .bare (by decide) (List.all_eq_true.1 rfl)
  have hb : SpellsKey "b" "b".toList := .bare (by decide) (List.all_eq_true.1 rfl)
  have hm : SpellsKey "m" "m".toList := .bare (by decide) (List.all_eq_true.1 rfl)
  have hv : SpellsText ['v'] ['v'] := .cons (.plain rfl (by decide) (by decide)) .nil
  have hpair : SpellsStatement (some (.inl ("x", "v"))) _ := .line (some _) _ (.pair _ _ [] _ []
    (List.forall_mem_nil _) (.intro _ [' '] [' '] _ hx (List.all_eq_true.1 rfl) hv) isTrailing_nil)
  have hbm : SpellsHeading ⟨"b", .inner "m"⟩ _ := .intro _ (.dot hb (.single hm))
  have helement : SpellsHeading ⟨"a", .element⟩ _ := .intro _ (.single ha)
  have ham : SpellsHeading ⟨"a", .inner "m"⟩ _ := .intro _ (.dot ha (.single hm))
  have hspaced : SpellsHeading ⟨"a", .inner "m"⟩ _ := .intro _ (.cons _ [] _ [' '] _ _ ha
    (List.all_eq_true.1 rfl) (.last _ [' '] _ [] hm (List.all_eq_true.1 rfl)))
  have htable : SpellsHeading ⟨"b", .table⟩ _ :=
    .intro _ (.last _ [' '] _ [' '] hb (List.all_eq_true.1 rfl))
  have hagain : IsTrailing " # again".toList :=
    .comment [' '] " again".toList (List.all_eq_true.1 rfl) (List.all_eq_true.1 rfl)
  have h₆ := Written.last (some _) _ hspaced.alone
  have h₅ := Written.cons (some _) _ _ _ _ helement.alone .lineFeed h₆
  have h₄ := Written.cons (some _) _ _ _ _ (htable.statement hagain) .lineFeed h₅
  have h₃ := Written.cons (some _) _ _ _ _ ham.alone .lineFeed h₄
  have h₂ := Written.cons (some _) _ _ _ _ helement.alone .lineFeed h₃
  have h₁ := Written.cons (some _) _ _ _ _ hbm.alone .returnLineFeed h₂
  have h : SpellsDocument [("x", "v")] reopenedHeadings _ :=
    Written.cons (some _) _ _ _ _ hpair .lineFeed h₁
  have hfree := (Heading.forall_under isUnreserved_nil reopenedHeadings).2 (by decide)
  refine ⟨⟨_, h, by decide⟩, ?_⟩
  exact ((ofToml?_headings _ _).2 _ h).2 ⟨by decide, hfree⟩

def reservedListing : String := "[a.\"$__toml_private_datetime\"]\n"

/-- One header, which agrees with everything, but the table that it opens starts with the key that marks a
moment. -/
theorem ofToml?_reservedListing :
    (∃ s, SpellsDocument [] [⟨"a", .inner momentKey⟩] s ∧ reservedListing = String.ofList s) ∧
    Consistent [] [⟨"a", .inner momentKey⟩] ∧ ofToml? reservedListing = none := by
  have ha : SpellsKey "a" "a".toList := .bare (by decide) (List.all_eq_true.1 rfl)
  have hplain : SpellsText momentKey.toList momentKey.toList :=
    spellsText_plain (by simp [momentKey, isLegal])
  have hheading : SpellsHeading ⟨"a", .inner momentKey⟩ _ :=
    .intro _ (.dot ha (.single (.basic _ hplain)))
  have h : SpellsDocument [] [⟨"a", .inner momentKey⟩] _ :=
    .cons (some _) _ _ _ _ hheading.alone .lineFeed (.last none [] spellsStatement_nil)
  exact ⟨⟨_, h, by decide⟩, by decide, by decide +kernel⟩

end Template

end KeyAudit
