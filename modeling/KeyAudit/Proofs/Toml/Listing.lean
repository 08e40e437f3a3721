import KeyAudit.Proofs.Toml.Entries
import KeyAudit.Proofs.Toml.Lines
import KeyAudit.Template

namespace KeyAudit

namespace Toml

variable {c : Char} {b e r s t w : List Char} {k v : String} {ps : List (String × String)}

/-- A key and a text as its value, with blanks around the equals sign. -/
inductive SpellsPair (k v : String) : List Char → Prop
  | intro (wk b b' wv : List Char) : SpellsKey k wk → (∀ c ∈ b ++ b', isBlank c = true) →
    SpellsText v.toList wv → SpellsPair k v (wk ++ (b ++ '=' :: (b' ++ '"' :: (wv ++ ['"']))))

inductive SpellsLine : Option (String × String) → List Char → Prop
  | empty (t : List Char) : IsTrailing t → SpellsLine none t
  | pair (k v : String) (b w t : List Char) : (∀ c ∈ b, isBlank c = true) → SpellsPair k v w →
    IsTrailing t → SpellsLine (some (k, v)) (b ++ (w ++ t))

/-- A document with a line for each of the pairs, in their order, and any number of lines with none. The
last line is not ended. -/
abbrev SpellsPairs : List (String × String) → List Char → Prop := Written SpellsLine

theorem SpellsPair.starts (h : SpellsPair k v w) : ∃ c u, w = c :: u ∧ startsKey c = true := by
  cases h with
  | intro wk b b' wv hk _ _ =>
    obtain ⟨c, u, rfl, hc⟩ := hk.starts
    exact ⟨c, _, rfl, hc⟩

theorem SpellsLine.eq_none {o : Option (String × String)} (h : SpellsLine o []) : o = none := by
  generalize he : [] = w at h
  cases h with
  | empty => rfl
  | pair k v b w t hb hw ht =>
    obtain ⟨c, u, rfl, -⟩ := hw.starts
    simp at he

theorem key_append (h : SpellsKey k w) (hb : ∀ c ∈ b, isBlank c = true) (r : List Char) :
    key (w ++ (b ++ '=' :: r)) = some ([k], '=' :: r) := by
  have hread : keyParts.read (w ++ (b ++ '=' :: r)) = some (k, '=' :: r) :=
    keyPart_append (b := []) h hb (.cons rfl r) (.cons rfl r)
  rw [key, Reader.sepBy_eq, hread]
  rfl

theorem word_quotes_append (h : SpellsText t w) (hr : StopsAt (· == '"') r) :
    word ['"', '"', '"'] ('"' :: (w ++ '"' :: r)) = none := by
  have hstart (c : Char) (u : List Char) (hc : c ≠ '"') :
      word ['"', '"', '"'] ('"' :: c :: u) = none := word_eq_none_of_ne hc _ u
  cases h with
  | nil =>
    cases r with
    | nil => rfl
    | cons c r => exact word_eq_none_of_ne (ne_of_beq_false (hr c rfl)) _ r
  | cons hc _ =>
    cases hc with
    | plain _ hquote _ => exact hstart _ _ hquote
    | short | code4 | code8 => exact hstart '\\' _ (by decide)

theorem text_append (h : SpellsText t w) (hr : StopsAt (· == '"') r) :
    text ('"' :: (w ++ '"' :: r)) = some (t, r) := by
  have hliteral : word ['\'', '\'', '\''] ('"' :: (w ++ '"' :: r)) = none :=
    word_eq_none_of_ne (by decide) _ _
  rw [text, word_quotes_append h hr]
  dsimp only
  rw [hliteral]
  exact lineText_basic h r

theorem value_append (n : Nat) (h : SpellsText v.toList w) (hr : StopsAt (· == '"') r) :
    (value (n + 1)).read ('"' :: (w ++ '"' :: r)) = some (.text v, r) := by
  have hscalar : ∀ u, (value (n + 1)).read ('"' :: u) = scalar ('"' :: u) := fun _ ↦ rfl
  rw [hscalar, scalar, text_append h hr]
  simp only [String.ofList_toList]

theorem pair_append (h : SpellsPair k v w) (hr : StopsAt (· == '"') r) :
    pair (value depthLimit) (w ++ r) = some (([k], .text v), skipBlank r) := by
  cases h with
  | intro wk b b' wv hk hb hv =>
    obtain ⟨hb, hb'⟩ := List.forall_mem_append.1 hb
    have hkey := key_append hk hb (b' ++ '"' :: (wv ++ '"' :: r))
    have hback : skipBlank (b' ++ '"' :: (wv ++ '"' :: r)) = '"' :: (wv ++ '"' :: r) := by
      rw [skipBlank_append hb', skipBlank_of_stopsAt (.cons rfl _)]
    have happ : wk ++ (b ++ '=' :: (b' ++ '"' :: (wv ++ ['"']))) ++ r =
        wk ++ (b ++ '=' :: (b' ++ '"' :: (wv ++ '"' :: r))) := by simp
    simp only [happ, pair, hkey, expect_self, hback, Option.bind_eq_bind, Option.bind_some]
    rw [depthLimit, value_append 78 hv hr]
    rfl

def asPair (p : String × String) : Pair := ([p.1], .text p.2)

def asEntry (p : String × String) : String × Item := (p.1, .text p.2)

def asLine : Option (String × String) → Line
  | none => .blank
  | some p => .pair (asPair p)

theorem lineBody_append (h : SpellsPair k v w) (ht : IsTrailing t) (hr : IsRest r s) :
    lineBody (w ++ (t ++ r)) = some (asLine (some (k, v)), s) := by
  obtain ⟨c, u, hw, hc⟩ := h.starts
  have hpair := pair_append h (ht.stopsAt ⟨rfl, rfl⟩ rfl (hr.stopsAt ⟨rfl, rfl⟩))
  have hfront : skipBlank (c :: (u ++ (t ++ r))) = c :: (u ++ (t ++ r)) :=
    skipBlank_of_stopsAt (.cons (isBlank_of_startsKey hc) _)
  have hne {d : Char} (hd : startsKey d = false) : c ≠ d := ne_of_startsKey hc hd
  have hnone : lineEnd (c :: (u ++ (t ++ r))) = none := by
    rw [lineEnd, hfront, skipComment_of_ne (hne (by decide))]
    exact newline_of_ne (hne (by decide)) (hne (by decide)) _
  have hbracket (v : List Char) : word ('[' :: v) (c :: (u ++ (t ++ r))) = none :=
    word_eq_none_of_ne (hne (by decide)) _ _
  rw [hw, List.cons_append] at hpair ⊢
  rw [lineBody, hbracket, expect_of_ne (hne (by decide)), hnone]
  simp only [pairLine, hpair, Option.bind_eq_bind, Option.bind_some, lineEnd_skipBlank,
    lineEnd_append ht hr]
  rfl

theorem line_append {o : Option (String × String)} (h : SpellsLine o w) (hr : IsRest r s)
    (hne : w ++ r ≠ []) : line (w ++ r) = some (asLine o, s) := by
  rw [line, if_neg hne]
  cases h with
  | empty _ ht =>
    apply lineBody_of_lineEnd
    rw [lineEnd_skipBlank, lineEnd_append ht hr]
  | pair k v b w t hb hw ht =>
    obtain ⟨c, u, he, hc⟩ := hw.starts
    have hfront : skipBlank (b ++ (w ++ t) ++ r) = w ++ (t ++ r) := by
      rw [List.append_assoc, List.append_assoc, skipBlank_append hb, he]
      exact skipBlank_of_stopsAt (.cons (isBlank_of_startsKey hc) _)
    rw [hfront]
    exact lineBody_append hw ht hr

theorem SpellsLine.stopsAt_mark {o : Option (String × String)} (h : SpellsLine o w)
    (hr : StopsAt (· == '\uFEFF') r) : StopsAt (· == '\uFEFF') (w ++ r) := by
  cases h with
  | empty _ ht => exact ht.stopsAt ⟨rfl, rfl⟩ rfl hr
  | pair k v b w t hb hw _ =>
    obtain ⟨c, u, rfl, hc⟩ := hw.starts
    have hmark : (c == '\uFEFF') = false := beq_false_of_ne (ne_of_startsKey hc (by decide))
    rw [List.append_assoc]
    refine stopsAt_append_of_blank ⟨rfl, rfl⟩ hb ?_
    exact StopsAt.cons (p := (· == '\uFEFF')) hmark _

theorem isLineSpelling_spellsLine : IsLineSpelling SpellsLine asLine where
  blank := rfl
  eq_none := SpellsLine.eq_none
  read := line_append
  stopsAt_mark := SpellsLine.stopsAt_mark

theorem dropMark_of_spellsPairs (h : SpellsPairs ps s) : Document.dropMark s = s :=
  Written.dropMark isLineSpelling_spellsLine h

theorem ofLines_pairs (ps : List (String × String)) :
    Document.ofLines (ps.map fun p ↦ asLine (some p)) = ⟨ps.map asPair, []⟩ := by
  induction ps with
  | nil => rfl
  | cons p ps ih => exact congrArg (Document.before (asLine (some p))) ih

theorem exists_spellsLine (p : String × String) : ∃ w, SpellsLine (some p) w := by
  have hblank : ∀ c ∈ ([] : List Char), isBlank c = true := nofun
  obtain ⟨wk, hk⟩ := exists_spellsText p.1.toList
  obtain ⟨wv, hv⟩ := exists_spellsText p.2.toList
  exact ⟨_, .pair p.1 p.2 [] _ [] hblank (.intro _ [] [] wv (.basic wk hk) hblank hv) (.blank [] hblank)⟩

theorem exists_spellsPairs (ps : List (String × String)) : ∃ s, SpellsPairs ps s :=
  exists_written (.empty [] isTrailing_nil) exists_spellsLine ps

namespace Entries

variable {es : Entries} {item : Item}

theorem addPair_of_notMem (h : k ∉ es.keys) : es.addPair ([k], item) = some (es ++ [(k, item)]) := by
  have hl : es.lookup k = none := lookup_eq_none.2 h
  simp only [addPair, change, Bool.not_true, Bool.and_false, Bool.false_eq_true, if_false, hl,
    Option.isSome_none]

theorem addPair_of_mem (h : k ∈ es.keys) : es.addPair ([k], item) = none := by
  have hl : (es.lookup k).isSome = true := by
    rw [Option.isSome_iff_ne_none, Ne, lookup_eq_none]
    exact not_not_intro h
  simp only [addPair, change, Bool.not_true, Bool.and_false, Bool.false_eq_true, if_false, hl, if_true]

theorem addPairs_eq_some {es' : Entries} (hes : es.keys.Nodup) :
    es.addPairs (ps.map asPair) = some es' ↔
      (es.keys ++ ps.map Prod.fst).Nodup ∧ es' = es ++ ps.map asEntry := by
  induction ps generalizing es with
  | nil =>
    rw [List.map_nil, List.map_nil, List.map_nil, List.append_nil, List.append_nil, and_iff_right hes]
    exact Option.some_inj.trans eq_comm
  | cons p ps ih =>
    rw [addPairs, List.map_cons, List.foldlM_cons, asPair]
    by_cases hp : p.1 ∈ es.keys
    · rw [addPair_of_mem hp]
      refine iff_of_false nofun ?_
      intro h
      exact (List.nodup_append.1 h.1).2.2 p.1 hp p.1 List.mem_cons_self rfl
    · have hkeys : keys (es ++ [asEntry p]) = es.keys ++ [p.1] := keys_append_singleton _ _ _
      have hnodup : (keys (es ++ [asEntry p])).Nodup := hkeys ▸ List.concat_eq_append ▸ hes.concat hp
      have hpairs := ih hnodup
      rw [hkeys, List.append_assoc, List.append_assoc] at hpairs
      rw [addPair_of_notMem hp]
      exact hpairs

theorem areSoundEntries_texts (ps : List (String × String)) :
    areSoundEntries (ps.map asEntry) = true := by
  induction ps with
  | nil => rfl
  | cons p ps ih => exact ih

end Entries

end Toml

namespace Template

open Toml

variable {ps : List (String × String)} {s : List Char}

theorem ofToml?_of_spellsPairs (hnodup : (ps.map Prod.fst).Nodup) (hs : SpellsPairs ps s)
    {content : String} (hc : Document.dropMark content.toList = s) :
    ofToml? content = some ⟨ps.map Prod.fst⟩ := by
  have hread := Written.ofText? isLineSpelling_spellsLine hs hc
  have hentries : (Document.mk (ps.map asPair) []).entries? = some (ps.map asEntry) := by
    have hnil : (Entries.keys []).Nodup := .nil
    have hadd : Entries.addPairs [] (ps.map asPair) = some ([] ++ ps.map asEntry) :=
      (Entries.addPairs_eq_some hnil).2 ⟨hnodup, rfl⟩
    simp only [Document.entries?, hadd, List.nil_append, Option.bind_some, List.foldlM_nil]
    rfl
  rw [ofLines_pairs] at hread
  rw [ofToml?, hread, Option.bind_some, hentries]
  simp only [Entries.areSoundEntries_texts, if_true, List.map_map]
  rfl

/-- Keys that differ from each other are read back from a document with a line for each of them, in
their order. It does not matter how the keys and the texts under them are written, what blanks, comments
and empty lines there are, how lines are ended, and whether there is a byte order mark. Such a document
can be written for all keys and texts. -/
theorem ofToml?_written (ps : List (String × String)) (hnodup : (ps.map Prod.fst).Nodup) :
    (∃ s, SpellsPairs ps s) ∧ ∀ s, SpellsPairs ps s →
      ofToml? (String.ofList s) = some ⟨ps.map Prod.fst⟩ ∧
      ofToml? (String.ofList ('\uFEFF' :: s)) = some ⟨ps.map Prod.fst⟩ := by
  refine ⟨exists_spellsPairs ps, fun s hs ↦ ⟨?_, ?_⟩⟩
  · apply ofToml?_of_spellsPairs hnodup hs
    rw [String.toList_ofList, dropMark_of_spellsPairs hs]
  · apply ofToml?_of_spellsPairs hnodup hs
    rw [String.toList_ofList]
    rfl

def mixedListing : String :=
  "\uFEFF#k\r\n a-1\t= \"x\" #=\n\r\n'b\"'=\"\"\r\n\"\\u00E9\\t\" = \"\\U0001f600\""

theorem ofToml?_mixedListing :
    ["a-1", "b\"", "é\t"].Nodup ∧
    (∃ s, SpellsPairs [("a-1", "x"), ("b\"", ""), ("é\t", "😀")] s ∧
      mixedListing = String.ofList ('\uFEFF' :: s)) ∧
    ofToml? mixedListing = some ⟨["a-1", "b\"", "é\t"]⟩ := by
  have hx : SpellsText ['x'] ['x'] := .cons (.plain rfl (by decide) (by decide)) .nil
  have hé : SpellsText ['é', '\t'] ['\\', 'u', '0', '0', 'E', '9', '\\', 't'] :=
    .cons (.code4 _ ⟨rfl, [0, 0, 14, 9], .cons (.inl rfl) (.cons (.inl rfl) (.cons (.inr rfl)
      (.cons (.inl rfl) .nil))), by decide⟩) (.cons (.short 't' (by decide)) .nil)
  have hface : SpellsText ['😀'] ['\\', 'U', '0', '0', '0', '1', 'f', '6', '0', '0'] :=
    .cons (.code8 _ ⟨rfl, [0, 0, 0, 1, 15, 6, 0, 0], .cons (.inl rfl) (.cons (.inl rfl) (.cons (.inl rfl)
      (.cons (.inl rfl) (.cons (.inl rfl) (.cons (.inl rfl) (.cons (.inl rfl) (.cons (.inl rfl)
      .nil))))))), by decide⟩) .nil
  have hquoted : ∀ c ∈ "b\"".toList, (isLegal c && c != '\'') = true := List.all_eq_true.1 rfl
  have hkey : SpellsKey "b\"" _ := .literal fun c hc ↦ by simpa using hquoted c hc
  have h₃ : SpellsPairs [("é\t", "😀")] _ :=
    .last (some _) _ (.pair _ _ [] _ [] nofun
      (.intro _ [' '] [' '] _ (.basic _ hé) (List.all_eq_true.1 rfl) hface) (.blank [] nofun))
  have h₂ : SpellsPairs [("b\"", ""), ("é\t", "😀")] _ :=
    .cons (some _) _ _ _ _ (.pair _ _ [] _ [] nofun (.intro _ [] [] _ hkey nofun .nil)
      (.blank [] nofun)) .returnLineFeed h₃
  have h₁ := Written.cons none _ _ _ _ (.empty _ (.blank [] nofun)) .returnLineFeed h₂
  have h₀ := Written.cons (some _) _ _ _ _
    (.pair "a-1" "x" [' '] _ [' ', '#', '='] (List.all_eq_true.1 rfl)
      (.intro _ ['\t'] [' '] _ (.bare (by decide) (List.all_eq_true.1 rfl)) (List.all_eq_true.1 rfl) hx)
      (.comment [' '] ['='] (List.all_eq_true.1 rfl) (List.all_eq_true.1 rfl))) .lineFeed h₁
  have h := Written.cons none _ _ _ _
    (.empty _ (.comment [] ['k'] nofun (List.all_eq_true.1 rfl))) .returnLineFeed h₀
  have hnodup : ["a-1", "b\"", "é\t"].Nodup := by decide
  refine ⟨hnodup, ⟨_, h, by decide⟩, ?_⟩
  exact ((ofToml?_written [("a-1", "x"), ("b\"", ""), ("é\t", "😀")] hnodup).2 _ h).2

end Template

end KeyAudit
