import KeyAudit.Toml.Key
import Mathlib.Data.List.Forall2
import Mathlib.Data.Nat.Digits.Defs

namespace KeyAudit.Toml

open Text

variable {c : Char} {cs t w done rest : List Char} {k : String} {v n : Nat} {vs : List Nat}

def IsHexDigit (c : Char) (v : Nat) : Prop :=
  "0123456789abcdef".toList[v]? = some c ∨ "0123456789ABCDEF".toList[v]? = some c

def SpellsCode (n : Nat) (c : Char) (cs : List Char) : Prop :=
  cs.length = n ∧ ∃ vs, List.Forall₂ IsHexDigit cs vs ∧ Nat.ofDigits 16 vs.reverse = c.toNat

def shortEscapes : List (Char × Char) :=
  [('"', '"'), ('\\', '\\'), ('b', '\x08'), ('t', '\t'), ('n', '\n'), ('f', '\x0C'), ('r', '\r')]

/-- The ways in which a character may be written between double quotes. -/
inductive SpellsChar (c : Char) : List Char → Prop
  | plain : isLegal c = true → c ≠ '"' → c ≠ '\\' → SpellsChar c [c]
  | short (e : Char) : (e, c) ∈ shortEscapes → SpellsChar c ['\\', e]
  | code4 (cs : List Char) : SpellsCode 4 c cs → SpellsChar c ('\\' :: 'u' :: cs)
  | code8 (cs : List Char) : SpellsCode 8 c cs → SpellsChar c ('\\' :: 'U' :: cs)

inductive SpellsText : List Char → List Char → Prop
  | nil : SpellsText [] []
  | cons {c : Char} {w t ws : List Char} :
      SpellsChar c w → SpellsText t ws → SpellsText (c :: t) (w ++ ws)

/-- The ways in which a key may be written: as it is, between single quotes, and between double quotes. -/
inductive SpellsKey (k : String) : List Char → Prop
  | bare : k.toList ≠ [] → (∀ c ∈ k.toList, isBare c = true) → SpellsKey k k.toList
  | literal : (∀ c ∈ k.toList, isLegal c = true ∧ c ≠ '\'') →
      SpellsKey k ('\'' :: (k.toList ++ ['\'']))
  | basic (w : List Char) : SpellsText k.toList w → SpellsKey k ('"' :: (w ++ ['"']))

theorem hexDigit?_of_isHexDigit (h : IsHexDigit c v) : hexDigit? c = some v := by
  have hlow : ∀ p ∈ "0123456789abcdef".toList.zipIdx, hexDigit? p.1 = some p.2 := by decide
  have hup : ∀ p ∈ "0123456789ABCDEF".toList.zipIdx, hexDigit? p.1 = some p.2 := by decide
  rcases h with h | h
  · exact hlow (c, v) (List.mk_mem_zipIdx_iff_getElem?.2 h)
  · exact hup (c, v) (List.mk_mem_zipIdx_iff_getElem?.2 h)

theorem hexFrom_of_isHexDigit (h : List.Forall₂ IsHexDigit cs vs) (n : Nat) :
    hexFrom n cs = some (n * 16 ^ cs.length + Nat.ofDigits 16 vs.reverse) := by
  induction h generalizing n with
  | nil => simp [hexFrom]
  | @cons c v cs vs hc hcs ih =>
    rw [hexFrom, hexDigit?_of_isHexDigit hc, Option.bind_some, ih, Nat.ofDigits_reverse_cons,
      List.length_cons, hcs.length_eq]
    congr 1
    ring

theorem scalar?_toNat (c : Char) : scalar? c.toNat = some c := by
  have hv : c.toNat.isValidChar := c.valid
  rw [scalar?, dif_pos hv]
  rfl

theorem codePoint_append (h : SpellsCode n c cs) (rest : List Char) :
    codePoint n (cs ++ rest) = some (c, rest) := by
  obtain ⟨rfl, vs, hvs, hv⟩ := h
  have hlen : cs.length ≤ (cs ++ rest).length := by simp
  have hval : hexValue cs = some c.toNat := by
    rw [hexValue, hexFrom_of_isHexDigit hvs, hv, Nat.zero_mul, Nat.zero_add]
  rw [codePoint, if_pos hlen, List.take_left, List.drop_left, hval, Option.bind_some, scalar?_toNat]
  rfl

theorem escape_short {e : Char} (h : (e, c) ∈ shortEscapes) (rest : List Char) :
    escape (e :: rest) = some (c, rest) := by
  simp only [shortEscapes, List.mem_cons, Prod.mk.injEq, List.not_mem_nil, or_false] at h
  rcases h with h | h | h | h | h | h | h <;> obtain ⟨rfl, rfl⟩ := h <;> rfl

theorem basicFrom_escape {s : List Char} (h : escape s = some (c, rest)) (done : List Char) :
    basicFrom done ('\\' :: s) = basicFrom (c :: done) rest := by
  rw [basicFrom, if_neg (by decide), if_pos rfl]
  split
  · rename_i hs
    cases h.symm.trans hs
    rfl
  · rename_i hs
    cases h.symm.trans hs

theorem basicFrom_char (h : SpellsChar c w) (done rest : List Char) :
    basicFrom done (w ++ rest) = basicFrom (c :: done) rest := by
  cases h with
  | plain hl hq hb =>
    rw [List.singleton_append, basicFrom, if_neg hq, if_neg hb, if_pos hl]
  | short e he => exact basicFrom_escape (escape_short he rest) done
  | code4 cs hcs =>
    have he : escape ('u' :: cs ++ rest) = some (c, rest) := codePoint_append hcs rest
    exact basicFrom_escape he done
  | code8 cs hcs =>
    have he : escape ('U' :: cs ++ rest) = some (c, rest) := codePoint_append hcs rest
    exact basicFrom_escape he done

/-- However a text is written between double quotes, it is read as the text. -/
theorem basicFrom_append (h : SpellsText t w) (done rest : List Char) :
    basicFrom done (w ++ '"' :: rest) = some (done.reverse ++ t, rest) := by
  induction h generalizing done with
  | nil => rw [List.nil_append, basicFrom, if_pos rfl, List.append_nil]
  | @cons c w t ws hc _ ih =>
    rw [List.append_assoc, basicFrom_char hc, ih, List.reverse_cons, List.append_assoc,
      List.singleton_append]

theorem literalFrom_append (h : ∀ c ∈ t, isLegal c = true ∧ c ≠ '\'') (done rest : List Char) :
    literalFrom done (t ++ '\'' :: rest) = some (done.reverse ++ t, rest) := by
  induction t generalizing done with
  | nil => rw [List.nil_append, literalFrom, if_pos rfl, List.append_nil]
  | cons c t ih =>
    obtain ⟨⟨hl, hq⟩, ht⟩ := List.forall_mem_cons.1 h
    rw [List.cons_append, literalFrom, if_neg hq, if_pos hl, ih ht, List.reverse_cons,
      List.append_assoc, List.singleton_append]

def StopsAt (p : Char → Bool) (s : List Char) : Prop := ∀ c ∈ s.head?, p c = false

theorem StopsAt.cons {p : Char → Bool} (h : p c = false) (s : List Char) : StopsAt p (c :: s) := by
  intro d hd
  obtain rfl := Option.some.inj hd
  exact h

theorem takeWhile_append_of_stopsAt {p : Char → Bool} (h : ∀ c ∈ t, p c = true)
    (hr : StopsAt p rest) : (t ++ rest).takeWhile p = t := by
  rw [List.takeWhile_append_of_pos h]
  cases rest with
  | nil => simp
  | cons c rest => rw [List.takeWhile_cons_of_neg (by simp [hr c rfl]), List.append_nil]

theorem dropWhile_append_of_stopsAt {p : Char → Bool} (h : ∀ c ∈ t, p c = true)
    (hr : StopsAt p rest) : (t ++ rest).dropWhile p = rest := by
  rw [List.dropWhile_append_of_pos h]
  cases rest with
  | nil => rfl
  | cons c rest => rw [List.dropWhile_cons_of_neg (by simp [hr c rfl])]

theorem bareKey_append (hne : t ≠ []) (h : ∀ c ∈ t, isBare c = true) (hr : StopsAt isBare rest) :
    bareKey (t ++ rest) = some (t, rest) := by
  rw [bareKey, takeWhile_append_of_stopsAt h hr, dropWhile_append_of_stopsAt h hr, if_neg hne]

theorem lineText_basic (h : SpellsText t w) (rest : List Char) :
    lineText ('"' :: (w ++ '"' :: rest)) = some (t, rest) := by
  rw [lineText, expect_self, Option.bind_some, basicFrom_append h]
  rfl

theorem lineText_literal (h : ∀ c ∈ t, isLegal c = true ∧ c ≠ '\'') (rest : List Char) :
    lineText ('\'' :: (t ++ '\'' :: rest)) = some (t, rest) := by
  rw [lineText, expect_self, expect_of_ne (by decide), Option.bind_some, literalFrom_append h]
  rfl

theorem lineText_of_isBare (h : isBare c = true) (s : List Char) : lineText (c :: s) = none := by
  have hbasic : c ≠ '"' := fun he ↦ absurd (he ▸ h) (by decide)
  have hliteral : c ≠ '\'' := fun he ↦ absurd (he ▸ h) (by decide)
  rw [lineText, expect_of_ne hbasic, expect_of_ne hliteral]
  rfl

theorem simpleKey_append (h : SpellsKey k w) (hr : StopsAt isBare rest) :
    simpleKey (w ++ rest) = some (k.toList, rest) := by
  cases h with
  | bare hne hk =>
    obtain ⟨c, t, ht⟩ := List.exists_cons_of_ne_nil hne
    have hnone : lineText (k.toList ++ rest) = none := by
      rw [ht, List.cons_append]
      exact lineText_of_isBare (hk c (ht ▸ List.mem_cons_self)) _
    rw [simpleKey, hnone, Option.none_or, bareKey_append hne hk hr]
  | literal hk =>
    rw [List.cons_append, List.append_assoc, List.singleton_append, simpleKey, lineText_literal hk]
    rfl
  | basic w hw =>
    rw [List.cons_append, List.append_assoc, List.singleton_append, simpleKey, lineText_basic hw]
    rfl

def startsKey (c : Char) : Bool := isBare c || c == '"' || c == '\''

theorem SpellsKey.starts (h : SpellsKey k w) : ∃ c t, w = c :: t ∧ startsKey c = true := by
  cases h with
  | bare hne hk =>
    obtain ⟨c, t, ht⟩ := List.exists_cons_of_ne_nil hne
    exact ⟨c, t, ht, by simp [startsKey, hk c (ht ▸ List.mem_cons_self)]⟩
  | literal hk => exact ⟨_, _, rfl, rfl⟩
  | basic w hw => exact ⟨_, _, rfl, rfl⟩

theorem spellsText_plain (h : ∀ c ∈ t, isLegal c = true ∧ c ≠ '"' ∧ c ≠ '\\') : SpellsText t t := by
  induction t with
  | nil => exact .nil
  | cons c t ih =>
    obtain ⟨⟨hl, hq, hb⟩, ht⟩ := List.forall_mem_cons.1 h
    exact .cons (.plain hl hq hb) (ih ht)

theorem exists_spellsChar (c : Char) : ∃ w, SpellsChar c w := by
  by_cases hplain : isLegal c = true ∧ c ≠ '"' ∧ c ≠ '\\'
  · exact ⟨_, .plain hplain.1 hplain.2.1 hplain.2.2⟩
  have hlt : c.toNat < 0x80 := by
    by_contra hge
    apply hplain
    refine ⟨?_, ?_, ?_⟩
    · simp only [isLegal, Bool.or_eq_true, Bool.and_eq_true, decide_eq_true_eq, bne_iff_ne]
      omega
    · rintro rfl
      exact hge (by decide)
    · rintro rfl
      exact hge (by decide)
  have hdigit : ∀ v < 16, ∃ d, "0123456789abcdef".toList[v]? = some d := by
    intro v hv
    exact ⟨_, List.getElem?_eq_getElem (by simpa using hv)⟩
  obtain ⟨d₁, h₁⟩ := hdigit (c.toNat / 16) (by omega)
  obtain ⟨d₀, h₀⟩ := hdigit (c.toNat % 16) (by omega)
  refine ⟨_, .code4 ['0', '0', d₁, d₀] ⟨rfl, [0, 0, c.toNat / 16, c.toNat % 16], ?_, ?_⟩⟩
  · exact .cons (.inl rfl) (.cons (.inl rfl) (.cons (.inl h₁) (.cons (.inl h₀) .nil)))
  · simp only [List.reverse_cons, List.reverse_nil, List.nil_append, List.cons_append,
      Nat.ofDigits_cons, Nat.ofDigits_nil]
    omega

theorem exists_spellsText (t : List Char) : ∃ w, SpellsText t w := by
  induction t with
  | nil => exact ⟨[], .nil⟩
  | cons c t ih =>
    obtain ⟨w, hw⟩ := exists_spellsChar c
    obtain ⟨ws, hws⟩ := ih
    exact ⟨w ++ ws, .cons hw hws⟩

end KeyAudit.Toml
