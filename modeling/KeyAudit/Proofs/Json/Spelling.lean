import KeyAudit.Json.Text
import KeyAudit.Proofs.Toml.Spelling

namespace KeyAudit.Json

open Text Toml

variable {c e : Char} {cs t w done rest s : List Char} {v n : Nat}

def SpellsUnit (n : Nat) (cs : List Char) : Prop :=
  cs.length = 4 ∧ ∃ vs, List.Forall₂ IsHexDigit cs vs ∧ Nat.ofDigits 16 vs.reverse = n

def letterEscapes : List (Char × Char) :=
  [('"', '"'), ('\\', '\\'), ('/', '/'), ('b', '\x08'), ('f', '\x0C'), ('n', '\n'), ('r', '\r'),
    ('t', '\t')]

/-- The ways in which a character may be written between the quotes. A character with a code of more
than four digits is escaped as a pair of surrogates. -/
inductive SpellsChar (c : Char) : List Char → Prop
  | plain : 0x20 ≤ c.toNat → c ≠ '"' → c ≠ '\\' → SpellsChar c [c]
  | letter (e : Char) : (e, c) ∈ letterEscapes → SpellsChar c ['\\', e]
  | unit (cs : List Char) : SpellsUnit c.toNat cs → SpellsChar c ('\\' :: 'u' :: cs)
  | pair (high low : List Char) : 0x10000 ≤ c.toNat →
    SpellsUnit (0xD800 + (c.toNat - 0x10000) / 0x400) high →
    SpellsUnit (0xDC00 + (c.toNat - 0x10000) % 0x400) low →
    SpellsChar c ('\\' :: 'u' :: (high ++ '\\' :: 'u' :: low))

inductive SpellsText : List Char → List Char → Prop
  | nil : SpellsText [] []
  | cons (c : Char) (w t ws : List Char) : SpellsChar c w → SpellsText t ws →
    SpellsText (c :: t) (w ++ ws)

theorem isHexDigit_of_hexDigit? (h : hexDigit? c = some v) : IsHexDigit c v := by
  have hlt : c.toNat < 128 := by
    by_contra hge
    have hno (d : Char) (hd : d.toNat < 128) : ¬ c ≤ d :=
      fun hle ↦ hge (Nat.lt_of_le_of_lt (m := d.toNat) hle hd)
    rw [hexDigit?, if_neg fun h ↦ hno '9' (by decide) h.2, if_neg fun h ↦ hno 'f' (by decide) h.2,
      if_neg fun h ↦ hno 'F' (by decide) h.2] at h
    cases h
  have hall : ∀ n < 128, ∀ v ∈ hexDigit? (Char.ofNat n),
      "0123456789abcdef".toList[v]? = some (Char.ofNat n) ∨
        "0123456789ABCDEF".toList[v]? = some (Char.ofNat n) := by decide
  have hv := hall c.toNat hlt v
  rw [Char.ofNat_toNat] at hv
  exact hv h

theorem hexValue_of_spellsUnit (h : SpellsUnit n cs) : hexValue cs = some n := by
  obtain ⟨-, vs, hvs, rfl⟩ := h
  rw [hexValue, hexFrom_of_isHexDigit hvs, Nat.zero_mul, Nat.zero_add]

theorem exists_digits_of_hexFrom {m : Nat} (h : hexFrom n cs = some m) :
    ∃ vs, List.Forall₂ IsHexDigit cs vs := by
  induction cs generalizing n with
  | nil => exact ⟨[], .nil⟩
  | cons c cs ih =>
    rw [hexFrom] at h
    obtain ⟨v, hv, hrest⟩ := Option.bind_eq_some_iff.1 h
    obtain ⟨vs, hvs⟩ := ih hrest
    exact ⟨v :: vs, .cons (isHexDigit_of_hexDigit? hv) hvs⟩

theorem spellsUnit_of_hexValue (h : hexValue cs = some n) (hlen : cs.length = 4) :
    SpellsUnit n cs := by
  obtain ⟨vs, hvs⟩ := exists_digits_of_hexFrom h
  refine ⟨hlen, vs, hvs, ?_⟩
  rw [hexValue, hexFrom_of_isHexDigit hvs, Nat.zero_mul, Nat.zero_add] at h
  exact Option.some.inj h

theorem shortEscape?_eq_some : shortEscape? e = some c ↔ (e, c) ∈ letterEscapes := by
  constructor
  · intro h
    unfold shortEscape? at h
    split at h
    all_goals cases h
    all_goals decide
  · intro h
    have hall : ∀ p ∈ letterEscapes, shortEscape? p.1 = some p.2 := by decide
    exact hall _ h

theorem textFrom_unit (h : SpellsUnit c.toNat cs) (done rest : List Char) :
    textFrom done ('\\' :: 'u' :: (cs ++ rest)) = textFrom (c :: done) rest := by
  obtain ⟨a, b, d, e, rfl⟩ : ∃ a b d e, cs = [a, b, d, e] := List.length_eq_four.1 h.1
  rw [List.cons_append, List.cons_append, List.cons_append, List.cons_append, List.nil_append, textFrom,
    hexValue_of_spellsUnit h]
  dsimp only
  rw [scalar?_toNat]

theorem textFrom_pair {high low : List Char} {m : Nat} (hhigh : SpellsUnit n high)
    (hlow : SpellsUnit m low) (hno : scalar? n = none) (hpair : pairedScalar? n m = some c)
    (done rest : List Char) :
    textFrom done ('\\' :: 'u' :: (high ++ '\\' :: 'u' :: (low ++ rest))) =
      textFrom (c :: done) rest := by
  obtain ⟨a, b, d, e, rfl⟩ : ∃ a b d e, high = [a, b, d, e] := List.length_eq_four.1 hhigh.1
  obtain ⟨a', b', d', e', rfl⟩ : ∃ a b d e, low = [a, b, d, e] := List.length_eq_four.1 hlow.1
  simp only [List.cons_append, List.nil_append]
  rw [textFrom, hexValue_of_spellsUnit hhigh]
  dsimp only
  rw [hno]
  simp only [hexValue_of_spellsUnit hlow, Option.bind_some, hpair]

theorem scalar?_surrogate (hn : 0xD800 ≤ n) (hn' : n < 0xE000) : scalar? n = none := by
  have hinvalid : ¬ n.isValidChar := by
    rw [Nat.isValidChar]
    omega
  rw [scalar?, dif_neg hinvalid]

theorem pairedScalar?_of_large {high low : Nat} (hhigh : high < 0x400) (hlow : low < 0x400)
    (hc : 0x10000 + high * 0x400 + low = c.toNat) :
    pairedScalar? (0xD800 + high) (0xDC00 + low) = some c := by
  have hhalves : isHighSurrogate (0xD800 + high) && isLowSurrogate (0xDC00 + low) := by
    simp only [isHighSurrogate, isLowSurrogate, Bool.and_eq_true, decide_eq_true_eq]
    omega
  rw [pairedScalar?, if_pos hhalves, Nat.add_sub_cancel_left, Nat.add_sub_cancel_left, hc,
    scalar?_toNat]

theorem textFrom_char (h : SpellsChar c w) (done rest : List Char) :
    textFrom done (w ++ rest) = textFrom (c :: done) rest := by
  cases h with
  | plain hlow hquote hback =>
    have hno : ¬ (c = '\\' ∨ c.toNat < 0x20) := by
      rw [not_or]
      exact ⟨hback, Nat.not_lt.2 hlow⟩
    rw [List.singleton_append, textFrom, if_neg hno]
    · exact hquote
    · exact fun _ _ _ _ _ hc _ ↦ hback hc
    · exact fun _ _ hc _ ↦ hback hc
  | letter e he =>
    have hu : e ≠ 'u' := by
      rintro rfl
      exact absurd he (by simp [letterEscapes])
    rw [List.cons_append, List.singleton_append, textFrom, shortEscape?_eq_some.2 he]
    exact fun _ _ _ _ _ h _ ↦ hu h
  | unit cs hcs => exact textFrom_unit hcs done rest
  | pair high low hlarge hhigh hlow =>
    have hvalid := toNat_lt c
    simp only [List.cons_append, List.append_assoc]
    apply textFrom_pair hhigh hlow
    · exact scalar?_surrogate (by omega) (by omega)
    · exact pairedScalar?_of_large (by omega) (by omega) (by omega)

/-- However a text is written between the quotes, it is read as the text. -/
theorem textFrom_append (h : SpellsText t w) (done rest : List Char) :
    textFrom done (w ++ '"' :: rest) = some (done.reverse ++ t, rest) := by
  induction h generalizing done with
  | nil => rw [List.nil_append, textFrom, List.append_nil]
  | cons c w t ws hc _ ih =>
    rw [List.append_assoc, textFrom_char hc, ih, List.reverse_cons, List.append_assoc,
      List.singleton_append]

theorem exists_pair_of_pairedScalar? {m : Nat} (h : pairedScalar? n m = some c) :
    0x10000 ≤ c.toNat ∧ n = 0xD800 + (c.toNat - 0x10000) / 0x400 ∧
      m = 0xDC00 + (c.toNat - 0x10000) % 0x400 := by
  rw [pairedScalar?] at h
  split at h
  · rename_i hhalves
    simp only [isHighSurrogate, isLowSurrogate, Bool.and_eq_true, decide_eq_true_eq] at hhalves
    have hc := toNat_of_scalar? h
    omega
  · cases h

def Ends (done s t r : List Char) : Prop :=
  ∃ w u, s = w ++ '"' :: r ∧ t = done.reverse ++ u ∧ SpellsText u w

theorem Ends.char {r ws : List Char} (h : Ends (c :: done) s t r) (hc : SpellsChar c w)
    (hws : ws = w ++ s) : Ends done ws t r := by
  obtain ⟨w', u, rfl, rfl, hu⟩ := h
  refine ⟨w ++ w', c :: u, ?_, ?_, .cons c w u w' hc hu⟩
  · rw [hws, List.append_assoc]
  · rw [List.reverse_cons, List.append_assoc, List.singleton_append]

theorem ends_of_textFrom {r : List Char} (h : textFrom done s = some (t, r)) : Ends done s t r := by
  fun_induction textFrom done s with
  | case1 done r' =>
    cases h
    exact ⟨[], [], rfl, (List.append_nil _).symm, .nil⟩
  | case2 => cases h
  | case3 done a b c' d s n hn x hx ih =>
    refine (ih h).char (.unit [a, b, c', d] ?_) rfl
    rw [toNat_of_scalar? hx]
    exact spellsUnit_of_hexValue hn rfl
  | case4 done a b c' d n hn hno a' b' c'' d' s x hx ih =>
    obtain ⟨m, hm, hpair⟩ := Option.bind_eq_some_iff.1 hx
    obtain ⟨hlarge, hhalf, hhalf'⟩ := exists_pair_of_pairedScalar? hpair
    have hhigh := spellsUnit_of_hexValue hn rfl
    have hlow := spellsUnit_of_hexValue hm rfl
    rw [hhalf] at hhigh
    rw [hhalf'] at hlow
    exact (ih h).char (.pair [a, b, c', d] [a', b', c'', d'] hlarge hhigh hlow) rfl
  | case5 => cases h
  | case6 => cases h
  | case7 done e s hu x hx ih => exact (ih h).char (.letter e (shortEscape?_eq_some.1 hx)) rfl
  | case8 => cases h
  | case9 => cases h
  | case10 done c s hquote hunit hback hplain ih =>
    rw [not_or, Nat.not_lt] at hplain
    exact (ih h).char (.plain hplain.2 hquote hplain.1) rfl
  | case11 => cases h

/-- A text between its quotes. -/
inductive SpellsString (t : String) : List Char → Prop
  | intro (w : List Char) : SpellsText t.toList w → SpellsString t ('"' :: (w ++ ['"']))

theorem spellsText_plain (h : ∀ c ∈ t, 0x20 ≤ c.toNat ∧ c ≠ '"' ∧ c ≠ '\\') : SpellsText t t := by
  induction t with
  | nil => exact .nil
  | cons c t ih =>
    obtain ⟨⟨hlow, hquote, hback⟩, ht⟩ := List.forall_mem_cons.1 h
    exact .cons c [c] t t (.plain hlow hquote hback) (ih ht)

theorem SpellsString.starts {t : String} (h : SpellsString t w) : ∃ u, w = '"' :: u := by
  cases h with
  | intro u _ => exact ⟨_, rfl⟩

theorem text_append {t : String} (h : SpellsString t w) (rest : List Char) :
    text (w ++ rest) = some (t.toList, rest) := by
  cases h with
  | intro w hw =>
    rw [List.cons_append, List.append_assoc]
    exact textFrom_append hw [] rest

theorem exists_spellsString_of_text {r : List Char} (h : text s = some (t, r)) :
    ∃ w, s = w ++ r ∧ SpellsString (String.ofList t) w := by
  unfold text at h
  split at h
  · obtain ⟨w, u, rfl, rfl, hu⟩ := ends_of_textFrom h
    refine ⟨'"' :: (w ++ ['"']), ?_, .intro w ?_⟩
    · rw [List.cons_append, List.append_assoc, List.singleton_append]
    · rw [String.toList_ofList]
      exact hu
  · cases h

end KeyAudit.Json
