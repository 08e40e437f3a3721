import KeyAudit.Json.Skip
import KeyAudit.Proofs.Json.Spelling

namespace KeyAudit.Json

open Text Toml

variable {c : Char} {e r t w ds : List Char}

/-- What may stand between the quotes of a text that is skipped. Its escapes need not stand for
characters. -/
inductive IsText : List Char → Prop
  | nil : IsText []
  | plain (c : Char) (w : List Char) : 0x20 ≤ c.toNat → c ≠ '"' → c ≠ '\\' → IsText w → IsText (c :: w)
  | letter (e c : Char) (w : List Char) : (e, c) ∈ letterEscapes → IsText w → IsText ('\\' :: e :: w)
  | unit (n : Nat) (cs w : List Char) : SpellsUnit n cs → IsText w → IsText ('\\' :: 'u' :: (cs ++ w))

structure IsDigits (ds : List Char) : Prop where
  nonempty : ds ≠ []
  digits : ∀ d ∈ ds, d.isDigit = true

inductive IsExponent : List Char → Prop
  | none : IsExponent []
  | intro (e : Char) (sign ds : List Char) : e = 'e' ∨ e = 'E' → sign ∈ [[], ['+'], ['-']] →
    IsDigits ds → IsExponent (e :: (sign ++ ds))

inductive IsFraction : List Char → Prop
  | none : IsFraction []
  | intro (ds : List Char) : IsDigits ds → IsFraction ('.' :: ds)

inductive IsWhole : List Char → Prop
  | zero : IsWhole ['0']
  | digits (ds : List Char) : IsDigits ds → ds.head? ≠ some '0' → IsWhole ds

inductive IsScalar : List Char → Prop
  | null : IsScalar "null".toList
  | truth : IsScalar "true".toList
  | falsity : IsScalar "false".toList
  | number (sign w f e : List Char) : sign ∈ [[], ['-']] → IsWhole w → IsFraction f → IsExponent e →
    IsScalar (sign ++ (w ++ (f ++ e)))
  | text (w : List Char) : IsText w → IsScalar ('"' :: (w ++ ['"']))

def IsSpaces (b : List Char) : Prop := ∀ c ∈ b, isSpace c = true

def Frame.opening : Frame → Char
  | .array => '['
  | .object => '{'

/-- The parts of a text in this notation. -/
inductive Part where
  | value
  | entry (f : Frame)
  | entries (f : Frame)

/-- The notation. Values may be nested to any depth, and a name may occur any number of times. -/
inductive IsWritten : Part → List Char → Prop
  | scalar (w : List Char) : IsScalar w → IsWritten .value w
  | empty (f : Frame) (b : List Char) : IsSpaces b → IsWritten .value (f.opening :: (b ++ [f.close]))
  | frame (f : Frame) (w : List Char) : IsWritten (.entries f) w →
    IsWritten .value (f.opening :: (w ++ [f.close]))
  | item (b w b' : List Char) : IsSpaces b → IsWritten .value w → IsSpaces b' →
    IsWritten (.entry .array) (b ++ (w ++ b'))
  | member (b n b' c w c' : List Char) : IsSpaces b → IsText n → IsSpaces b' → IsSpaces c →
    IsWritten .value w → IsSpaces c' →
    IsWritten (.entry .object) (b ++ '"' :: (n ++ '"' :: (b' ++ ':' :: (c ++ (w ++ c')))))
  | last (f : Frame) (w : List Char) : IsWritten (.entry f) w → IsWritten (.entries f) w
  | cons (f : Frame) (w ws : List Char) : IsWritten (.entry f) w → IsWritten (.entries f) ws →
    IsWritten (.entries f) (w ++ ',' :: ws)

abbrev IsValue (w : List Char) : Prop := IsWritten .value w

theorem SpellsText.isText (h : SpellsText t w) : IsText w := by
  induction h with
  | nil => exact .nil
  | cons c w t ws hc _ ih =>
    cases hc with
    | plain hlow hquote hback => exact .plain c ws hlow hquote hback ih
    | letter e he => exact .letter e c ws he ih
    | unit cs hcs => exact .unit _ cs ws hcs ih
    | pair high low _ hhigh hlow =>
      have hword := IsText.unit _ high _ hhigh (.unit _ low ws hlow ih)
      simp only [List.cons_append, List.append_assoc]
      exact hword

theorem skipTextTail_append (h : IsText w) (r : List Char) : skipTextTail (w ++ '"' :: r) = some r := by
  induction h with
  | nil => rw [List.nil_append, skipTextTail]
  | plain c w hlow hquote hback _ ih =>
    have hno : ¬ (c = '\\' ∨ c.toNat < 0x20) := by
      rw [not_or]
      exact ⟨hback, Nat.not_lt.2 hlow⟩
    rw [List.cons_append, skipTextTail, if_neg hno, ih]
    · exact hquote
    · exact fun _ _ _ _ _ hc _ ↦ hback hc
    · exact fun _ _ hc _ ↦ hback hc
  | letter e c w he _ ih =>
    have hu : e ≠ 'u' := by
      rintro rfl
      exact absurd he (by simp [letterEscapes])
    rw [List.cons_append, List.cons_append, skipTextTail, shortEscape?_eq_some.2 he, Option.isSome_some,
      if_pos rfl, ih]
    exact fun _ _ _ _ _ h _ ↦ hu h
  | unit n cs w hcs _ ih =>
    obtain ⟨a, b, c, d, rfl⟩ : ∃ a b c d, cs = [a, b, c, d] := List.length_eq_four.1 hcs.1
    simp only [List.cons_append, List.nil_append]
    rw [skipTextTail, hexValue_of_spellsUnit hcs, Option.isSome_some, if_pos rfl, ih]

theorem skipDigits_append (h : IsDigits ds) (hr : StopsAt Char.isDigit r) :
    skipDigits (ds ++ r) = some r := by
  obtain ⟨hne, hds⟩ := h
  cases ds with
  | nil => exact absurd rfl hne
  | cons d ds =>
    obtain ⟨hd, hds⟩ := List.forall_mem_cons.1 hds
    rw [List.cons_append, skipDigits, if_pos hd, dropWhile_append_of_stopsAt hds hr]

def isNumberPart (c : Char) : Bool := c.isDigit || c == '.' || c == 'e' || c == 'E'

theorem stopsAt_digit (h : StopsAt isNumberPart r) : StopsAt Char.isDigit r := by
  intro c hc
  have hpart := h c hc
  simp only [isNumberPart, Bool.or_eq_false_iff] at hpart
  exact hpart.1.1.1

theorem IsDigits.starts (h : IsDigits ds) : ∃ d t, ds = d :: t ∧ d.isDigit = true := by
  obtain ⟨d, t, rfl⟩ := List.exists_cons_of_ne_nil h.nonempty
  exact ⟨d, t, rfl, h.digits d List.mem_cons_self⟩

theorem skipExponent_append (h : IsExponent e) (hr : StopsAt isNumberPart r) :
    skipExponent (e ++ r) = some r := by
  cases h with
  | none =>
    rw [List.nil_append]
    unfold skipExponent
    split
    · exact absurd (hr 'e' rfl) (by decide)
    · exact absurd (hr 'E' rfl) (by decide)
    · rfl
  | intro e sign ds he hsign hds =>
    have hdigits := skipDigits_append hds (stopsAt_digit hr)
    have hsigned : skipExponent (e :: (sign ++ (ds ++ r))) = skipDigits (ds ++ r) := by
      simp only [List.mem_cons, List.not_mem_nil, or_false] at hsign
      obtain ⟨d, t, rfl, hd⟩ := hds.starts
      rcases hsign with rfl | rfl | rfl
      · have hplus : d ≠ '+' := by
          rintro rfl
          exact absurd hd (by decide)
        have hminus : d ≠ '-' := by
          rintro rfl
          exact absurd hd (by decide)
        rcases he with rfl | rfl <;> simp [skipExponent, hplus, hminus]
      · rcases he with rfl | rfl <;> rfl
      · rcases he with rfl | rfl <;> rfl
    rw [List.cons_append, List.append_assoc, hsigned, hdigits]

theorem stopsAt_exponent (he : IsExponent e) (hr : StopsAt isNumberPart r) {p : Char → Bool}
    (hp : ∀ c, p c = true → c.isDigit = true ∨ c = '.') : StopsAt p (e ++ r) := by
  intro c hc
  rw [Bool.eq_false_iff]
  intro hpc
  cases he with
  | none =>
    have hno := hr c hc
    rcases hp c hpc with hdigit | rfl
    · simp [isNumberPart, hdigit] at hno
    · exact absurd hno (by decide)
  | intro d sign ds hd =>
    obtain rfl := Option.some.inj hc
    rcases hp d hpc with hdigit | rfl
    · rcases hd with rfl | rfl <;> exact absurd hdigit (by decide)
    · exact absurd hd (by decide)

theorem skipFraction_append {x : List Char} (hx : IsFraction x) (he : IsExponent e)
    (hr : StopsAt isNumberPart r) : skipFraction (x ++ (e ++ r)) = some r := by
  have hexponent := skipExponent_append he hr
  cases hx with
  | none =>
    have hstop := stopsAt_exponent (p := (· == '.')) he hr fun c hc ↦ .inr (beq_iff_eq.1 hc)
    rw [List.nil_append]
    unfold skipFraction
    split
    · rename_i hdot
      rw [hdot] at hstop
      exact absurd (hstop '.' rfl) (by decide)
    · exact hexponent
  | intro ds hds =>
    have hstop := stopsAt_exponent (p := Char.isDigit) he hr fun c hc ↦ .inl hc
    rw [List.cons_append, skipFraction, skipDigits_append hds hstop]
    exact hexponent

theorem skipMagnitude_append {x : List Char} (hw : IsWhole w) (hx : IsFraction x) (he : IsExponent e)
    (hr : StopsAt isNumberPart r) : skipMagnitude (w ++ (x ++ (e ++ r))) = some r := by
  have hfraction := skipFraction_append hx he hr
  cases hw with
  | zero => exact hfraction
  | digits ds hds hzero =>
    have hstop : StopsAt Char.isDigit (x ++ (e ++ r)) := by
      cases hx with
      | none => exact stopsAt_exponent (p := Char.isDigit) he hr fun c hc ↦ .inl hc
      | intro => exact .cons (by decide) _
    have hskip : (skipDigits (w ++ (x ++ (e ++ r)))).bind skipFraction = some r := by
      rw [skipDigits_append hds hstop]
      exact hfraction
    obtain ⟨d, t, rfl, -⟩ := hds.starts
    rw [List.cons_append] at hskip ⊢
    rw [skipMagnitude]
    · exact hskip
    · exact fun _ hd ↦ hzero (congrArg some (List.cons.inj hd).1)

def startsScalar (c : Char) : Bool := c.isDigit || c ∈ ['n', 't', 'f', '-', '"']

theorem IsWhole.starts (h : IsWhole w) : ∃ d t, w = d :: t ∧ d.isDigit = true := by
  cases h with
  | zero => exact ⟨_, _, rfl, rfl⟩
  | digits _ hds => exact hds.starts

theorem skipScalar_append (h : IsScalar w) (hr : StopsAt isNumberPart r) :
    skipScalar (w ++ r) = some r := by
  cases h with
  | null => exact word_append ['u', 'l', 'l'] r
  | truth => exact word_append ['r', 'u', 'e'] r
  | falsity => exact word_append ['a', 'l', 's', 'e'] r
  | number sign w x e hsign hw hx he =>
    have hmagnitude := skipMagnitude_append hw hx he hr
    simp only [List.mem_cons, List.not_mem_nil, or_false] at hsign
    simp only [List.append_assoc]
    rcases hsign with rfl | rfl
    · obtain ⟨d, t, rfl, hd⟩ := hw.starts
      rw [List.nil_append, List.cons_append] at *
      rw [skipScalar]
      · exact hmagnitude
      all_goals
        intro u hu
        rw [(List.cons.inj hu).1] at hd
        exact absurd hd (by decide)
    · exact hmagnitude
  | text w hw =>
    rw [List.cons_append, List.append_assoc]
    exact skipTextTail_append hw r

end KeyAudit.Json
