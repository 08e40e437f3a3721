import KeyAudit.Proofs.Json.WellFormed
import Mathlib.Data.List.DropRight

namespace KeyAudit.Json

open Toml

variable {c d : Char} {b r s t w : List Char} {f : Frame} {fs : List Frame}

def Frame.enter (f : Frame) (fs : List Frame) (s : List Char) : Option (List Char) :=
  (f.lead s).bind (skipIn false (f :: fs))

theorem skipIn_comma (h : skipSpace s = ',' :: t) : skipIn true (f :: fs) s = f.enter fs t := by
  rw [skipIn, Frame.enter]
  split
  · rename_i u hu
    cases h.symm.trans hu
    split
    · rename_i hlead
      rw [hlead]
      rfl
    · rename_i hlead
      rw [hlead]
      rfl
  · rename_i hne hu
    cases h.symm.trans hu
    exact absurd rfl hne
  · rename_i hu
    cases h.symm.trans hu

theorem skipIn_close (h : skipSpace s = f.close :: r) : skipIn true (f :: fs) s = skipIn true fs r := by
  rw [skipIn]
  split
  · rename_i u hu
    have hclose := (List.cons.inj (h.symm.trans hu)).1
    cases f <;> cases hclose
  · rename_i hu
    cases h.symm.trans hu
    exact if_pos rfl
  · rename_i hu
    cases h.symm.trans hu

theorem skipIn_array (h : skipSpace s = '[' :: t) : skipIn false fs s =
    match skipSpace t with
    | ']' :: r => skipIn true fs r
    | u => skipIn false (.array :: fs) u := by
  rw [skipIn]
  split
  · rename_i hu
    cases h.symm.trans hu
    split
    · rename_i hclose
      rw [hclose]
      rfl
    · rename_i hne
      split
      · rename_i hclose
        exact absurd hclose (hne _)
      · rfl
  · rename_i hu
    cases h.symm.trans hu
  · rename_i hne _
    exact absurd h (hne _)

theorem skipIn_object (h : skipSpace s = '{' :: t) : skipIn false fs s =
    match skipSpace t with
    | '}' :: r => skipIn true fs r
    | u => (skipName u).bind (skipIn false (.object :: fs)) := by
  rw [skipIn]
  split
  · rename_i hu
    cases h.symm.trans hu
  · rename_i hu
    cases h.symm.trans hu
    split
    · rename_i hclose
      rw [hclose]
      rfl
    · rename_i hne
      split
      · rename_i hname
        split
        · rename_i hclose
          exact absurd hclose (hne _)
        · rw [hname]
          rfl
      · rename_i hname
        split
        · rename_i hclose
          exact absurd hclose (hne _)
        · rw [hname]
          rfl
  · rename_i hne
    exact absurd h (hne _)

theorem skipIn_empty (h : skipSpace s = f.opening :: t) (ht : skipSpace t = f.close :: r) :
    skipIn false fs s = skipIn true fs r := by
  cases f with
  | array =>
    rw [skipIn_array h, ht]
    rfl
  | object =>
    rw [skipIn_object h, ht]
    rfl

theorem skipIn_open (h : skipSpace s = f.opening :: t) (ht : (skipSpace t).head? ≠ some f.close) :
    skipIn false fs s = f.enter fs (skipSpace t) := by
  cases f with
  | array =>
    rw [skipIn_array h]
    split
    · rename_i hclose
      rw [hclose] at ht
      exact absurd rfl ht
    · rfl
  | object =>
    rw [skipIn_object h]
    split
    · rename_i hclose
      rw [hclose] at ht
      exact absurd rfl ht
    · rfl

theorem skipIn_scalar (h : skipSpace s = t) (harray : t.head? ≠ some '[')
    (hobject : t.head? ≠ some '{') : skipIn false fs s = (skipScalar t).bind (skipIn true fs) := by
  rw [skipIn]
  split
  · rename_i hu
    exact absurd (congrArg List.head? (h.symm.trans hu)) harray
  · rename_i hu
    exact absurd (congrArg List.head? (h.symm.trans hu)) hobject
  · split
    · rename_i hu
      rw [← h, hu]
      rfl
    · rename_i hu
      rw [← h, hu]
      rfl

theorem skipSpace_append (hb : IsSpaces b) (s : List Char) : skipSpace (b ++ s) = skipSpace s :=
  List.dropWhile_append_of_pos hb

theorem skipSpace_cons (hc : isSpace c = false) (s : List Char) : skipSpace (c :: s) = c :: s :=
  List.dropWhile_cons_of_neg (by rw [hc]; decide)

theorem skipSpace_skipSpace (s : List Char) : skipSpace (skipSpace s) = skipSpace s :=
  List.dropWhile_idempotent isSpace s

theorem isSpace_of_startsScalar (h : startsScalar c = true) : isSpace c = false := by
  rw [Bool.eq_false_iff]
  intro hspace
  simp only [isSpace, Bool.or_eq_true, beq_iff_eq] at hspace
  rcases hspace with ((rfl | rfl) | rfl) | rfl <;> exact absurd h (by decide)

theorem isSpace_opening (f : Frame) : isSpace f.opening = false := by cases f <;> rfl

theorem isSpace_close (f : Frame) : isSpace f.close = false := by cases f <;> rfl

theorem IsScalar.starts (h : IsScalar w) : ∃ c t, w = c :: t ∧ startsScalar c = true := by
  cases h with
  | null => exact ⟨_, _, rfl, by decide⟩
  | truth => exact ⟨_, _, rfl, by decide⟩
  | falsity => exact ⟨_, _, rfl, by decide⟩
  | number sign w x e hsign hw =>
    obtain ⟨d, t, rfl, hd⟩ := hw.starts
    simp only [List.mem_cons, List.not_mem_nil, or_false] at hsign
    rcases hsign with rfl | rfl
    · exact ⟨d, _, rfl, by simp [startsScalar, hd]⟩
    · exact ⟨_, _, rfl, by decide⟩
  | text => exact ⟨_, _, rfl, by decide⟩

theorem skipIn_skipSpace (fs : List Frame) (s : List Char) :
    skipIn false fs (skipSpace s) = skipIn false fs s := by
  by_cases harray : (skipSpace s).head? = some '['
  · obtain ⟨t, ht⟩ := List.head?_eq_some_iff.1 harray
    rw [skipIn_array ht, skipIn_array (t := t) (by rw [skipSpace_skipSpace, ht])]
  · by_cases hobject : (skipSpace s).head? = some '{'
    · obtain ⟨t, ht⟩ := List.head?_eq_some_iff.1 hobject
      rw [skipIn_object ht, skipIn_object (t := t) (by rw [skipSpace_skipSpace, ht])]
    · rw [skipIn_scalar rfl harray hobject, skipIn_scalar (skipSpace_skipSpace s) harray hobject]

theorem Frame.enter_skipSpace (f : Frame) (fs : List Frame) (s : List Char) :
    f.enter fs (skipSpace s) = f.enter fs s := by
  cases f with
  | array => exact skipIn_skipSpace _ s
  | object =>
    rw [enter, enter, lead, lead, skipName, skipName, skipSpace_skipSpace]

theorem skipIn_spaces (hb : IsSpaces b) (hd : d = ',' ∨ d = f.close) (fs : List Frame) (r : List Char) :
    skipIn true (f :: fs) (b ++ d :: r) = skipIn true (f :: fs) (d :: r) := by
  rcases hd with rfl | rfl
  · have hcomma := skipSpace_cons (c := ',') (by decide) r
    rw [skipIn_comma hcomma, skipIn_comma (by rw [skipSpace_append hb, hcomma])]
  · have hclose := skipSpace_cons (isSpace_close f) r
    rw [skipIn_close hclose, skipIn_close (by rw [skipSpace_append hb, hclose])]

/-- What skipping a part comes to. -/
def Part.Skips : Part → List Char → Prop
  | .value, w => ∀ fs r, StopsAt isNumberPart r → skipIn false fs (w ++ r) = skipIn true fs r
  | .entry f, w => ∀ fs d r, d = ',' ∨ d = f.close →
    f.enter fs (w ++ d :: r) = skipIn true (f :: fs) (d :: r)
  | .entries f, w => ∀ fs r, f.enter fs (w ++ f.close :: r) = skipIn true fs r

def Part.Starts : Part → List Char → Prop
  | .value, w => ∀ f : Frame, ∃ c t, w = c :: t ∧ isSpace c = false ∧ c ≠ f.close
  | .entry f, w => ∀ r, (skipSpace (w ++ r)).head? ≠ some f.close
  | .entries f, w => ∀ r, (skipSpace (w ++ r)).head? ≠ some f.close

theorem ne_of_startsScalar {d : Char} (hc : startsScalar c = true) (hd : startsScalar d = false) :
    c ≠ d := by
  rintro rfl
  cases hc.symm.trans hd

theorem IsWritten.starts {p : Part} (h : IsWritten p w) : p.Starts w := by
  induction h with
  | scalar w hw =>
    intro f
    obtain ⟨c, t, rfl, hc⟩ := hw.starts
    refine ⟨c, t, rfl, isSpace_of_startsScalar hc, ne_of_startsScalar hc ?_⟩
    cases f <;> rfl
  | empty f b hb =>
    intro f'
    refine ⟨f.opening, _, rfl, isSpace_opening f, ?_⟩
    cases f <;> cases f' <;> decide
  | frame f w hw _ =>
    intro f'
    refine ⟨f.opening, _, rfl, isSpace_opening f, ?_⟩
    cases f <;> cases f' <;> decide
  | item b w b' hb hw hb' ih =>
    intro r
    obtain ⟨c, t, rfl, hc, hne⟩ := ih .array
    rw [List.append_assoc, skipSpace_append hb, List.cons_append, List.cons_append, skipSpace_cons hc]
    exact fun h ↦ hne (Option.some.inj h)
  | member b n b' c w c' hb hn hb' hc hw hc' _ =>
    intro r
    rw [List.append_assoc, skipSpace_append hb, List.cons_append, skipSpace_cons (by decide)]
    simp [Frame.close]
  | last f w hw ih => exact ih
  | cons f w ws hw hws ih _ =>
    intro r
    rw [List.append_assoc]
    exact ih _

theorem isNumberPart_of_isSpace (h : isSpace c = true) : isNumberPart c = false := by
  simp only [isSpace, Bool.or_eq_true, beq_iff_eq] at h
  rcases h with ((rfl | rfl) | rfl) | rfl <;> decide

theorem stopsAt_spaces (hb : IsSpaces b) (hd : isNumberPart d = false) (r : List Char) :
    StopsAt isNumberPart (b ++ d :: r) := by
  cases b with
  | nil => exact .cons hd r
  | cons c b => exact .cons (isNumberPart_of_isSpace (hb c List.mem_cons_self)) _

theorem skipIn_padded {b' : List Char} (hb : IsSpaces b) (hw : Part.value.Skips w) (hb' : IsSpaces b')
    (hd : d = ',' ∨ d = f.close) (fs : List Frame) (r : List Char) :
    skipIn false (f :: fs) (b ++ (w ++ (b' ++ d :: r))) = skipIn true (f :: fs) (d :: r) := by
  have hstop : isNumberPart d = false := by
    rcases hd with rfl | rfl
    · rfl
    · cases f <;> rfl
  rw [← skipIn_skipSpace, skipSpace_append hb, skipIn_skipSpace, hw _ _ (stopsAt_spaces hb' hstop r),
    skipIn_spaces hb' hd]

theorem skipIn_opening_close (hb : IsSpaces b) (fs : List Frame) (r : List Char) :
    skipIn false fs (f.opening :: (b ++ f.close :: r)) = skipIn true fs r := by
  apply skipIn_empty (skipSpace_cons (isSpace_opening f) _)
  rw [skipSpace_append hb]
  exact skipSpace_cons (isSpace_close f) r

theorem skipIn_entries (hw : (Part.entries f).Starts w) (h : (Part.entries f).Skips w) (fs : List Frame)
    (r : List Char) : skipIn false fs (f.opening :: (w ++ f.close :: r)) = skipIn true fs r := by
  rw [skipIn_open (skipSpace_cons (isSpace_opening f) _) (hw _), f.enter_skipSpace]
  exact h fs r

/-- Whatever is written is skipped, and nothing behind it. -/
theorem IsWritten.skips {p : Part} (h : IsWritten p w) : p.Skips w := by
  induction h with
  | scalar w hw =>
    intro fs r hr
    have hread := skipScalar_append hw hr
    obtain ⟨c, t, rfl, hc⟩ := hw.starts
    have hspace := skipSpace_cons (isSpace_of_startsScalar hc) (t ++ r)
    rw [List.cons_append] at hread ⊢
    rw [skipIn_scalar hspace, hread]
    · rfl
    · exact fun h ↦ ne_of_startsScalar hc (by decide) (Option.some.inj h)
    · exact fun h ↦ ne_of_startsScalar hc (by decide) (Option.some.inj h)
  | empty f b hb =>
    intro fs r _
    rw [List.cons_append, List.append_assoc]
    exact skipIn_opening_close hb fs r
  | frame f w hw ih =>
    intro fs r _
    rw [List.cons_append, List.append_assoc]
    exact skipIn_entries hw.starts ih fs r
  | item b w b' hb hw hb' ih =>
    intro fs d r hd
    rw [List.append_assoc, List.append_assoc]
    exact skipIn_padded hb ih hb' hd fs r
  | member b n b' c w c' hb hn hb' hc hw hc' ih =>
    intro fs d r hd
    have hname : skipName (b ++ '"' :: (n ++ '"' :: (b' ++ ':' :: (c ++ (w ++ c')))) ++ d :: r) =
        some (c ++ (w ++ (c' ++ d :: r))) := by
      simp only [List.append_assoc, List.cons_append]
      rw [skipName, skipSpace_append hb, skipSpace_cons (by decide)]
      change (skipTextTail _).bind _ = _
      rw [skipTextTail_append hn, Option.bind_some, skipSpace_append hb', skipSpace_cons (by decide)]
      rfl
    rw [Frame.enter, Frame.lead, hname]
    exact skipIn_padded hc ih hc' hd fs r
  | last f w hw ih =>
    intro fs r
    rw [ih fs f.close r (.inr rfl)]
    exact skipIn_close (skipSpace_cons (isSpace_close f) r)
  | cons f w ws hw hws ih ihs =>
    intro fs r
    rw [List.append_assoc, List.cons_append, ih fs ',' _ (.inl rfl),
      skipIn_comma (skipSpace_cons (by decide) _)]
    exact ihs fs r

theorem skipIn_nil (s : List Char) : skipIn true [] s = some s := by
  rw [skipIn]

theorem skipValue_append (h : IsValue w) (hr : StopsAt isNumberPart r) :
    skipValue (w ++ r) = some r := by
  rw [skipValue, h.skips [] r hr, skipIn_nil]

theorem skipValue_text (h : IsText w) (r : List Char) :
    skipValue ('"' :: (w ++ '"' :: r)) = some r := by
  rw [skipValue, skipIn_scalar (skipSpace_cons (by decide) _) (by simp) (by simp)]
  change (skipTextTail _).bind _ = _
  rw [skipTextTail_append h, Option.bind_some, skipIn_nil]

theorem skipValue_empty (hb : IsSpaces b) (r : List Char) :
    skipValue (f.opening :: (b ++ f.close :: r)) = some r := by
  rw [skipValue, skipIn_opening_close hb, skipIn_nil]

theorem skipValue_frame (h : IsWritten (.entries f) w) (r : List Char) :
    skipValue (f.opening :: (w ++ f.close :: r)) = some r := by
  rw [skipValue, skipIn_entries h.starts h.skips, skipIn_nil]

end KeyAudit.Json
