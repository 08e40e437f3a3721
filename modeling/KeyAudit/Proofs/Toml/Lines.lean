import KeyAudit.Proofs.Toml.Spelling
import KeyAudit.Toml.Document
import Mathlib.Data.List.DropRight

namespace KeyAudit.Toml

variable {α : Type} {P : Option α → List Char → Prop} {f : Option α → Line} {as : List α} {c : Char}
  {b e r s t w : List Char} {k : String}

/-- What may stand behind a statement on its line: blanks, and a comment behind them. -/
inductive IsTrailing : List Char → Prop
  | blank (b : List Char) : (∀ c ∈ b, isBlank c = true) → IsTrailing b
  | comment (b text : List Char) : (∀ c ∈ b, isBlank c = true) → (∀ c ∈ text, isLegal c = true) →
    IsTrailing (b ++ '#' :: text)

theorem isTrailing_nil : IsTrailing [] := .blank [] (List.forall_mem_nil _)

inductive IsLineEnd : List Char → Prop
  | lineFeed : IsLineEnd ['\n']
  | returnLineFeed : IsLineEnd ['\r', '\n']

theorem skipBlank_append (h : ∀ c ∈ b, isBlank c = true) (s : List Char) :
    skipBlank (b ++ s) = skipBlank s := List.dropWhile_append_of_pos h

theorem skipBlank_of_stopsAt (h : StopsAt isBlank s) : skipBlank s = s :=
  dropWhile_append_of_stopsAt (t := []) nofun h

/-- What is left of a line: nothing at the end of the text, else the line end and the lines behind it. -/
inductive IsRest : List Char → List Char → Prop
  | stop : IsRest [] []
  | lineEnd {e : List Char} (he : IsLineEnd e) (s : List Char) : IsRest (e ++ s) s

theorem IsLineEnd.stopsAt {p : Char → Bool} (he : IsLineEnd e) (hp : p '\n' = false ∧ p '\r' = false)
    (s : List Char) : StopsAt p (e ++ s) := by
  cases he with
  | lineFeed => exact .cons hp.1 s
  | returnLineFeed => exact .cons hp.2 _

theorem IsRest.stopsAt {p : Char → Bool} (h : IsRest r s) (hp : p '\n' = false ∧ p '\r' = false) :
    StopsAt p r := by
  cases h with
  | stop => exact nofun
  | lineEnd he => exact he.stopsAt hp s

theorem IsRest.skipComment_eq (h : IsRest r s) : skipComment r = r := by
  cases h with
  | stop => rfl
  | lineEnd he => cases he <;> exact skipComment_of_ne (by decide) _

theorem lineEnd_append (ht : IsTrailing t) (hr : IsRest r s) : lineEnd (t ++ r) = some s := by
  have hskip : skipComment (skipBlank (t ++ r)) = r := by
    cases ht with
    | blank _ hb =>
      rw [skipBlank_append hb, skipBlank_of_stopsAt (hr.stopsAt ⟨rfl, rfl⟩), hr.skipComment_eq]
    | comment b text hb htext =>
      rw [List.append_assoc, skipBlank_append hb, List.cons_append,
        skipBlank_of_stopsAt (.cons rfl _)]
      exact dropWhile_append_of_stopsAt htext (hr.stopsAt ⟨rfl, rfl⟩)
  rw [lineEnd, hskip]
  cases hr with
  | stop => rfl
  | lineEnd he => cases he <;> rfl

theorem lineEnd_skipBlank (s : List Char) : lineEnd (skipBlank s) = lineEnd s := by
  have h : skipBlank (skipBlank s) = skipBlank s := List.dropWhile_idempotent isBlank s
  rw [lineEnd, lineEnd, h]

theorem ne_of_startsKey {d : Char} (hc : startsKey c = true) (hd : startsKey d = false) : c ≠ d := by
  rintro rfl
  cases hc.symm.trans hd

theorem isBlank_of_startsKey (h : startsKey c = true) : isBlank c = false := by
  have hspace := ne_of_startsKey h (show startsKey ' ' = false by decide)
  have htab := ne_of_startsKey h (show startsKey '\t' = false by decide)
  simp [isBlank, hspace, htab]

theorem stopsAt_append_of_blank {p : Char → Bool} (hp : p ' ' = false ∧ p '\t' = false)
    (hb : ∀ c ∈ b, isBlank c = true) (hs : StopsAt p s) : StopsAt p (b ++ s) := by
  cases b with
  | nil => exact hs
  | cons c b =>
    have hc := hb c List.mem_cons_self
    rw [isBlank, Bool.or_eq_true, beq_iff_eq, beq_iff_eq] at hc
    rcases hc with rfl | rfl
    · exact .cons hp.1 _
    · exact .cons hp.2 _

theorem IsTrailing.stopsAt {p : Char → Bool} (hp : p ' ' = false ∧ p '\t' = false)
    (hmark : p '#' = false) (ht : IsTrailing t) (hr : StopsAt p r) : StopsAt p (t ++ r) := by
  cases ht with
  | blank _ hb => exact stopsAt_append_of_blank hp hb hr
  | comment b text hb _ =>
    rw [List.append_assoc]
    exact stopsAt_append_of_blank hp hb (.cons hmark _)

theorem lineBody_of_lineEnd (h : lineEnd w = some s) : lineBody w = some (.blank, s) := by
  have hexpect : expect '[' w = none := by
    cases w with
    | nil => rfl
    | cons c r =>
      apply expect_of_ne
      intro hc
      subst hc
      cases h
  simp only [lineBody, word, hexpect, Option.bind_none, h]

theorem keyPart_append {b' : List Char} (h : SpellsKey k w) (hb : ∀ c ∈ b ++ b', isBlank c = true)
    (hr : StopsAt isBare r) (hr' : StopsAt isBlank r) :
    keyPart (b ++ (w ++ (b' ++ r))) = some (k, r) := by
  obtain ⟨hb, hb'⟩ := List.forall_mem_append.1 hb
  obtain ⟨c, u, hw, hc⟩ := h.starts
  have hstop : StopsAt isBare (b' ++ r) := stopsAt_append_of_blank ⟨rfl, rfl⟩ hb' hr
  have hfront : skipBlank (b ++ (w ++ (b' ++ r))) = w ++ (b' ++ r) := by
    rw [skipBlank_append hb, hw]
    exact skipBlank_of_stopsAt (.cons (isBlank_of_startsKey hc) _)
  have hback : skipBlank (b' ++ r) = r := by
    rw [skipBlank_append hb', skipBlank_of_stopsAt hr']
  rw [keyPart, hfront, simpleKey_append h hstop]
  simp only [Option.map_some, hback, String.ofList_toList]

/-- A document with a line for each of the items, in their order, and any number of lines without one. The
last line is not ended. -/
inductive Written (P : Option α → List Char → Prop) : List α → List Char → Prop
  | last (o : Option α) (w : List Char) : P o w → Written P o.toList w
  | cons (o : Option α) (w e : List Char) (as : List α) (s : List Char) : P o w → IsLineEnd e →
    Written P as s → Written P (o.toList ++ as) (w ++ (e ++ s))

/-- What is written for an item is read as the line of the item, whatever lines stand behind it. -/
structure IsLineSpelling (P : Option α → List Char → Prop) (f : Option α → Line) : Prop where
  blank : f none = .blank
  eq_none {o : Option α} : P o [] → o = none
  read {o : Option α} {w r s : List Char} : P o w → IsRest r s → w ++ r ≠ [] →
    line (w ++ r) = some (f o, s)
  stopsAt_mark {o : Option α} {w r : List Char} : P o w → StopsAt (· == '\uFEFF') r →
    StopsAt (· == '\uFEFF') (w ++ r)

namespace Written

variable (hP : IsLineSpelling P f)
include hP

theorem many_lines (h : Written P as s) : ∃ ls, lines.many s = (ls, []) ∧
    Document.ofLines ls = Document.ofLines (as.map fun a ↦ f (some a)) := by
  have hbefore (o : Option α) (ls : List Line) :
      Document.ofLines (f o :: ls) = Document.ofLines ((o.toList.map fun a ↦ f (some a)) ++ ls) := by
    cases o with
    | none =>
      rw [hP.blank]
      rfl
    | some a => rfl
  induction h with
  | last o w hw =>
    have hread := hP.read hw .stop
    rw [List.append_nil] at hread
    have hnil : lines.many [] = ([], []) := Reader.many_eq lines []
    by_cases hne : w = []
    · subst hne
      refine ⟨[], hnil, ?_⟩
      rw [hP.eq_none hw]
      rfl
    · have hl : lines.read w = some (f o, []) := hread hne
      refine ⟨[f o], ?_, ?_⟩
      · rw [Reader.many_eq, hl]
        simp only [hnil]
      · rw [hbefore, List.append_nil]
  | cons o w e as s hw he _ ih =>
    obtain ⟨ls, hls, hdoc⟩ := ih
    have hne : w ++ (e ++ s) ≠ [] := by
      cases he <;> simp
    have hread : lines.read (w ++ (e ++ s)) = some (f o, s) := hP.read hw (.lineEnd he s) hne
    refine ⟨f o :: ls, ?_, ?_⟩
    · rw [Reader.many_eq, hread]
      simp only [hls]
    · rw [List.map_append, ← hbefore]
      exact congrArg (Document.before (f o)) hdoc

theorem dropMark (h : Written P as s) : Document.dropMark s = s := by
  have hstop : StopsAt (· == '\uFEFF') s := by
    cases h with
    | last o w hw => exact List.append_nil s ▸ hP.stopsAt_mark hw nofun
    | cons o w e as s hw he _ => exact hP.stopsAt_mark hw (he.stopsAt ⟨rfl, rfl⟩ s)
  cases s with
  | nil => rfl
  | cons c s =>
    have hc : c ≠ '\uFEFF' := ne_of_beq_false (hstop c rfl)
    rw [Document.dropMark, expect_of_ne hc]
    rfl

/-- A written document is read line by line as its items, also behind a byte order mark. -/
theorem ofText? (h : Written P as s) {content : List Char} (hc : Document.dropMark content = s) :
    Document.ofText? content = some (Document.ofLines (as.map fun a ↦ f (some a))) := by
  obtain ⟨ls, hls, hdoc⟩ := h.many_lines hP
  rw [Document.ofText?, hc, hls, ← hdoc]

end Written

theorem exists_written (hnone : P none []) (hsome : ∀ a, ∃ w, P (some a) w) (as : List α) :
    ∃ s, Written P as s := by
  induction as with
  | nil => exact ⟨[], .last none [] hnone⟩
  | cons a as ih =>
    obtain ⟨s, hs⟩ := ih
    obtain ⟨w, hw⟩ := hsome a
    exact ⟨_, .cons (some a) w _ as s hw .lineFeed hs⟩

end KeyAudit.Toml
