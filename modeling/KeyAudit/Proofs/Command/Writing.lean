import KeyAudit.Proofs.Command.Refusal

namespace KeyAudit.Command

open Reading

structure Given where
  template : Option Bytes := none
  verbose : Bool := false

namespace Given

variable {g g' g'' : Given}

def Apart (g g' : Given) : Prop :=
  (g.template = none ∨ g'.template = none) ∧ (g.verbose = false ∨ g'.verbose = false)

def and (g g' : Given) : Given := ⟨g.template.or g'.template, g.verbose || g'.verbose⟩

theorem and_none (g : Given) : g.and {} = g := by
  rw [and, Option.or_none, Bool.or_false]

theorem and_assoc (g g' g'' : Given) : (g.and g').and g'' = g.and (g'.and g'') := by
  simp only [and, Option.or_assoc, Bool.or_assoc]

theorem Apart.of_and (h : g.Apart (g'.and g'')) (h' : g'.Apart g'') :
    g.Apart g' ∧ (g.and g').Apart g'' := by
  simp only [Apart, and, Option.or_eq_none_iff, Bool.or_eq_false_iff] at h h' ⊢
  tauto

end Given

/-- A value that may stand as an argument of its own. -/
structure IsValue (x : Bytes) : Prop where
  nonempty : x ≠ []
  plain : IsPlain x

/-- The letters of an option that awaits its value, with the letter of the verbose option before it or
not. -/
def letters (v : Bool) : Bytes := Text.utf8 (if v then "-vt" else "-t")

/-- An option as it may be written, with its value if it has one. -/
inductive SpellsOption : Given → List Bytes → Prop
  | v : SpellsOption { verbose := true } [Text.utf8 "-v"]
  | verbose : SpellsOption { verbose := true } [Text.utf8 "--verbose"]
  | name (x : Bytes) : IsValue x → SpellsOption { template := x } [Text.utf8 "--template-path", x]
  | nameEquals (x : Bytes) : IsValue x →
    SpellsOption { template := x } [Text.utf8 "--template-path=" ++ x]
  | t (v : Bool) (x : Bytes) : IsValue x → SpellsOption ⟨x, v⟩ [letters v, x]
  | tEquals (v : Bool) (x : Bytes) : IsValue x → SpellsOption ⟨x, v⟩ [letters v ++ equalsSign :: x]
  | attached (v : Bool) (x : Bytes) : IsValue x → x.head? ≠ some equalsSign →
    SpellsOption ⟨x, v⟩ [letters v ++ x]

inductive SpellsOptions : Given → List Bytes → Prop
  | nil : SpellsOptions {} []
  | cons (g g' : Given) (o os : List Bytes) : SpellsOption g o → SpellsOptions g' os → g.Apart g' →
    SpellsOptions (g.and g') (o ++ os)

/-- What stands before and behind the path. A path behind `--` may have a dash in front. -/
inductive Surrounds (p : Bytes) : Given → List Bytes → List Bytes → Prop
  | among (g g' : Given) (os os' : List Bytes) : IsPlain p → SpellsOptions g os →
    SpellsOptions g' os' → g.Apart g' → Surrounds p (g.and g') os os'
  | last (g : Given) (os : List Bytes) : SpellsOptions g os → Surrounds p g (os ++ [[dash, dash]]) []

namespace Reading

variable {r r' : Reading} {p : Option Bytes} {g g' : Given} {x a : Bytes} {o os as : List Bytes}

/-- What has been read, once the last value has been looked at. -/
def Says (r : Reading) (p : Option Bytes) (g : Given) : Prop :=
  settle r = .ok ⟨.nothing, p, g.template, g.verbose⟩

theorem argument_of_isPlain (h : IsPlain a) (r : Reading) : argument r a = value r a := by
  match a with
  | [] => rfl
  | [d] => rfl
  | d :: c :: cs => exact if_pos h.ne_dash

theorem arguments_of_isPlain (h : IsPlain a) (as : List Bytes) (r : Reading) :
    arguments r (a :: as) = (value r a).bind (arguments · as) := by
  rw [Reading.arguments_cons h.ne_end, argument_of_isPlain h]

theorem arguments_of_argument (ha : a ≠ [dash, dash]) (h : argument r a = .ok r') (as : List Bytes) :
    arguments r ([a] ++ as) = arguments r' as := by
  rw [List.singleton_append, arguments_cons ha, h]
  rfl

theorem argument_name (x : Bytes) (r : Reading) :
    argument r (Text.utf8 "--template-path=" ++ x) = (settle r).bind (setTemplate x) := by
  rfl

theorem letters_ne_end (v : Bool) (b : Bytes) : letters v ++ b ≠ [dash, dash] := by
  intro h
  cases v with
  | false => exact absurd (List.cons.inj (List.cons.inj h).2).1 (by decide)
  | true => exact absurd (List.cons.inj (List.cons.inj h).2).1 (by decide)

theorem Says.setVerbose (h : r.Says p g) (hg : g.verbose = false) :
    ∃ r', (settle r).bind setVerbose = .ok r' ∧ r'.Says p ⟨g.template, true⟩ := by
  refine ⟨⟨.nothing, p, g.template, true⟩, ?_, rfl⟩
  rw [h, hg]
  rfl

theorem Says.letters (h : r.Says p g) (v : Bool) (hg : g.verbose = false ∨ v = false) :
    ∃ r', r'.Says p ⟨g.template, g.verbose || v⟩ ∧
      ∀ b, argument r (letters v ++ b) = cluster ('t'.toUInt8 :: b) r' := by
  cases v with
  | false => exact ⟨r, by rwa [Bool.or_false], fun b ↦ rfl⟩
  | true =>
    obtain ⟨r', hr, hsays⟩ := h.setVerbose (hg.resolve_right (by decide))
    refine ⟨r', by rwa [Bool.or_true], fun b ↦ ?_⟩
    change cluster ('v'.toUInt8 :: 't'.toUInt8 :: b) r = _
    rw [cluster_verbose, hr]
    rfl

theorem Says.awaited (h : r.Says p g) (hg : g.template = none) (hx : IsValue x) (as : List Bytes) :
    ∃ r', ((settle r).bind awaitTemplate).bind (arguments · (x :: as)) = arguments r' as ∧
      r'.Says p ⟨x, g.verbose⟩ := by
  refine ⟨⟨.template (some x), p, none, g.verbose⟩, ?_, if_neg hx.nonempty⟩
  rw [h, hg]
  exact arguments_of_isPlain hx.plain as _

theorem Says.attached (h : r.Says p g) (hg : g.template = none) (hx : IsValue x) :
    ∃ r', (settle r).bind (setTemplate x) = .ok r' ∧ r'.Says p ⟨x, g.verbose⟩ := by
  refine ⟨⟨.nothing, p, x, g.verbose⟩, ?_, rfl⟩
  rw [h, hg]
  exact if_neg hx.nonempty

theorem cluster_attached (hx : IsValue x) (he : x.head? ≠ some equalsSign) (r : Reading) :
    cluster ('t'.toUInt8 :: x) r = (settle r).bind (setTemplate x) := by
  cases x with
  | nil => exact absurd rfl hx.nonempty
  | cons d w =>
    have hd : d ≠ equalsSign := fun hd ↦ he (congrArg some hd)
    rw [cluster.eq_def]
    dsimp only
    rw [if_neg hd]
    rfl

theorem Says.option (h : r.Says p g) (ho : SpellsOption g' o) (hg : g.Apart g') (as : List Bytes) :
    ∃ r', arguments r (o ++ as) = arguments r' as ∧ r'.Says p (g.and g') := by
  obtain ⟨hnone, hsilent⟩ := hg
  cases ho with
  | v =>
    obtain ⟨r', hr, hsays⟩ := h.setVerbose (hsilent.resolve_right (by decide))
    refine ⟨r', arguments_of_argument (by decide) ?_ as,
      by rwa [Given.and, Option.or_none, Bool.or_true]⟩
    have hcluster : argument r (Text.utf8 "-v") = Reading.cluster ['v'.toUInt8] r := by rfl
    rw [hcluster, cluster_verbose, hr]
    rfl
  | verbose =>
    obtain ⟨r', hr, hsays⟩ := h.setVerbose (hsilent.resolve_right (by decide))
    refine ⟨r', arguments_of_argument (by decide) ?_ as,
      by rwa [Given.and, Option.or_none, Bool.or_true]⟩
    exact hr
  | name x hx =>
    have htemplate := hnone.resolve_right (by simp)
    obtain ⟨r', hr, hsays⟩ := h.awaited htemplate hx as
    refine ⟨r', ?_, by rwa [Given.and, htemplate, Bool.or_false]⟩
    rw [List.cons_append, arguments_cons (by decide)]
    exact hr
  | nameEquals x hx =>
    have htemplate := hnone.resolve_right (by simp)
    obtain ⟨r', hr, hsays⟩ := h.attached htemplate hx
    refine ⟨r', arguments_of_argument ?_ ((argument_name x r).trans hr) as,
      by rwa [Given.and, htemplate, Bool.or_false]⟩
    exact fun h ↦ List.cons_ne_nil _ _ (List.cons.inj (List.cons.inj h).2).2
  | t v x hx =>
    have htemplate := hnone.resolve_right (by simp)
    obtain ⟨r₁, hsays₁, hletters⟩ := h.letters v hsilent
    obtain ⟨r', hr, hsays⟩ := hsays₁.awaited htemplate hx as
    refine ⟨r', ?_, by rwa [Given.and, htemplate]⟩
    have hfirst := hletters []
    have hne := letters_ne_end v []
    rw [List.append_nil] at hfirst hne
    rw [List.cons_append, arguments_cons hne, hfirst]
    exact hr
  | tEquals v x hx =>
    have htemplate := hnone.resolve_right (by simp)
    obtain ⟨r₁, hsays₁, hletters⟩ := h.letters v hsilent
    obtain ⟨r', hr, hsays⟩ := hsays₁.attached htemplate hx
    refine ⟨r', arguments_of_argument (letters_ne_end v _) ?_ as, by rwa [Given.and, htemplate]⟩
    exact (hletters _).trans hr
  | attached v x hx hne =>
    have htemplate := hnone.resolve_right (by simp)
    obtain ⟨r₁, hsays₁, hletters⟩ := h.letters v hsilent
    obtain ⟨r', hr, hsays⟩ := hsays₁.attached htemplate hx
    refine ⟨r', arguments_of_argument (letters_ne_end v _) ?_ as, by rwa [Given.and, htemplate]⟩
    rw [hletters, cluster_attached hx hne, hr]

theorem Says.options (h : r.Says p g) (ho : SpellsOptions g' os) (hg : g.Apart g') (as : List Bytes) :
    ∃ r', arguments r (os ++ as) = arguments r' as ∧ r'.Says p (g.and g') := by
  induction ho generalizing r g with
  | nil => exact ⟨r, rfl, by rwa [Given.and_none]⟩
  | cons g' g'' o os ho _ hapart ih =>
    obtain ⟨hg, hg'⟩ := hg.of_and hapart
    obtain ⟨r', hr, hsays⟩ := h.option ho hg (os ++ as)
    obtain ⟨r'', hr', hsays'⟩ := ih hsays hg'
    refine ⟨r'', ?_, ?_⟩
    · rw [List.append_assoc, hr, hr']
    · rwa [Given.and_assoc] at hsays'

theorem Says.not_path (h : r.Says none g) : r.path = none ∧ r.pending.isPath = false := by
  obtain ⟨pending, path, template, verbose⟩ := r
  rw [Says, settle] at h
  cases pending with
  | nothing => exact ⟨congrArg Reading.path (Except.ok.inj h), rfl⟩
  | path y =>
    dsimp only at h
    split at h
    · cases h
    · cases h
  | template y =>
    cases y with
    | none => cases h
    | some y =>
      dsimp only at h
      split at h
      · cases h
      · split at h
        · cases h
        · exact ⟨congrArg Reading.path (Except.ok.inj h), rfl⟩

theorem Says.positional (h : r.Says none g) (hx : x ≠ []) :
    ∃ r', positional r x = .ok r' ∧ r'.Says (some x) g := by
  refine ⟨⟨.path x, none, g.template, g.verbose⟩, ?_, if_neg hx⟩
  obtain ⟨hpath, hpending⟩ := h.not_path
  rw [Reading.positional, hpath]
  have hread := congrArg (Except.map fun r : Reading ↦ { r with pending := .path x }) h
  cases hr : r.pending with
  | nothing => exact hread
  | path y =>
    rw [hr] at hpending
    cases hpending
  | template y => exact hread

theorem Says.value (h : r.Says none g) (hx : x ≠ []) :
    ∃ r', value r x = .ok r' ∧ r'.Says (some x) g := by
  rw [Reading.value]
  split
  · rename_i hawaits
    rw [Says, settle, hawaits] at h
    cases h
  · exact h.positional hx

theorem Says.finish (h : r.Says (some x) g) :
    finish r = .ok ⟨⟨x⟩, g.template.map Path.mk, g.verbose⟩ := by
  rw [Reading.finish, h]

end Reading

namespace Request

variable {p : Bytes} {t : Option Bytes} {v : Bool} {g : Given} {before after : List Bytes}

theorem ofTokens_surrounds (hp : p ≠ []) (h : Surrounds p g before after) :
    ofTokens (before ++ p :: after) = .ok ⟨⟨p⟩, g.template.map Path.mk, g.verbose⟩ := by
  have hstart : Reading.Says {} none {} := rfl
  cases h with
  | among g g' _ _ hplain hos hos' hapart =>
    obtain ⟨r₁, hr₁, hsays₁⟩ := hstart.options hos ⟨.inl rfl, .inl rfl⟩ (p :: after)
    obtain ⟨r₂, hr₂, hsays₂⟩ := hsays₁.value hp
    obtain ⟨r₃, hr₃, hsays₃⟩ := hsays₂.options hos' hapart []
    have hread : arguments {} (before ++ p :: after) = .ok r₃ := by
      rw [hr₁, arguments_of_isPlain hplain, hr₂]
      change arguments r₂ after = _
      rw [← List.append_nil after, hr₃]
      rfl
    rw [ofTokens, hread]
    exact hsays₃.finish
  | last g os hos =>
    obtain ⟨r₁, hr₁, hsays₁⟩ := hstart.options hos ⟨.inl rfl, .inl rfl⟩ [[dash, dash], p]
    obtain ⟨r₂, hr₂, hsays₂⟩ := hsays₁.positional hp
    have hread : arguments {} (os ++ [[dash, dash]] ++ [p]) = .ok r₂ := by
      rw [List.append_assoc, List.cons_append, List.nil_append, hr₁, arguments, if_pos rfl,
        List.foldlM_cons, hr₂]
      rfl
    rw [ofTokens, hread]
    exact hsays₂.finish

/-- A line that is written is read as what has been written: a path, a template or none, and whether to
be verbose. If anywhere a further path is put in, or an option that is there once more, it is refused.
So is the line without its path. -/
theorem ofTokens_written (hp : p ≠ []) (h : Surrounds p ⟨t, v⟩ before after) :
    ofTokens (before ++ p :: after) = .ok ⟨⟨p⟩, t.map Path.mk, v⟩ ∧
    (∀ xs ys, before ++ p :: after = xs ++ ys →
      (∀ a, IsPlain a → IsRefused (xs ++ a :: ys)) ∧
      (v = true → IsRefused (xs ++ Text.utf8 "-v" :: ys)) ∧
      (t ≠ none → ∀ a, IsPlain a → IsRefused (xs ++ Text.utf8 "-t" :: a :: ys))) ∧
    IsRefused (before ++ after) := by
  have hread := ofTokens_surrounds hp h
  refine ⟨hread, fun xs ys hsplit ↦ ?_, ?_⟩
  · rw [hsplit] at hread
    refine ⟨fun a ↦ isRefused_of_operand hread, isRefused_of_verbose hread, fun ht a ↦ ?_⟩
    apply isRefused_of_template hread
    rw [Option.isSome_map, Option.isSome_iff_ne_none]
    exact ht
  · apply isRefused_of_erase hread
    cases h with
    | among _ _ _ _ hplain => exact .inl hplain
    | last => exact .inr (List.mem_append_right _ List.mem_cons_self)

theorem surrounds_clustered : Surrounds (Text.utf8 "-r") ⟨Text.utf8 "t", true⟩
    [Text.utf8 "-vt", Text.utf8 "t", Text.utf8 "--"] [] := by
  have hvalue : IsValue (Text.utf8 "t") := ⟨by decide, fun h ↦ absurd h (by decide)⟩
  have hoption := SpellsOption.t true (Text.utf8 "t") hvalue
  have hoptions := SpellsOptions.cons _ _ _ _ hoption .nil ⟨.inr rfl, .inr rfl⟩
  exact .last _ _ hoptions

theorem ofTokens_clustered :
    Surrounds (Text.utf8 "-r") ⟨Text.utf8 "t", true⟩
      [Text.utf8 "-vt", Text.utf8 "t", Text.utf8 "--"] [] ∧
    ofTokens [Text.utf8 "-vt", Text.utf8 "t", Text.utf8 "--", Text.utf8 "-r"] =
      .ok ⟨"-r", some "t", true⟩ ∧
    IsRefused [Text.utf8 "-vt", Text.utf8 "x", Text.utf8 "t", Text.utf8 "--", Text.utf8 "-r"] ∧
    IsRefused [Text.utf8 "-vt", Text.utf8 "t", Text.utf8 "--"] := by
  obtain ⟨hread, hinsert, herase⟩ := ofTokens_written (by decide) surrounds_clustered
  have hplain : IsPlain (Text.utf8 "x") := fun h ↦ absurd h (by decide)
  obtain ⟨hpath, -, -⟩ := hinsert [Text.utf8 "-vt"] _ rfl
  exact ⟨surrounds_clustered, hread, hpath _ hplain, herase⟩

end Request

end KeyAudit.Command
