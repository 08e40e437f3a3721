import KeyAudit.Proofs.Settings.Spelling

namespace KeyAudit.Settings

open Json
open Toml (StopsAt)

variable {α : Type} {r r' s v w : List Char} {d : Char}

/-- A member by its name and its value, which is kept as it is written. -/
inductive SpellsMember : String × List Char → List Char → Prop
  | intro (name : String) (n b b' v : List Char) : SpellsString name n → IsSpaces b → IsSpaces b' →
    IsValue v → SpellsMember (name, v) (n ++ (b ++ ':' :: (b' ++ v)))

inductive SpellsObject : List (String × List Char) → List Char → Prop
  | nil (b : List Char) : IsSpaces b → SpellsObject [] ('{' :: (b ++ ['}']))
  | list (ms : List (String × List Char)) (w : List Char) : Separated (Padded SpellsMember) ms w →
    SpellsObject ms ('{' :: (w ++ ['}']))

/-- What a member says: the value of a known one, which has to be of its type, or nothing. -/
def Denotes (p : String × List Char) (m : Member) : Prop :=
  if p.1 = "extensions" then ∃ es, SpellsStrings es p.2 ∧ .extensions es = m
  else if p.1 = "entryTemplate" then ∃ f, SpellsString f p.2 ∧ .entryFile f = m
  else .unknown = m

theorem map_eq_some {β : Type} {S : α → Prop} {x : Option (α × List Char)} {g : α → β} {b : β}
    (h : ∀ a, x = some (a, r') ↔ S a ∧ r' = r) :
    (x.map fun p ↦ (g p.1, p.2)) = some (b, r') ↔ (∃ a, S a ∧ g a = b) ∧ r' = r := by
  rw [Option.map_eq_some_iff]
  constructor
  · rintro ⟨⟨a, u⟩, hx, heq⟩
    cases heq
    obtain ⟨ha, hr⟩ := (h a).1 hx
    exact ⟨⟨a, ha, rfl⟩, hr⟩
  · rintro ⟨⟨a, ha, rfl⟩, hr⟩
    exact ⟨(a, r'), (h a).2 ⟨ha, hr⟩, rfl⟩

theorem memberValue_eq_some {name : String} {m : Member} (hv : IsValue v)
    (hr : StopsAt isNumberPart r) :
    memberValue name (v ++ r) = some (m, r') ↔ Denotes (name, v) m ∧ r' = r := by
  rw [memberValue, Denotes]
  split
  · exact map_eq_some fun es ↦ strings_eq_some hv hr
  · split
    · exact map_eq_some fun f ↦ string_eq_some hv hr
    · rw [skipValue_append hv hr, Option.map_some, Option.some_inj, Prod.mk.injEq, @eq_comm _ r r']

theorem member_eq_some {p : String × List Char} {m : Member} (h : Padded SpellsMember p w)
    (hd : d = ',' ∨ d = '}') : member (w ++ d :: r) = some (m, r') ↔ Denotes p m ∧ r' = d :: r := by
  cases h with
  | intro b w b' hb hw hb' =>
    cases hw with
    | intro name n c c' v hn hc hc' hv =>
      have hstop : StopsAt isNumberPart (b' ++ d :: r) := by
        apply stopsAt_spaces hb'
        rcases hd with rfl | rfl <;> rfl
      have hspace : isSpace d = false := by
        rcases hd with rfl | rfl <;> rfl
      have hitem : item (b ++ (n ++ (c ++ ':' :: (c' ++ (v ++ (b' ++ d :: r)))))) =
          some (name, ':' :: (c' ++ (v ++ (b' ++ d :: r)))) := by
        have hread := item_append (.intro b n c hb hn hc) (show isSpace ':' = false by rfl)
          (c' ++ (v ++ (b' ++ d :: r)))
        simpa only [List.append_assoc] using hread
      have hstart : skipSpace (c' ++ (v ++ (b' ++ d :: r))) = v ++ (b' ++ d :: r) := by
        obtain ⟨x, t, rfl, hx, -⟩ := hv.starts .array
        rw [skipSpace_append hc', List.cons_append, skipSpace_cons hx]
      have hend : skipSpace (b' ++ d :: r) = d :: r := by
        rw [skipSpace_append hb', skipSpace_cons hspace]
      simp only [List.append_assoc, List.cons_append]
      rw [member, hitem]
      change (memberValue name (skipSpace _)).map _ = _ ↔ _
      rw [hstart, Option.map_eq_some_iff]
      constructor
      · rintro ⟨⟨m, u⟩, hx, heq⟩
        cases heq
        obtain ⟨hm, rfl⟩ := (memberValue_eq_some hv hstop).1 hx
        exact ⟨hm, hend⟩
      · rintro ⟨hm, rfl⟩
        refine ⟨(m, b' ++ d :: r), (memberValue_eq_some hv hstop).2 ⟨hm, rfl⟩, ?_⟩
        exact congrArg (Prod.mk m) hend

theorem members_reads : members.Reads (Padded SpellsMember) Denotes '}' :=
  fun _ _ _ _ hw hd _ _ ↦ member_eq_some hw hd

theorem members_sepBy_skipSpace (s : List Char) :
    members.sepBy ',' (skipSpace s) = members.sepBy ',' s := by
  apply Reader.sepBy_congr
  change member (skipSpace s) = member s
  rw [member, member, item, item, skipSpace_skipSpace]

theorem SpellsMember.starts {p : String × List Char} (h : SpellsMember p w) : ∃ u, w = '"' :: u := by
  cases h with
  | intro name n b b' v hn =>
    obtain ⟨u, rfl⟩ := hn.starts
    exact ⟨_, rfl⟩

theorem object_brace (h : (skipSpace s).head? ≠ some '}') : object s =
    match members.sepBy ',' s with
    | some (ms, '}' :: r) => (ofMembers? ms).map (·, r)
    | _ => none := by
  rw [object, ← members_sepBy_skipSpace s]
  split
  · rename_i hs
    rw [hs] at h
    exact absurd rfl h
  · rfl

theorem object_eq_some {ms : List (String × List Char)} {x : Settings}
    (h : Separated (Padded SpellsMember) ms w) (r : List Char) :
    object (w ++ '}' :: r) = some (x, r') ↔
      (∃ bs, List.Forall₂ Denotes ms bs ∧ ofMembers? bs = some x) ∧ r' = r := by
  have hhead := h.skipSpace_head (fun _ _ ↦ SpellsMember.starts) ('}' :: r)
  rw [object_brace (by simp [hhead])]
  constructor
  · intro hread
    split at hread
    · rename_i bs u hbs
      obtain ⟨hall, rfl⟩ := Reader.forall₂_of_sepBy members_reads (by decide) h hbs
      obtain ⟨y, hy, heq⟩ := Option.map_eq_some_iff.1 hread
      cases heq
      exact ⟨⟨bs, hall, hy⟩, rfl⟩
    · cases hread
  · rintro ⟨⟨bs, hall, hx⟩, rfl⟩
    rw [Reader.sepBy_append members_reads (by decide) h hall]
    exact congrArg (Option.map (·, r')) hx

theorem SpellsObject.read {ms : List (String × List Char)} (h : SpellsObject ms w) :
    ∃ s, w = '{' :: s ∧ ∀ r x r', object (s ++ r) = some (x, r') ↔
      (∃ bs, List.Forall₂ Denotes ms bs ∧ ofMembers? bs = some x) ∧ r' = r := by
  cases h with
  | nil b hb =>
    refine ⟨_, rfl, fun r x r' ↦ ?_⟩
    have hread : object (b ++ ['}'] ++ r) = some ({}, r) := by
      rw [List.append_assoc, object, skipSpace_append hb, List.singleton_append,
        skipSpace_cons (by decide)]
      rfl
    rw [hread, Option.some_inj, Prod.mk.injEq, @eq_comm _ r r']
    refine and_congr_left fun _ ↦ ?_
    constructor
    · rintro rfl
      exact ⟨[], .nil, rfl⟩
    · rintro ⟨bs, hbs, hx⟩
      cases hbs
      exact Option.some.inj hx
  | list ms w hw =>
    refine ⟨_, rfl, fun r x r' ↦ ?_⟩
    rw [List.append_assoc]
    exact object_eq_some hw r

theorem onlyOr_eq_some {β : Type} {x y : β} {l : List β} :
    onlyOr x l = some y ↔ ∃ o : Option β, l = o.toList ∧ y = o.getD x := by
  constructor
  · intro h
    match l with
    | [] =>
      cases h
      exact ⟨none, rfl, rfl⟩
    | [z] =>
      cases h
      exact ⟨some y, rfl, rfl⟩
  · rintro ⟨o, rfl, rfl⟩
    cases o <;> rfl

def valuesOf (name : String) (ms : List (String × List Char)) : List (List Char) :=
  (ms.filter (·.1 = name)).map (·.2)

theorem valuesOf_cons_self (name : String) (v : List Char) (ms : List (String × List Char)) :
    valuesOf name ((name, v) :: ms) = v :: valuesOf name ms := by
  rw [valuesOf, List.filter_cons_of_pos (by simp)]
  rfl

theorem valuesOf_cons_of_ne {name name' : String} (h : name' ≠ name) (v : List Char)
    (ms : List (String × List Char)) : valuesOf name ((name', v) :: ms) = valuesOf name ms := by
  rw [valuesOf, List.filter_cons_of_neg (by simpa using h)]
  rfl

theorem forall₂_values {ms : List (String × List Char)} {bs : List Member}
    (h : List.Forall₂ Denotes ms bs) :
    List.Forall₂ SpellsStrings (bs.filterMap Member.extensions?) (valuesOf "extensions" ms) ∧
      List.Forall₂ SpellsString (bs.filterMap Member.entryFile?) (valuesOf "entryTemplate" ms) := by
  induction h with
  | nil => exact ⟨.nil, .nil⟩
  | @cons p m ms bs hm hall ih =>
    obtain ⟨ihe, ihf⟩ := ih
    obtain ⟨name, v⟩ := p
    rw [Denotes] at hm
    split at hm
    · rename_i hname
      obtain ⟨es, hes, rfl⟩ := hm
      obtain rfl : name = "extensions" := hname
      rw [valuesOf_cons_self, valuesOf_cons_of_ne (by decide)]
      exact ⟨.cons hes ihe, ihf⟩
    · rename_i hne
      split at hm
      · rename_i hname
        obtain ⟨f, hf, rfl⟩ := hm
        obtain rfl : name = "entryTemplate" := hname
        rw [valuesOf_cons_self, valuesOf_cons_of_ne (by decide)]
        exact ⟨ihe, .cons hf ihf⟩
      · rename_i hne'
        subst hm
        rw [valuesOf_cons_of_ne hne, valuesOf_cons_of_ne hne']
        exact ⟨ihe, ihf⟩

theorem exists_denoted (ms : List (String × List Char)) {ess : List (List String)} {fs : List String}
    (hes : List.Forall₂ SpellsStrings ess (valuesOf "extensions" ms))
    (hfs : List.Forall₂ SpellsString fs (valuesOf "entryTemplate" ms)) :
    ∃ bs, List.Forall₂ Denotes ms bs ∧ bs.filterMap Member.extensions? = ess ∧
      bs.filterMap Member.entryFile? = fs := by
  induction ms generalizing ess fs with
  | nil =>
    cases hes
    cases hfs
    exact ⟨[], .nil, rfl, rfl⟩
  | cons p ms ih =>
    obtain ⟨name, v⟩ := p
    by_cases hname : name = "extensions"
    · subst hname
      rw [valuesOf_cons_self] at hes
      rw [valuesOf_cons_of_ne (by decide)] at hfs
      cases hes with
      | cons he hes =>
        obtain ⟨bs, hall, rfl, rfl⟩ := ih hes hfs
        exact ⟨_, .cons ⟨_, he, rfl⟩ hall, rfl, rfl⟩
    · rw [valuesOf_cons_of_ne hname] at hes
      by_cases hname' : name = "entryTemplate"
      · subst hname'
        rw [valuesOf_cons_self] at hfs
        cases hfs with
        | cons hf hfs =>
          obtain ⟨bs, hall, rfl, rfl⟩ := ih hes hfs
          exact ⟨_, .cons ⟨_, hf, rfl⟩ hall, rfl, rfl⟩
      · rw [valuesOf_cons_of_ne hname'] at hfs
        obtain ⟨bs, hall, rfl, rfl⟩ := ih hes hfs
        refine ⟨.unknown :: bs, .cons ?_ hall, rfl, rfl⟩
        rw [Denotes, if_neg hname, if_neg hname']

theorem ofMembers?_eq_some {bs : List Member} {x : Settings} :
    ofMembers? bs = some x ↔ ∃ es f, bs.filterMap Member.extensions? = Option.toList es ∧
      bs.filterMap Member.entryFile? = Option.toList f ∧
      x = ⟨es.getD ["js", "vue"], f.getD "../index.template.html"⟩ := by
  rw [ofMembers?]
  constructor
  · intro h
    split at h
    · rename_i ess fs hess hfs
      obtain ⟨es, hes, rfl⟩ := onlyOr_eq_some.1 hess
      obtain ⟨f, hf, rfl⟩ := onlyOr_eq_some.1 hfs
      cases h
      exact ⟨es, f, hes, hf, rfl⟩
    · cases h
  · rintro ⟨es, f, hes, hf, rfl⟩
    rw [onlyOr_eq_some.2 ⟨es, hes, rfl⟩, onlyOr_eq_some.2 ⟨f, hf, rfl⟩]

theorem ofJson?_of_brace {content : String} {r : List Char} {x : Settings}
    (h : skipSpace content.toList = '{' :: r) :
    ofJson? content = some x ↔ ∃ r', object r = some (x, r') ∧ skipSpace r' = [] := by
  rw [ofJson?, h]
  cases hread : object r with
  | none => simp [hread]
  | some read =>
    obtain ⟨y, r'⟩ := read
    by_cases hr : skipSpace r' = [] <;> simp [hread, hr]

theorem ofJson?_eq_some_iff_denotes {content : String} {ms : List (String × List Char)} {x : Settings}
    (h : Padded SpellsObject ms content.toList) :
    ofJson? content = some x ↔ ∃ bs, List.Forall₂ Denotes ms bs ∧ ofMembers? bs = some x := by
  generalize hs : content.toList = s at h
  cases h with
  | intro b w b' hb hw hb' =>
    obtain ⟨s, rfl, hread⟩ := hw.read
    have hbrace : skipSpace content.toList = '{' :: (s ++ b') := by
      rw [hs, skipSpace_append hb, List.cons_append, skipSpace_cons (by decide)]
    rw [ofJson?_of_brace hbrace]
    constructor
    · intro h
      obtain ⟨r, hobject, -⟩ := h
      exact ((hread b' x r).1 hobject).1
    · intro hbs
      exact ⟨b', (hread b' x b').2 ⟨hbs, rfl⟩, List.dropWhile_eq_nil_iff.2 hb'⟩

theorem ofJson?_eq_some {content : String} {ms : List (String × List Char)} {x : Settings}
    (h : Padded SpellsObject ms content.toList) :
    ofJson? content = some x ↔ ∃ es f,
      List.Forall₂ SpellsStrings (Option.toList es) (valuesOf "extensions" ms) ∧
      List.Forall₂ SpellsString (Option.toList f) (valuesOf "entryTemplate" ms) ∧
      x = ⟨es.getD ["js", "vue"], f.getD "../index.template.html"⟩ := by
  rw [ofJson?_eq_some_iff_denotes h]
  constructor
  · rintro ⟨bs, hall, hx⟩
    obtain ⟨es, f, hes, hf, rfl⟩ := ofMembers?_eq_some.1 hx
    obtain ⟨hess, hfs⟩ := forall₂_values hall
    rw [hes] at hess
    rw [hf] at hfs
    exact ⟨es, f, hess, hfs, rfl⟩
  · rintro ⟨es, f, hess, hfs, rfl⟩
    obtain ⟨bs, hall, hes, hf⟩ := exists_denoted ms hess hfs
    exact ⟨bs, hall, ofMembers?_eq_some.2 ⟨es, f, hes, hf, rfl⟩⟩

theorem exists_of_mem_toList {S : α → List Char → Prop} {o : Option α} {vs : List (List Char)}
    (h : List.Forall₂ S o.toList vs) (hv : v ∈ vs) : ∃ a, S a v := by
  cases o with
  | none =>
    cases h
    cases hv
  | some a =>
    cases h with
    | cons ha hnil =>
      cases hnil
      obtain rfl := List.mem_singleton.1 hv
      exact ⟨a, ha⟩

/-- Settings are what is written in an object, whatever the order of its members and the space around
them, however its texts are escaped, and whatever other members it has. A known member may be left out,
and then has its default. It may not be there twice, and its value has to be of its type. -/
theorem ofJson?_of_object {content : String} {ms : List (String × List Char)}
    (h : Padded SpellsObject ms content.toList) :
    (∀ es f, List.Forall₂ SpellsStrings (Option.toList es) (valuesOf "extensions" ms) →
      List.Forall₂ SpellsString (Option.toList f) (valuesOf "entryTemplate" ms) →
      ofJson? content = some ⟨es.getD ["js", "vue"], f.getD "../index.template.html"⟩) ∧
    (∀ name ∈ ["extensions", "entryTemplate"], 1 < (valuesOf name ms).length → ofJson? content = none) ∧
    (∀ v ∈ valuesOf "extensions" ms, (∀ es, ¬ SpellsStrings es v) → ofJson? content = none) ∧
    ∀ v ∈ valuesOf "entryTemplate" ms, (∀ f, ¬ SpellsString f v) → ofJson? content = none := by
  refine ⟨fun es f hes hf ↦ (ofJson?_eq_some h).2 ⟨es, f, hes, hf, rfl⟩, ?_, ?_, ?_⟩
  · intro name hname htwice
    apply Option.eq_none_iff_forall_ne_some.2
    intro x hx
    obtain ⟨es, f, hes, hf, -⟩ := (ofJson?_eq_some h).1 hx
    simp only [List.mem_cons, List.not_mem_nil, or_false] at hname
    rcases hname with rfl | rfl
    · exact absurd (hes.length_eq ▸ Option.length_toList_le) (Nat.not_le.2 htwice)
    · exact absurd (hf.length_eq ▸ Option.length_toList_le) (Nat.not_le.2 htwice)
  · intro v hv hwrong
    apply Option.eq_none_iff_forall_ne_some.2
    intro x hx
    obtain ⟨es, f, hes, -, -⟩ := (ofJson?_eq_some h).1 hx
    obtain ⟨ts, hts⟩ := exists_of_mem_toList hes hv
    exact hwrong ts hts
  · intro v hv hwrong
    apply Option.eq_none_iff_forall_ne_some.2
    intro x hx
    obtain ⟨es, f, -, hf, -⟩ := (ofJson?_eq_some h).1 hx
    obtain ⟨t, ht⟩ := exists_of_mem_toList hf hv
    exact hwrong t ht

def escapedSettings : String := "\x7b\"a\":[0], \"\\u0065xtensions\":[\"ts\"]\x7d"

def nullSettings : String := "\x7b\"extensions\":null\x7d"

theorem isSpaces_nil : IsSpaces [] := nofun

theorem spellsMember_extensions {n : List Char} (hn : SpellsString "extensions" n) (b : List Char)
    (hb : IsSpaces b) (hv : IsValue v) :
    Padded SpellsMember ("extensions", v) (b ++ (n ++ ':' :: v ++ [])) :=
  .intro b _ [] hb (.intro "extensions" n [] [] v hn isSpaces_nil isSpaces_nil hv) isSpaces_nil

theorem spellsObject_escaped :
    Padded SpellsObject [("a", "[0]".toList), ("extensions", "[\"ts\"]".toList)]
      escapedSettings.toList := by
  have hname : SpellsString "a" ['"', 'a', '"'] := .intro ['a'] (spellsText_plain (by simp))
  have hzero : IsValue ['0'] := .scalar _ (.number [] ['0'] [] [] (by decide) .zero .none .none)
  have harray : IsValue "[0]".toList :=
    .frame .array ['0'] (.last _ _ (.item [] _ [] isSpaces_nil hzero isSpaces_nil))
  have hfirst := SpellsMember.intro "a" _ [] [] _ hname isSpaces_nil isSpaces_nil harray
  have hunit : SpellsUnit 'e'.toNat ['0', '0', '6', '5'] :=
    ⟨rfl, [0, 0, 6, 5], .cons (.inl rfl) (.cons (.inl rfl) (.cons (.inl rfl) (.cons (.inl rfl) .nil))),
      by decide⟩
  have htail : SpellsText "xtensions".toList "xtensions".toList := spellsText_plain (by simp)
  have hescaped : SpellsString "extensions" ('"' :: ("\\u0065xtensions".toList ++ ['"'])) :=
    .intro _ (.cons 'e' _ _ _ (.unit _ hunit) htail)
  have hts : IsText ['t', 's'] := (spellsText_plain (by simp)).isText
  have hlist : IsValue "[\"ts\"]".toList :=
    .frame .array _ (.last _ _ (.item [] _ [] isSpaces_nil (.scalar _ (.text _ hts)) isSpaces_nil))
  have hsecond := spellsMember_extensions hescaped [' '] (by simp [IsSpaces, isSpace]) hlist
  have hmembers := Separated.cons _ _ _ _ (.intro [] _ [] isSpaces_nil hfirst isSpaces_nil)
    (.last _ _ hsecond)
  have hobject := SpellsObject.list _ _ hmembers
  exact .intro [] _ [] isSpaces_nil hobject isSpaces_nil

theorem spellsObject_null :
    Padded SpellsObject [("extensions", "null".toList)] nullSettings.toList := by
  have hname : SpellsString "extensions" ('"' :: ("extensions".toList ++ ['"'])) :=
    .intro _ (spellsText_plain (by simp))
  have hmember := spellsMember_extensions hname [] isSpaces_nil (.scalar _ .null)
  have hobject := SpellsObject.list _ _ (.last _ _ hmember)
  exact .intro [] _ [] isSpaces_nil hobject isSpaces_nil

theorem ofJson?_escaped :
    Padded SpellsObject [("a", "[0]".toList), ("extensions", "[\"ts\"]".toList)]
      escapedSettings.toList ∧
    ofJson? escapedSettings = some ⟨["ts"], "../index.template.html"⟩ ∧
    Padded SpellsObject [("extensions", "null".toList)] nullSettings.toList ∧
    ofJson? nullSettings = none := by
  obtain ⟨hread, -⟩ := ofJson?_of_object spellsObject_escaped
  obtain ⟨-, -, hwrong, -⟩ := ofJson?_of_object spellsObject_null
  have hts : SpellsString "ts" "\"ts\"".toList := .intro ['t', 's'] (spellsText_plain (by simp))
  have hlist : SpellsStrings ["ts"] "[\"ts\"]".toList :=
    .list _ _ (.last _ _ (.intro [] _ [] isSpaces_nil hts isSpaces_nil))
  have hnull (es : List String) : ¬ SpellsStrings es "null".toList := by
    intro h
    obtain ⟨u, hu⟩ := h.starts
    exact absurd (List.cons.inj hu).1 (by decide)
  exact ⟨spellsObject_escaped, hread (some ["ts"]) none (.cons hlist .nil) .nil, spellsObject_null,
    hwrong _ List.mem_cons_self hnull⟩

end KeyAudit.Settings
