import KeyAudit.Proofs.Toml.Values
import KeyAudit.Template

namespace KeyAudit

namespace Toml

variable {es es' : Entries} {earlier : List Statement} {s : Statement} {item : Item}

open Entries Statement

/-- What is known of the top-level entries after some statements: each key has one entry, exactly the
keys of the statements have one, and it is known which of them are only implied. -/
structure Tracks (es : Entries) (earlier : List Statement) : Prop where
  nodup : es.keys.Nodup
  mem_iff (k : String) : k ∈ es.keys ↔ ∃ s ∈ earlier, s.key = k
  isImplied_iff {k : String} {item : Item} : es.lookup k = some item →
    (item.isImplied = true ↔ IsImplied earlier k)

theorem tracks_nil : Tracks [] [] where
  nodup := .nil
  mem_iff k := by simp [Entries.keys]
  isImplied_iff h := nomatch h

theorem isImplied_concat (k : String) :
    IsImplied (earlier ++ [s]) k ↔ IsImplied earlier k ∧ (s.key = k → s = .inner k) := by
  simp only [IsImplied, List.forall_mem_append, List.forall_mem_singleton]

theorem isImplied_concat_of_ne {k : String} (hk : k ≠ s.key) :
    IsImplied (earlier ++ [s]) k ↔ IsImplied earlier k := by
  rw [isImplied_concat]
  exact and_iff_left fun h ↦ absurd h.symm hk

theorem isImplied_concat_self :
    IsImplied (earlier ++ [s]) s.key ↔ IsImplied earlier s.key ∧ s = .inner s.key := by
  rw [isImplied_concat]
  simp

theorem exists_key_concat (k : String) :
    (∃ t ∈ earlier ++ [s], t.key = k) ↔ (∃ t ∈ earlier, t.key = k) ∨ k = s.key := by
  simp [or_and_right, exists_or, eq_comm]

namespace Tracks

theorem mem_keys {k : String} (h : es.lookup k = some item) : k ∈ es.keys := by
  by_contra hk
  rw [lookup_eq_none.2 hk] at h
  cases h

variable (ht : Tracks es earlier)
include ht

theorem append (hl : es.lookup s.key = none) (hi : item.isImplied = true ↔ s = .inner s.key) :
    Tracks (es ++ [(s.key, item)]) (earlier ++ [s]) where
  nodup := by
    rw [keys_append_singleton, ← List.concat_eq_append]
    exact ht.nodup.concat (lookup_eq_none.1 hl)
  mem_iff k := by
    rw [keys_append_singleton, List.mem_append, List.mem_singleton, exists_key_concat, ht.mem_iff]
  isImplied_iff {k it} h := by
    rw [lookup_append_singleton hl] at h
    by_cases hk : k = s.key
    · subst hk
      rw [if_pos rfl] at h
      obtain rfl := Option.some.inj h
      have hnew : IsImplied earlier s.key := fun t hmem he ↦
        absurd ((ht.mem_iff _).2 ⟨t, hmem, he⟩) (lookup_eq_none.1 hl)
      rw [hi, isImplied_concat_self]
      exact (and_iff_right hnew).symm
    · rw [if_neg hk] at h
      rw [ht.isImplied_iff h, isImplied_concat_of_ne hk]

theorem update {old : Item} (hl : es.lookup s.key = some old) (hi : item.isImplied = old.isImplied)
    (hs : old.isImplied = true → s = .inner s.key) :
    Tracks (es.put s.key item) (earlier ++ [s]) where
  nodup := (keys_put s.key item es).symm ▸ ht.nodup
  mem_iff k := by
    rw [keys_put, exists_key_concat, ← ht.mem_iff, or_iff_left_of_imp]
    rintro rfl
    exact mem_keys hl
  isImplied_iff {k it} h := by
    by_cases hk : k = s.key
    · subst hk
      rw [lookup_put_self hl] at h
      obtain rfl := Option.some.inj h
      rw [isImplied_concat_self, ← ht.isImplied_iff hl, hi]
      exact (and_iff_left_of_imp hs).symm
    · rw [lookup_put_ne hk] at h
      rw [ht.isImplied_iff h, isImplied_concat_of_ne hk]

theorem move (hs : s = .table s.key) (hi : item.isImplied = false) :
    Tracks (es.remove s.key ++ [(s.key, item)]) (earlier ++ [s]) where
  nodup := by
    rw [keys_append_singleton, keys_remove]
    exact List.concat_eq_append ▸ (ht.nodup.filter _).concat (by simp)
  mem_iff k := by
    rw [keys_append_singleton, keys_remove, List.mem_append, List.mem_singleton, List.mem_filter,
      exists_key_concat, ← ht.mem_iff]
    by_cases hk : k = s.key
    · simp [hk]
    · simp [hk]
  isImplied_iff {k it} h := by
    rw [lookup_append_singleton (lookup_remove_self _ _)] at h
    by_cases hk : k = s.key
    · subst hk
      rw [if_pos rfl] at h
      obtain rfl := Option.some.inj h
      rw [isImplied_concat_self, hi]
      apply iff_of_false Bool.false_ne_true
      intro h
      cases hs.symm.trans h.2
    · rw [if_neg hk, lookup_remove_ne hk] at h
      rw [ht.isImplied_iff h, isImplied_concat_of_ne hk]

/-- One statement declares its key and keeps what is known. -/
theorem leads (h : s.Leads es es') :
    es'.keys = declare earlier es.keys s ∧ Tracks es' (earlier ++ [s]) := by
  cases h with
  | append item hl hi =>
    refine ⟨?_, ht.append hl hi⟩
    rw [keys_append_singleton, declare, if_pos (lookup_eq_none.1 hl)]
  | update old item hl hi hs =>
    refine ⟨?_, ht.update hl hi hs⟩
    rw [keys_put, declare, if_neg (not_not_intro (mem_keys hl)), if_neg]
    intro h
    obtain ⟨htable, himplied⟩ := h
    cases htable.symm.trans (hs ((ht.isImplied_iff hl).2 himplied))
  | move old item hl ho hs hi =>
    refine ⟨?_, ht.move hs hi⟩
    rw [keys_append_singleton, keys_remove, declare, if_neg (not_not_intro (mem_keys hl)),
      if_pos ⟨hs, (ht.isImplied_iff hl).1 ho⟩]

theorem cons {ss : List Statement} {mid : Entries} (h : s.Leads es mid)
    (hrest : Tracks mid (earlier ++ [s]) →
      es'.keys = declareAll (earlier ++ [s]) mid.keys ss ∧ Tracks es' (earlier ++ [s] ++ ss)) :
    es'.keys = declareAll earlier es.keys (s :: ss) ∧ Tracks es' (earlier ++ s :: ss) := by
  obtain ⟨hkeys, hmid⟩ := ht.leads h
  obtain ⟨hkeys', hend⟩ := hrest hmid
  rw [declareAll, ← hkeys, List.append_cons earlier s ss]
  exact ⟨hkeys', hend⟩

theorem not_isImplied (hpairs : ∀ t ∈ earlier, ∃ k, t = .pair k) {k : String}
    (h : es.lookup k = some item) : item.isImplied = false := by
  rw [← Bool.not_eq_true, ht.isImplied_iff h]
  intro himplied
  obtain ⟨t, hmem, hk⟩ := (ht.mem_iff k).1 (mem_keys h)
  obtain ⟨l, hl⟩ := hpairs t hmem
  cases hl.symm.trans (himplied t hmem hk)

theorem addPairs {ps : List Pair} (hpairs : ∀ t ∈ earlier, ∃ k, t = .pair k)
    (hps : ∀ p ∈ ps, p.2.isImplied = false) (h : es.addPairs ps = some es') :
    es'.keys = declareAll earlier es.keys (pairsOf ps) ∧ Tracks es' (earlier ++ pairsOf ps) := by
  induction ps generalizing es earlier with
  | nil =>
    obtain rfl := Option.some.inj h
    rw [pairsOf, List.flatMap_nil, List.append_nil]
    exact ⟨rfl, ht⟩
  | cons p ps ih =>
    obtain ⟨hp, hps⟩ := List.forall_mem_cons.1 hps
    rw [Entries.addPairs, List.foldlM_cons] at h
    obtain ⟨mid, hmid, h⟩ := Option.bind_eq_some_iff.1 h
    obtain ⟨s, hs, hleads⟩ := leads_of_addPair hp (fun k old ↦ ht.not_isImplied hpairs) hmid
    obtain ⟨k, -, rfl⟩ := Option.map_eq_some_iff.1 hs
    have hpairs' : ∀ t ∈ earlier ++ [.pair k], ∃ k, t = .pair k :=
      List.forall_mem_append.2 ⟨hpairs, List.forall_mem_singleton.2 ⟨k, rfl⟩⟩
    have hps' : pairsOf (p :: ps) = .pair k :: pairsOf ps := by
      rw [pairsOf, List.flatMap_cons, hs]
      rfl
    rw [hps']
    exact ht.cons hleads fun ht' ↦ ih ht' hpairs' hps h

theorem addSections {sections : List Section} (h : sections.foldlM Document.addSection es = some es') :
    es'.keys = declareAll earlier es.keys (headersOf sections) ∧
      Tracks es' (earlier ++ headersOf sections) := by
  induction sections generalizing es earlier with
  | nil =>
    obtain rfl := Option.some.inj h
    rw [headersOf, List.flatMap_nil, List.append_nil]
    exact ⟨rfl, ht⟩
  | cons sec sections ih =>
    rw [List.foldlM_cons] at h
    obtain ⟨mid, hmid, h⟩ := Option.bind_eq_some_iff.1 h
    obtain ⟨s, hs, hleads⟩ := leads_of_addSection hmid
    have hsecs : headersOf (sec :: sections) = s :: headersOf sections := by
      rw [headersOf, List.flatMap_cons, hs]
      rfl
    rw [hsecs]
    exact ht.cons hleads fun ht' ↦ ih ht' h

end Tracks

theorem Document.keys_of_entries? {ls : List Line} (hls : ∀ p, .pair p ∈ ls → p.2.isImplied = false)
    (h : (Document.ofLines ls).entries? = some es) :
    es.keys = keyOrder (statements ls) ∧ Tracks es (statements ls) := by
  obtain ⟨mid, hmid, h⟩ := Option.bind_eq_some_iff.1 h
  obtain ⟨hkeys, ht⟩ := tracks_nil.addPairs nofun
    (fun p hp ↦ hls p (pair_mem_of_mem_preamble hp)) hmid
  obtain ⟨hkeys', ht'⟩ := ht.addSections h
  rw [List.nil_append] at hkeys' ht'
  rw [statements_eq, keyOrder, declareAll_append, List.nil_append]
  rw [hkeys] at hkeys'
  exact ⟨hkeys', ht'⟩

end Toml

namespace Template

open Toml

variable {content content' : String} {t t' : Template}

/-- The lines of a text, as far as they can be read, and what is left. -/
def readLines (content : String) : List Line × List Char :=
  lines.many (Document.dropMark content.toList)

theorem ofToml?_eq_some (h : ofToml? content = some t) : ∃ ls es, readLines content = (ls, []) ∧
    (Document.ofLines ls).entries? = some es ∧ t.keys = es.keys := by
  unfold ofToml? Document.ofText? at h
  split at h
  · rename_i es hes
    split at h
    · obtain ⟨doc, hdoc, hes⟩ := Option.bind_eq_some_iff.1 hes
      split at hdoc
      · rename_i ls hls
        obtain rfl := Option.some.inj hdoc
        obtain rfl := Option.some.inj h
        exact ⟨ls, es, hls, hes, rfl⟩
      · cases hdoc
    · cases h
  · cases h

theorem keys_spec (h : ofToml? content = some t) : ∃ ls, readLines content = (ls, []) ∧
    t.keys = Statement.keyOrder (statements ls) ∧ t.keys.Nodup := by
  obtain ⟨ls, es, hls, hes, ht⟩ := ofToml?_eq_some h
  have hvalues (p : Pair) (hp : .pair p ∈ ls) : p.2.isImplied = false := by
    have hmem : .pair p ∈ (readLines content).1 := hls ▸ hp
    obtain ⟨s, r, hr⟩ := Reader.exists_read_of_mem_many hmem
    exact isImplied_of_line hr
  obtain ⟨hkeys, htracks⟩ := Document.keys_of_entries? hvalues hes
  exact ⟨ls, hls, ht.trans hkeys, ht ▸ htracks.nodup⟩

/-- The keys of a template come in the order in which the statements of its text declare them, each of
them once. Nothing else in the text has any influence on them. -/
theorem keys_eq_keyOrder (h : ofToml? content = some t) :
    ∃ ls, readLines content = (ls, []) ∧ t.keys = Statement.keyOrder (statements ls) ∧
      t.keys.Nodup ∧
      ∀ content' t' ls', ofToml? content' = some t' → readLines content' = (ls', []) →
        statements ls' = statements ls → t'.keys = t.keys := by
  obtain ⟨ls, hls, hkeys, hnodup⟩ := keys_spec h
  refine ⟨ls, hls, hkeys, hnodup, ?_⟩
  intro content' t' ls' h' hls' hsame
  obtain ⟨ms, hms, hkeys', -⟩ := keys_spec h'
  obtain rfl : ls' = ms := congrArg Prod.fst (hls'.symm.trans hms)
  rw [hkeys', hkeys, hsame]

theorem keys_of_reopened :
    ofToml? "b = 1\n[a.x]\nv = 2\n[c]\n[a]\nb = 3" = some ⟨["b", "c", "a"]⟩ ∧
    ∃ ls, readLines "b = 1\n[a.x]\nv = 2\n[c]\n[a]\nb = 3" = (ls, []) ∧
      Statement.keyOrder (statements ls) = ["b", "c", "a"] := by
  have h : ofToml? "b = 1\n[a.x]\nv = 2\n[c]\n[a]\nb = 3" = some ⟨["b", "c", "a"]⟩ := by
    decide +kernel
  obtain ⟨ls, hls, hkeys, -⟩ := keys_eq_keyOrder h
  exact ⟨h, ls, hls, hkeys.symm⟩

end Template

end KeyAudit
