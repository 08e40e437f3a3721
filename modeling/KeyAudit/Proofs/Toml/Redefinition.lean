import KeyAudit.Proofs.Template
import KeyAudit.Proofs.Toml.Listing

namespace KeyAudit.Toml

variable {es es' : Entries} {k m : String} {item : Item} {ms : List String} {ps : List (String × String)}

/-- What a header says of its first key: `[k]` opens the table under it, `[[k]]` a further element of the
array under it, and `[k.m]` the table under `m` in its table or its last element. -/
inductive Form where
  | table
  | element
  | inner (m : String)
  deriving DecidableEq, Repr

structure Heading where
  key : String
  form : Form
  deriving DecidableEq, Repr

namespace Heading

def kind (h : Heading) : HeaderKind := if h.form = .element then .element else .table

def path (h : Heading) : List String :=
  match h.form with
  | .inner m => [h.key, m]
  | _ => [h.key]

def asSection (h : Heading) : Section := ⟨h.kind, h.path, []⟩

/-- What the headers say of one key. -/
def under (k : String) (hs : List Heading) : List Form :=
  hs.filterMap fun h ↦ if h.key = k then some h.form else none

theorem under_cons_self (h : Heading) (hs : List Heading) :
    under h.key (h :: hs) = h.form :: under h.key hs := by
  simp [under]

theorem under_cons_of_ne {h : Heading} (hk : h.key ≠ k) (hs : List Heading) :
    under k (h :: hs) = under k hs := by
  simp [under, hk]

end Heading

namespace Form

/-- What stands under a key after a header, where `old` has stood there before. -/
def after? : Form → (old : Option Item) → Option Item
  | .table, none => some (.table .header [])
  | .table, some (.table .implied sub) => some (.table .header sub)
  | .element, none => some (.tables [[]])
  | .element, some (.tables elements) => some (.tables (elements ++ [[]]))
  | .inner m, none => (Entries.openTable [m] [] []).map (.table .implied)
  | .inner m, some (.table origin sub) => (Entries.openTable [m] [] sub).map (.table origin)
  | .inner m, some (.tables elements) => elements.getLast?.bind fun sub ↦
    (Entries.openTable [m] [] sub).map fun sub ↦ .tables (elements.dropLast ++ [sub])
  | _, _ => none

def afterAll? : List Form → (old : Option Item) → Option (Option Item)
  | [], old => some old
  | f :: fs, old => (f.after? old).bind fun item ↦ afterAll? fs (some item)

end Form

namespace Entries

/-- The entries are the same but for the item under one key. -/
def Sets (es : Entries) (k : String) (item : Item) (es' : Entries) : Prop :=
  ∀ l, es'.lookup l = if l = k then some item else es.lookup l

theorem sets_append (h : es.lookup k = none) : es.Sets k item (es ++ [(k, item)]) :=
  fun l ↦ lookup_append_singleton h l

theorem sets_put {old : Item} (h : es.lookup k = some old) : es.Sets k item (es.put k item) := by
  intro l
  by_cases hl : l = k
  · rw [hl, if_pos rfl, lookup_put_self h]
  · rw [if_neg hl, lookup_put_ne hl]

theorem sets_move (es : Entries) (k : String) (item : Item) :
    es.Sets k item (es.remove k ++ [(k, item)]) := by
  intro l
  rw [lookup_append_singleton (lookup_remove_self k es)]
  by_cases hl : l = k
  · rw [if_pos hl, if_pos hl]
  · rw [if_neg hl, if_neg hl, lookup_remove_ne hl]

/-- What a header does depends on the item under its first key, and it changes no other one. -/
def Follows (es : Entries) (k : String) : Option Item → Option Entries → Prop
  | none, none => True
  | some item, some es' => es.Sets k item es'
  | _, _ => False

theorem follows_map {α : Type} {item : α → Item} {next : α → Entries} (o : Option α)
    (h : ∀ a, es.Sets k (item a) (next a)) : es.Follows k (o.map item) (o.map next) := by
  cases o with
  | none => trivial
  | some a => exact h a

theorem openTable_follows (es : Entries) (k : String) :
    es.Follows k (Form.table.after? (es.lookup k)) (es.openTable [k] []) := by
  simp only [openTable, change, Bool.false_and, Bool.false_eq_true, if_false]
  cases hl : es.lookup k with
  | none => exact sets_append hl
  | some item =>
    cases item with
    | table origin sub =>
      cases origin with
      | implied => exact sets_move es k _
      | header | dotted => trivial
    | text | plain | array | inlined | tables => trivial

theorem openElement_follows (es : Entries) (k : String) :
    es.Follows k (Form.element.after? (es.lookup k)) (es.openElement [k] []) := by
  simp only [openElement, change, Bool.false_and, Bool.false_eq_true, if_false]
  cases hl : es.lookup k with
  | none => exact sets_append hl
  | some item =>
    cases item with
    | tables elements => exact sets_put hl
    | text | plain | array | inlined | table => trivial

theorem openTable_cons (es : Entries) (k m : String) : es.openTable [k, m] [] =
    match es.lookup k with
    | none => (openTable [m] [] []).map fun sub ↦ es ++ [(k, .table .implied sub)]
    | some (.table origin sub) => (openTable [m] [] sub).map fun sub ↦ es.put k (.table origin sub)
    | some (.tables elements) => elements.getLast?.bind fun sub ↦
      (openTable [m] [] sub).map fun sub ↦ es.put k (.tables (elements.dropLast ++ [sub]))
    | some _ => none := by
  rw [openTable, change.eq_3 _ _ _ _ _ _ (List.cons_ne_nil m [])]
  cases es.lookup k with
  | none => rfl
  | some item =>
    cases item with
    | tables elements =>
      dsimp only
      cases elements.getLast? <;> rfl
    | text | plain | array | inlined | table => rfl

theorem openTable_inner_follows (es : Entries) (k m : String) :
    es.Follows k ((Form.inner m).after? (es.lookup k)) (es.openTable [k, m] []) := by
  rw [openTable_cons]
  cases hl : es.lookup k with
  | none => exact follows_map (openTable [m] [] []) fun _ ↦ sets_append hl
  | some item =>
    cases item with
    | table origin sub => exact follows_map (openTable [m] [] sub) fun _ ↦ sets_put hl
    | tables elements =>
      cases he : elements.getLast? with
      | none =>
        simp only [Form.after?, he, Option.bind_none]
        trivial
      | some sub =>
        simp only [Form.after?, he, Option.bind_some]
        exact follows_map (openTable [m] [] sub) fun _ ↦ sets_put hl
    | text | plain | array | inlined => trivial

theorem addSection_follows (es : Entries) (h : Heading) :
    es.Follows h.key (h.form.after? (es.lookup h.key)) (Document.addSection es h.asSection) := by
  obtain ⟨k, form⟩ := h
  cases form with
  | table => exact openTable_follows es k
  | element => exact openElement_follows es k
  | inner m => exact openTable_inner_follows es k m

/-- The headers of a document are accepted exactly if those of each key are, one key by itself. -/
theorem addSections_follows (es : Entries) (hs : List Heading) :
    (∃ es', (hs.map Heading.asSection).foldlM Document.addSection es = some es' ∧
      ∀ k, Form.afterAll? (Heading.under k hs) (es.lookup k) = some (es'.lookup k)) ∨
    (hs.map Heading.asSection).foldlM Document.addSection es = none ∧
      ∃ k, Form.afterAll? (Heading.under k hs) (es.lookup k) = none := by
  induction hs generalizing es with
  | nil => exact .inl ⟨es, rfl, fun _ ↦ rfl⟩
  | cons h hs ih =>
    have hstep := addSection_follows es h
    rw [List.map_cons, List.foldlM_cons]
    cases hi : h.form.after? (es.lookup h.key) with
    | none =>
      cases hadd : Document.addSection es h.asSection with
      | some mid => simp only [hi, hadd, Follows] at hstep
      | none =>
        refine .inr ⟨rfl, h.key, ?_⟩
        rw [Heading.under_cons_self, Form.afterAll?, hi, Option.bind_none]
    | some item =>
      cases hadd : Document.addSection es h.asSection with
      | none => simp only [hi, hadd, Follows] at hstep
      | some mid =>
        have hsets : es.Sets h.key item mid := by simpa only [hi, hadd, Follows] using hstep
        have hrun (k : String) : Form.afterAll? (Heading.under k (h :: hs)) (es.lookup k) =
            Form.afterAll? (Heading.under k hs) (mid.lookup k) := by
          rw [hsets k]
          by_cases hk : h.key = k
          · subst hk
            rw [Heading.under_cons_self, Form.afterAll?, hi, if_pos rfl, Option.bind_some]
          · rw [Heading.under_cons_of_ne hk, if_neg (Ne.symm hk)]
        simp only [hrun]
        exact ih mid

end Entries

def bareTables (ms : List String) : Entries := ms.map fun m ↦ (m, .table .header [])

theorem lookup_bareTables (ms : List String) (m : String) :
    (bareTables ms).lookup m = if m ∈ ms then some (.table .header []) else none := by
  induction ms with
  | nil => rfl
  | cons n ms ih =>
    rw [bareTables, List.map_cons, Entries.lookup_cons]
    by_cases h : m = n
    · simp [h]
    · rw [if_neg h]
      simp only [List.mem_cons, h, false_or]
      exact ih

theorem openTable_bareTables (ms : List String) (m : String) :
    Entries.openTable [m] [] (bareTables ms) =
      if m ∈ ms then none else some (bareTables (ms ++ [m])) := by
  simp only [Entries.openTable, Entries.change, Bool.false_and, Bool.false_eq_true, if_false,
    lookup_bareTables]
  by_cases h : m ∈ ms
  · rw [if_pos h, if_pos h]
  · rw [if_neg h, if_neg h, bareTables, bareTables, List.map_append]
    rfl

theorem areSoundEntries_bareTables (ms : List String) : areSoundEntries (bareTables ms) = true := by
  induction ms with
  | nil => rfl
  | cons m ms ih => exact ih

theorem isSoundTable_bareTables :
    isSoundTable (bareTables ms) = true ↔ ms.head? ≠ some momentKey := by
  cases ms with
  | nil => exact iff_of_true rfl nofun
  | cons m ms =>
    rw [List.head?_cons, Ne, Option.some.injEq]
    by_cases h : m = momentKey
    · simp [bareTables, isSoundTable, h]
    · refine iff_of_true ?_ h
      rw [bareTables, List.map_cons, isSoundTable.eq_def]
      simp only [h, if_false]
      exact areSoundEntries_bareTables ms

theorem areSoundTables_bareTables {gs : List (List String)} :
    areSoundTables (gs.map bareTables) = true ↔ ∀ ms ∈ gs, ms.head? ≠ some momentKey := by
  induction gs with
  | nil => exact iff_of_true rfl nofun
  | cons ms gs ih =>
    rw [List.map_cons, areSoundTables, Bool.and_eq_true, isSoundTable_bareTables, ih,
      List.forall_mem_cons]

namespace Form

/-- The keys behind the first one, up to the first `[[k]]`. -/
def loose : List Form → List String
  | [] => []
  | .table :: fs => loose fs
  | .element :: _ => []
  | .inner m :: fs => m :: loose fs

/-- For each `[[k]]` the keys behind the first one, up to the next `[[k]]`. -/
def grouped : List Form → List (List String)
  | [] => []
  | .element :: fs => loose fs :: grouped fs
  | .table :: fs => grouped fs
  | .inner _ :: fs => grouped fs

/-- After all these headers something stands under the key, and it may stand in a template. -/
def Accepts (fs : List Form) (old : Option Item) : Prop :=
  ∃ new, afterAll? fs old = some new ∧ ∀ item ∈ new, item.isSound = true

theorem accepts_nil {old : Option Item} : Accepts [] old ↔ ∀ item ∈ old, item.isSound = true := by
  simp [Accepts, afterAll?]

theorem accepts_cons_of_some {f : Form} {fs : List Form} {old : Option Item}
    (h : f.after? old = some item) : Accepts (f :: fs) old ↔ Accepts fs (some item) := by
  simp [Accepts, afterAll?, h]

theorem not_accepts_cons {f : Form} {fs : List Form} {old : Option Item} (h : f.after? old = none) :
    ¬ Accepts (f :: fs) old := by
  simp [Accepts, afterAll?, h]

theorem accepts_tables (fs : List Form) (done : List (List String)) (hms : ms.Nodup) :
    Accepts fs (some (.tables ((done ++ [ms]).map bareTables))) ↔
      .table ∉ fs ∧ ((ms ++ loose fs).Nodup ∧ ∀ g ∈ grouped fs, g.Nodup) ∧
        ∀ g ∈ done ++ (ms ++ loose fs) :: grouped fs, g.head? ≠ some momentKey := by
  induction fs generalizing done ms with
  | nil =>
    rw [accepts_nil]
    simp only [Option.mem_some_iff, forall_eq', Item.isSound, areSoundTables_bareTables]
    simp [loose, grouped, hms]
  | cons f fs ih =>
    cases f with
    | table => exact iff_of_false (not_accepts_cons rfl) (by simp)
    | element =>
      have hstep : element.after? (some (.tables ((done ++ [ms]).map bareTables))) =
          some (.tables ((done ++ [ms] ++ [[]]).map bareTables)) := by
        rw [@List.map_append _ _ bareTables _ [[]]]
        rfl
      rw [accepts_cons_of_some hstep, ih _ List.nodup_nil]
      simp [loose, grouped, hms]
    | inner m =>
      have hstep : (inner m).after? (some (.tables ((done ++ [ms]).map bareTables))) =
          if m ∈ ms then none else some (.tables ((done ++ [ms ++ [m]]).map bareTables)) := by
        simp only [after?, List.map_append, List.map_singleton, List.getLast?_concat, Option.bind_some,
          List.dropLast_concat, openTable_bareTables]
        split <;> rfl
      by_cases hm : m ∈ ms
      · rw [if_pos hm] at hstep
        refine iff_of_false (not_accepts_cons hstep) ?_
        intro h
        exact (List.nodup_append.1 h.2.1.1).2.2 m hm m List.mem_cons_self rfl
      · rw [if_neg hm] at hstep
        rw [accepts_cons_of_some hstep, ih _ (List.concat_eq_append ▸ hms.concat hm), List.append_assoc]
        simp [loose, grouped]

/-- How a table came to be for which there is a header of its own, or none yet. -/
def originOf (own : Bool) : Origin := if own then .header else .implied

theorem accepts_table (fs : List Form) (own : Bool) (hms : ms.Nodup) :
    Accepts fs (some (.table (originOf own) (bareTables ms))) ↔
      .element ∉ fs ∧ own.toNat + fs.count .table ≤ 1 ∧ (ms ++ loose fs).Nodup ∧
        (ms ++ loose fs).head? ≠ some momentKey := by
  induction fs generalizing own ms with
  | nil =>
    rw [accepts_nil]
    simp only [Option.mem_some_iff, forall_eq', Item.isSound, isSoundTable_bareTables]
    simp [loose, hms, own.toNat_le]
  | cons f fs ih =>
    cases f with
    | element =>
      refine iff_of_false (not_accepts_cons ?_) (by simp)
      cases own <;> rfl
    | table =>
      cases own with
      | false =>
        have hstep : table.after? (some (.table (originOf false) (bareTables ms))) =
            some (.table (originOf true) (bareTables ms)) := rfl
        rw [accepts_cons_of_some hstep, ih true hms, List.count_cons_self, Nat.add_comm (fs.count _)]
        simp [loose]
      | true =>
        refine iff_of_false (not_accepts_cons rfl) ?_
        rw [List.count_cons_self, Bool.toNat_true]
        omega
    | inner m =>
      have hstep : (inner m).after? (some (.table (originOf own) (bareTables ms))) =
          if m ∈ ms then none else some (.table (originOf own) (bareTables (ms ++ [m]))) := by
        simp only [after?, openTable_bareTables]
        split <;> rfl
      by_cases hm : m ∈ ms
      · rw [if_pos hm] at hstep
        refine iff_of_false (not_accepts_cons hstep) ?_
        intro h
        exact (List.nodup_append.1 h.2.2.1).2.2 m hm m List.mem_cons_self rfl
      · rw [if_neg hm] at hstep
        rw [accepts_cons_of_some hstep, ih own (List.concat_eq_append ▸ hms.concat hm), List.append_assoc]
        simp [loose]

/-- Where there is no `[[k]]`, there is at most one `[k]` and one `[k.m]` for each `m`. Where there is
one, there is no `[k]`, no `[k.m]` in front of the first `[[k]]`, and no two `[k.m]` behind one and the
same `[[k]]`. -/
structure Agree (fs : List Form) : Prop where
  alone : .element ∉ fs → fs.count .table ≤ 1 ∧ (loose fs).Nodup
  repeated : .element ∈ fs → .table ∉ fs ∧ loose fs = [] ∧ ∀ ms ∈ grouped fs, ms.Nodup

/-- The key that marks a moment is not the first one in any table or element. -/
def IsUnreserved (fs : List Form) : Prop := ∀ ms ∈ loose fs :: grouped fs, ms.head? ≠ some momentKey

instance : DecidablePred Agree := fun fs ↦
  decidable_of_iff ((.element ∉ fs → fs.count .table ≤ 1 ∧ (loose fs).Nodup) ∧
    (.element ∈ fs → .table ∉ fs ∧ loose fs = [] ∧ ∀ ms ∈ grouped fs, ms.Nodup))
    ⟨fun h ↦ ⟨h.1, h.2⟩, fun h ↦ ⟨h.alone, h.repeated⟩⟩

instance : DecidablePred IsUnreserved := fun fs ↦
  inferInstanceAs (Decidable (∀ ms ∈ loose fs :: grouped fs, ms.head? ≠ some momentKey))

theorem grouped_eq_nil {fs : List Form} (h : .element ∉ fs) : grouped fs = [] := by
  induction fs with
  | nil => rfl
  | cons f fs ih =>
    have hfs := ih (List.not_mem_of_not_mem_cons h)
    cases f with
    | element => exact absurd List.mem_cons_self h
    | table | inner m => exact hfs

theorem agree_of_not_mem {fs : List Form} (h : .element ∉ fs) :
    Agree fs ↔ fs.count .table ≤ 1 ∧ (loose fs).Nodup :=
  ⟨fun ha ↦ ha.alone h, fun ha ↦ ⟨fun _ ↦ ha, fun hmem ↦ absurd hmem h⟩⟩

theorem isUnreserved_of_not_mem {fs : List Form} (h : .element ∉ fs) :
    IsUnreserved fs ↔ (loose fs).head? ≠ some momentKey := by
  rw [IsUnreserved, grouped_eq_nil h, List.forall_mem_singleton]

theorem accepts_none (fs : List Form) : Accepts fs none ↔ Agree fs ∧ IsUnreserved fs := by
  cases fs with
  | nil =>
    rw [accepts_nil, agree_of_not_mem List.not_mem_nil, isUnreserved_of_not_mem List.not_mem_nil]
    simp [loose]
  | cons f fs =>
    cases f with
    | element =>
      have hstep : element.after? none = some (.tables (([] ++ [[]]).map bareTables)) := rfl
      rw [accepts_cons_of_some hstep, accepts_tables fs [] List.nodup_nil]
      constructor
      · intro h
        obtain ⟨htable, hnodup, hfree⟩ := h
        refine ⟨⟨fun hno ↦ absurd List.mem_cons_self hno, fun _ ↦ ?_⟩, ?_⟩
        · exact ⟨by simpa using htable, rfl, List.forall_mem_cons.2 hnodup⟩
        · exact List.forall_mem_cons.2 ⟨nofun, hfree⟩
      · intro h
        obtain ⟨hagree, hfree⟩ := h
        obtain ⟨htable, -, hnodup⟩ := hagree.repeated List.mem_cons_self
        exact ⟨List.not_mem_of_not_mem_cons htable, List.forall_mem_cons.1 hnodup,
          (List.forall_mem_cons.1 hfree).2⟩
    | table =>
      have hstep : table.after? none = some (.table (originOf true) (bareTables [])) := rfl
      rw [accepts_cons_of_some hstep, accepts_table fs true List.nodup_nil]
      by_cases h : .element ∈ fs
      · refine iff_of_false (fun ha ↦ ha.1 h) fun ha ↦ ?_
        exact (ha.1.repeated (List.mem_cons_of_mem _ h)).1 List.mem_cons_self
      · have h' : .element ∉ table :: fs := by simpa using h
        rw [agree_of_not_mem h', isUnreserved_of_not_mem h', List.count_cons_self,
          Nat.add_comm (fs.count _), and_assoc]
        exact and_iff_right h
    | inner m =>
      have hstep : (inner m).after? none = some (.table (originOf false) (bareTables [m])) := rfl
      rw [accepts_cons_of_some hstep, accepts_table fs false (List.nodup_singleton m)]
      by_cases h : .element ∈ fs
      · refine iff_of_false (fun ha ↦ ha.1 h) fun ha ↦ ?_
        cases (ha.1.repeated (List.mem_cons_of_mem _ h)).2.1
      · have h' : .element ∉ inner m :: fs := by simpa using h
        rw [agree_of_not_mem h', isUnreserved_of_not_mem h', and_assoc]
        simp [h, loose]

theorem accepts_text (fs : List Form) (t : String) : Accepts fs (some (.text t)) ↔ fs = [] := by
  cases fs with
  | nil =>
    rw [accepts_nil]
    exact iff_of_true (fun _ h ↦ Option.mem_some_iff.1 h ▸ rfl) rfl
  | cons f fs => cases f <;> exact iff_of_false (not_accepts_cons rfl) (List.cons_ne_nil _ _)

end Form

namespace Entries

theorem lookup_of_mem (hes : es.keys.Nodup) (h : (k, item) ∈ es) : es.lookup k = some item := by
  obtain ⟨before, after, rfl⟩ := List.append_of_mem h
  refine List.lookup_eq_some_iff.2 ⟨before, after, rfl, ?_⟩
  intro e he
  rw [keys, List.map_append, List.nodup_append] at hes
  have hne := hes.2.2 e.1 (List.mem_map_of_mem he) k List.mem_cons_self
  exact bne_iff_ne.2 (Ne.symm hne)

theorem areSoundEntries_iff : areSoundEntries es = true ↔ ∀ e ∈ es, e.2.isSound = true := by
  induction es with
  | nil => exact iff_of_true rfl nofun
  | cons e es ih => rw [areSoundEntries, Bool.and_eq_true, ih, List.forall_mem_cons]

theorem addSections_sound_iff (hs : List Heading)
    (hnodup : ∀ es', (hs.map Heading.asSection).foldlM Document.addSection es = some es' →
      es'.keys.Nodup) :
    (∃ es', (hs.map Heading.asSection).foldlM Document.addSection es = some es' ∧
      areSoundEntries es' = true) ↔
    ∀ k, Form.Accepts (Heading.under k hs) (es.lookup k) := by
  obtain ⟨es', hadd, hrun⟩ | ⟨hadd, k, hrun⟩ := addSections_follows es hs
  · have hsound : areSoundEntries es' = true ↔
        ∀ k item, es'.lookup k = some item → item.isSound = true := by
      rw [areSoundEntries_iff]
      constructor
      · intro h k item hl
        exact h _ (mem_of_lookup hl)
      · intro h e he
        exact h e.1 e.2 (lookup_of_mem (hnodup es' hadd) he)
    have haccepts (k : String) : Form.Accepts (Heading.under k hs) (es.lookup k) ↔
        ∀ item, es'.lookup k = some item → item.isSound = true := by
      simp only [Form.Accepts, hrun k, Option.some.injEq, exists_eq_left', Option.mem_def]
    simp only [haccepts, hadd, Option.some.injEq, exists_eq_left', hsound]
  · constructor
    · intro h
      obtain ⟨es', hadd', -⟩ := h
      cases hadd.symm.trans hadd'
    · intro h
      obtain ⟨new, hnew, -⟩ := h k
      cases hrun.symm.trans hnew

theorem lookup_texts (h : k ∈ ps.map Prod.fst) :
    ∃ t, List.lookup k (ps.map asEntry) = some (.text t) := by
  cases hl : List.lookup k (ps.map asEntry) with
  | none =>
    have hno : k ∉ keys (ps.map asEntry) := lookup_eq_none.1 hl
    rw [keys, List.map_map] at hno
    exact absurd h hno
  | some item =>
    obtain ⟨p, -, hp⟩ := List.mem_map.1 (mem_of_lookup hl)
    obtain ⟨-, rfl⟩ := Prod.mk.inj hp
    exact ⟨p.2, rfl⟩

theorem lookup_texts_eq_none (h : k ∉ ps.map Prod.fst) :
    List.lookup k (ps.map asEntry) = none := by
  have hno : k ∉ keys (ps.map asEntry) := by
    rw [keys, List.map_map]
    exact h
  exact lookup_eq_none.2 hno

end Entries

/-- Pairs under keys that differ from each other, and headers that begin with none of these keys and agree
with each other. -/
structure Consistent (ps : List (String × String)) (hs : List Heading) : Prop where
  nodup : (ps.map Prod.fst).Nodup
  apart : ∀ h ∈ hs, h.key ∉ ps.map Prod.fst
  agree : ∀ k, Form.Agree (Heading.under k hs)

def listingOf (ps : List (String × String)) (hs : List Heading) : Document :=
  ⟨ps.map asPair, hs.map Heading.asSection⟩

theorem Heading.under_eq_nil {hs : List Heading} : under k hs = [] ↔ ∀ h ∈ hs, h.key ≠ k := by
  rw [under, List.filterMap_eq_nil_iff]
  simp

theorem Heading.forall_under {Q : List Form → Prop} (hnil : Q []) (hs : List Heading) :
    (∀ k, Q (under k hs)) ↔ ∀ h ∈ hs, Q (under h.key hs) := by
  constructor
  · intro h g _
    exact h g.key
  · intro h k
    by_cases hk : ∃ g ∈ hs, g.key = k
    · obtain ⟨g, hg, rfl⟩ := hk
      exact h g hg
    · have hno : under k hs = [] := under_eq_nil.2 fun g hg he ↦ hk ⟨g, hg, he⟩
      exact hno ▸ hnil

theorem agree_nil : Form.Agree [] := by decide

theorem isUnreserved_nil : Form.IsUnreserved [] := by decide

instance (ps : List (String × String)) (hs : List Heading) : Decidable (Consistent ps hs) :=
  decidable_of_iff ((ps.map Prod.fst).Nodup ∧ (∀ h ∈ hs, h.key ∉ ps.map Prod.fst) ∧
    ∀ h ∈ hs, Form.Agree (Heading.under h.key hs))
    ⟨fun h ↦ ⟨h.1, h.2.1, (Heading.forall_under agree_nil hs).2 h.2.2⟩,
      fun h ↦ ⟨h.nodup, h.apart, (Heading.forall_under agree_nil hs).1 h.agree⟩⟩

theorem accepts_texts (hs : List Heading) :
    (∀ k, Form.Accepts (Heading.under k hs) (List.lookup k (ps.map asEntry))) ↔
      (∀ h ∈ hs, h.key ∉ ps.map Prod.fst) ∧
        ∀ k, Form.Agree (Heading.under k hs) ∧ Form.IsUnreserved (Heading.under k hs) := by
  constructor
  · intro h
    have hapart (k : String) (hk : k ∈ ps.map Prod.fst) : Heading.under k hs = [] := by
      obtain ⟨t, ht⟩ := Entries.lookup_texts hk
      exact (Form.accepts_text _ t).1 (ht ▸ h k)
    refine ⟨fun g hg hk ↦ Heading.under_eq_nil.1 (hapart g.key hk) g hg rfl, fun k ↦ ?_⟩
    by_cases hk : k ∈ ps.map Prod.fst
    · exact hapart k hk ▸ ⟨agree_nil, isUnreserved_nil⟩
    · exact (Form.accepts_none _).1 (Entries.lookup_texts_eq_none hk ▸ h k)
  · intro h k
    by_cases hk : k ∈ ps.map Prod.fst
    · obtain ⟨t, ht⟩ := Entries.lookup_texts hk
      rw [ht, Form.accepts_text, Heading.under_eq_nil]
      intro g hg he
      exact h.1 g hg (he ▸ hk)
    · rw [Entries.lookup_texts_eq_none hk, Form.accepts_none]
      exact h.2 k

/-- What a document of pairs and headers says can be put together exactly if it is consistent, and then it
is a template unless it uses the key that marks a moment. -/
theorem exists_entries?_listingOf (ps : List (String × String)) (hs : List Heading) :
    (∃ es, (listingOf ps hs).entries? = some es ∧ areSoundEntries es = true) ↔
      Consistent ps hs ∧ ∀ k, Form.IsUnreserved (Heading.under k hs) := by
  have hempty : (Entries.keys []).Nodup := .nil
  by_cases hps : (ps.map Prod.fst).Nodup
  · have hadd : Entries.addPairs [] (ps.map asPair) = some (ps.map asEntry) :=
      (Entries.addPairs_eq_some hempty).2 ⟨hps, rfl⟩
    have htexts (p : Pair) (hp : p ∈ ps.map asPair) : p.2.isImplied = false := by
      obtain ⟨q, -, rfl⟩ := List.mem_map.1 hp
      rfl
    obtain ⟨-, htracks⟩ := tracks_nil.addPairs nofun htexts hadd
    have hentries : (listingOf ps hs).entries? =
        (hs.map Heading.asSection).foldlM Document.addSection (ps.map asEntry) := by
      rw [Document.entries?, listingOf, hadd, Option.bind_some]
    rw [hentries, Entries.addSections_sound_iff hs fun es' h ↦ (htracks.addSections h).2.nodup,
      accepts_texts]
    constructor
    · intro h
      exact ⟨⟨hps, h.1, fun k ↦ (h.2 k).1⟩, fun k ↦ (h.2 k).2⟩
    · intro h
      exact ⟨h.1.apart, fun k ↦ ⟨h.1.agree k, h.2 k⟩⟩
  · refine iff_of_false ?_ fun h ↦ hps h.1.nodup
    intro h
    obtain ⟨es, hes, -⟩ := h
    obtain ⟨mid, hmid, -⟩ := Option.bind_eq_some_iff.1 hes
    exact hps ((Entries.addPairs_eq_some hempty).1 hmid).1

end KeyAudit.Toml
