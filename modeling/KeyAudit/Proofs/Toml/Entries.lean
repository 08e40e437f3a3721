import KeyAudit.Proofs.Toml.Statements
import Mathlib.Data.List.Nodup

namespace KeyAudit.Toml

variable {es es' : Entries} {k k' : String} {old item : Item} {path : List String}
  {body : List Pair}

/-- The item is a table through which headers have led, but which has none of its own. -/
def Item.isImplied : Item → Bool
  | .table .implied _ => true
  | _ => false

namespace Entries

def keys (es : Entries) : List String := es.map (·.1)

theorem keys_append_singleton (es : Entries) (k : String) (item : Item) :
    keys (es ++ [(k, item)]) = keys es ++ [k] := List.map_append

theorem keys_put (k : String) (item : Item) (es : Entries) : keys (es.put k item) = keys es := by
  rw [keys, put, List.map_map]
  apply List.map_congr_left
  intro e _
  by_cases h : e.1 = k
  · simp [h]
  · simp [h]

theorem keys_remove (k : String) (es : Entries) : keys (es.remove k) = (keys es).filter (· ≠ k) := by
  rw [keys, keys, List.filter_map, remove]
  congr 2
  funext e
  simp only [bne, Function.comp_apply, decide_not, Bool.beq_eq_decide_eq]

theorem lookup_cons (k l : String) (item : Item) (es : Entries) :
    ((l, item) :: es).lookup k = if k = l then some item else es.lookup k := by
  rw [List.lookup_cons]
  by_cases h : k = l
  · simp [h]
  · rw [beq_false_of_ne h, if_neg h]

theorem lookup_eq_none : es.lookup k = none ↔ k ∉ keys es := by
  induction es with
  | nil => simp [keys]
  | cons e es ih =>
    rw [lookup_cons, keys, List.map_cons, List.mem_cons, not_or]
    by_cases h : k = e.1
    · simp [h]
    · rw [if_neg h]
      exact ih.trans (and_iff_right h).symm

theorem lookup_append_singleton (h : es.lookup k = none) (k' : String) :
    (es ++ [(k, item)]).lookup k' = if k' = k then some item else es.lookup k' := by
  rw [List.lookup_append, lookup_cons]
  by_cases hk : k' = k
  · simp [hk, h]
  · simp [hk]

theorem lookup_put_self (h : es.lookup k = some old) : (es.put k item).lookup k = some item := by
  induction es with
  | nil => cases h
  | cons e es ih =>
    rw [put, List.map_cons]
    by_cases hk : e.1 = k
    · rw [if_pos hk, lookup_cons, if_pos rfl]
    · rw [if_neg hk, lookup_cons, if_neg (Ne.symm hk)]
      rw [lookup_cons, if_neg (Ne.symm hk)] at h
      exact ih h

theorem lookup_put_ne (hk : k' ≠ k) (es : Entries) : (es.put k item).lookup k' = es.lookup k' := by
  induction es with
  | nil => rfl
  | cons e es ih =>
    rw [put, List.map_cons]
    by_cases he : e.1 = k
    · rw [if_pos he, lookup_cons, lookup_cons, if_neg hk, if_neg (he ▸ hk)]
      exact ih
    · rw [if_neg he, lookup_cons, lookup_cons]
      exact congrArg _ ih

theorem lookup_remove_ne (hk : k' ≠ k) (es : Entries) : (es.remove k).lookup k' = es.lookup k' := by
  induction es with
  | nil => rfl
  | cons e es ih =>
    rw [remove, List.filter_cons]
    by_cases he : e.1 = k
    · rw [if_neg (by simp [he]), lookup_cons, if_neg (he ▸ hk)]
      exact ih
    · rw [if_pos (by simp [he]), lookup_cons, lookup_cons]
      exact congrArg _ ih

theorem lookup_remove_self (k : String) (es : Entries) : (es.remove k).lookup k = none := by
  rw [lookup_eq_none, keys_remove, List.mem_filter]
  simp

theorem change_through {dotted own : Bool} {f : String → Entries → Option Entries} {next : String}
    (h : change dotted f (k :: next :: path) own es = some es') :
    (es.lookup k = none ∧
      ∃ sub, es' = es ++ [(k, .table (if dotted then .dotted else .implied) sub)]) ∨
    ∃ old item, es.lookup k = some old ∧ item.isImplied = old.isImplied ∧ es' = es.put k item := by
  simp only [change] at h
  split at h
  · rename_i hl
    obtain ⟨sub, -, rfl⟩ := Option.map_eq_some_iff.1 h
    exact .inl ⟨hl, sub, rfl⟩
  · rename_i origin sub hl
    split at h
    · cases h
    · obtain ⟨sub', -, rfl⟩ := Option.map_eq_some_iff.1 h
      exact .inr ⟨_, _, hl, by cases origin <;> rfl, rfl⟩
  · rename_i elements hl
    split at h
    · cases h
    · obtain ⟨sub, -, rfl⟩ := Option.map_eq_some_iff.1 h
      exact .inr ⟨.tables elements, .tables (elements.dropLast ++ [sub]), hl, rfl, rfl⟩
  · cases h

end Entries

inductive Statement.Leads (s : Statement) (es : Entries) : Entries → Prop
  | append (item : Item) : es.lookup s.key = none → (item.isImplied = true ↔ s = .inner s.key) →
    Leads s es (es ++ [(s.key, item)])
  | update (old item : Item) : es.lookup s.key = some old → item.isImplied = old.isImplied →
    (old.isImplied = true → s = .inner s.key) → Leads s es (es.put s.key item)
  | move (old item : Item) : es.lookup s.key = some old → old.isImplied = true →
    s = .table s.key → item.isImplied = false →
    Leads s es (es.remove s.key ++ [(s.key, item)])

namespace Entries

theorem leads_of_addPair {v : Item} (hv : v.isImplied = false)
    (hes : ∀ k old, es.lookup k = some old → old.isImplied = false)
    (h : es.addPair (path, v) = some es') :
    ∃ s, Statement.ofPair? path = some s ∧ s.Leads es es' := by
  rcases path with _ | ⟨k, _ | ⟨next, path⟩⟩
  · cases h
  · refine ⟨.pair k, rfl, ?_⟩
    simp only [addPair, change, Bool.not_true, Bool.and_false, Bool.false_eq_true, if_false] at h
    split at h
    · cases h
    · rename_i hl
      obtain rfl := Option.some.inj h
      exact .append v (Option.not_isSome_iff_eq_none.1 hl) (by simp [hv])
  · refine ⟨.pair k, rfl, ?_⟩
    obtain ⟨hl, sub, rfl⟩ | ⟨old, item, hl, hi, rfl⟩ := change_through h
    · exact .append _ hl (by simp [Item.isImplied])
    · exact .update old item hl hi fun ho ↦ by simp [hes k old hl] at ho

theorem leads_of_change_through {own : Bool} {f : String → Entries → Option Entries} {next : String}
    (h : change false f (k :: next :: path) own es = some es') :
    (Statement.inner k).Leads es es' := by
  obtain ⟨hl, sub, rfl⟩ | ⟨old, item, hl, hi, rfl⟩ := change_through h
  · exact .append _ hl (iff_of_true rfl rfl)
  · exact .update old item hl hi fun _ ↦ rfl

theorem leads_of_openTable (h : es.openTable path body = some es') :
    ∃ s, Statement.ofHeader? .table path = some s ∧ s.Leads es es' := by
  rcases path with _ | ⟨k, _ | ⟨next, path⟩⟩
  · cases h
  · refine ⟨.table k, rfl, ?_⟩
    simp only [openTable, change, Bool.false_and, Bool.false_eq_true, if_false] at h
    split at h
    · rename_i hl
      obtain ⟨sub, -, rfl⟩ := Option.map_eq_some_iff.1 h
      exact .append _ hl (by simp [Item.isImplied])
    · rename_i sub hl
      obtain ⟨sub', -, rfl⟩ := Option.map_eq_some_iff.1 h
      exact .move _ _ hl rfl rfl rfl
    · cases h
  · exact ⟨.inner k, rfl, leads_of_change_through h⟩

theorem leads_of_openElement (h : es.openElement path body = some es') :
    ∃ s, Statement.ofHeader? .element path = some s ∧ s.Leads es es' := by
  rcases path with _ | ⟨k, _ | ⟨next, path⟩⟩
  · cases h
  · refine ⟨.element k, rfl, ?_⟩
    simp only [openElement, change, Bool.false_and, Bool.false_eq_true, if_false] at h
    split at h
    · rename_i hl
      obtain ⟨sub, -, rfl⟩ := Option.map_eq_some_iff.1 h
      exact .append _ hl (by simp [Item.isImplied])
    · rename_i elements hl
      obtain ⟨sub, -, rfl⟩ := Option.map_eq_some_iff.1 h
      exact .update _ _ hl rfl (by simp [Item.isImplied])
    · cases h
  · exact ⟨.inner k, rfl, leads_of_change_through h⟩

theorem leads_of_addSection {sec : Section} (h : Document.addSection es sec = some es') :
    ∃ s, Statement.ofHeader? sec.kind sec.path = some s ∧ s.Leads es es' := by
  unfold Document.addSection at h
  cases hk : sec.kind with
  | table =>
    rw [hk] at h
    exact leads_of_openTable h
  | element =>
    rw [hk] at h
    exact leads_of_openElement h

end Entries

end KeyAudit.Toml
