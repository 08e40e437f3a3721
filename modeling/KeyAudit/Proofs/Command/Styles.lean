import KeyAudit.Command.Summary

namespace KeyAudit.Command

variable {s t s' t' : List Char}

def IsStyle (e : List Char) : Prop :=
  ∃ parameters : List Char, (∀ c ∈ parameters, c.isDigit ∨ c = ';') ∧
    e = '\x1b' :: '[' :: (parameters ++ ['m'])

/-- `t` is `s` with such sequences put in. -/
inductive Styles : List Char → List Char → Prop
  | nil : Styles [] []
  | char (c : Char) {s t : List Char} : Styles s t → Styles (c :: s) (c :: t)
  | style {e s t : List Char} : IsStyle e → Styles s t → Styles s (e ++ t)

namespace Styles

theorem refl (s : List Char) : Styles s s := by
  induction s with
  | nil => exact .nil
  | cons c s ih => exact .char c ih

theorem append (h : Styles s t) (h' : Styles s' t') : Styles (s ++ s') (t ++ t') := by
  induction h with
  | nil => exact h'
  | char c _ ih => exact .char c ih
  | style he _ ih =>
    rw [List.append_assoc]
    exact .style he ih

theorem string_append {u u' v v' : String} (h : Styles u.toList v.toList)
    (h' : Styles u'.toList v'.toList) : Styles (u ++ u').toList (v ++ v').toList := by
  rw [String.toList_append, String.toList_append]
  exact h.append h'

end Styles

theorem isStyle_of_parameters {style : String} (h : ∀ c ∈ style.toList, c.isDigit ∨ c = ';') :
    IsStyle ("\x1b[" ++ style ++ "m").toList := by
  refine ⟨style.toList, h, ?_⟩
  rw [String.toList_append, String.toList_append]
  rfl

theorem styles_join {styles : List String}
    (h : ∀ style ∈ styles, ∀ c ∈ style.toList, c.isDigit ∨ c = ';') (ht : Styles s t) :
    Styles s ((String.join (styles.map fun style ↦ "\x1b[" ++ style ++ "m")).toList ++ t) := by
  induction styles with
  | nil => exact ht
  | cons style styles ih =>
    obtain ⟨hstyle, hstyles⟩ := List.forall_mem_cons.1 h
    rw [List.map_cons, String.join_cons, String.toList_append, List.append_assoc]
    exact .style (isStyle_of_parameters hstyle) (ih hstyles)

theorem styles_paint {styles : List String}
    (h : ∀ style ∈ styles, ∀ c ∈ style.toList, c.isDigit ∨ c = ';') (s : String) :
    Styles (paint false styles s).toList (paint true styles s).toList := by
  have hzero : ∀ c ∈ "0".toList, c.isDigit ∨ c = ';' := by simp
  have hreset : IsStyle "\x1b[0m".toList := isStyle_of_parameters hzero
  have hend : Styles s.toList (s.toList ++ "\x1b[0m".toList) := by
    have happend := (Styles.refl s.toList).append (.style hreset .nil)
    rwa [List.append_nil, List.append_nil] at happend
  rw [paint, paint, if_neg Bool.false_ne_true, if_pos rfl, String.toList_append,
    String.toList_append, List.append_assoc]
  exact styles_join h hend

theorem styles_note (s : String) : Styles (note false s).toList (note true s).toList := by
  have hpaint : Styles (paint false ["1;36"] "note:").toList (paint true ["1;36"] "note:").toList :=
    styles_paint (by simp) "note:"
  exact ((hpaint.string_append (.refl _)).string_append (.refl _)).string_append (.refl _)

theorem styles_summary (a : Audit) : Styles (summary false a).toList (summary true a).toList := by
  rw [summary, summary]
  split
  rename_i mark style hmark
  have hstyle : ∀ x ∈ [style], ∀ c ∈ x.toList, c.isDigit ∨ c = ';' := by
    split at hmark
    · obtain ⟨-, rfl⟩ := Prod.mk.inj hmark
      simp
    · obtain ⟨-, rfl⟩ := Prod.mk.inj hmark
      simp
  exact (((styles_paint hstyle mark).string_append (.refl _)).string_append
    (styles_paint hstyle (summaryText a))).string_append (.refl _)

end KeyAudit.Command
