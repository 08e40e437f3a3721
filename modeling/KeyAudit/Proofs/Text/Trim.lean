import KeyAudit.Text.Blank
import Mathlib.Data.List.DropRight
import Mathlib.Data.List.TakeWhile

namespace KeyAudit.Text

variable {s m : List Char}

theorem trim_eq_nil_iff : trim s = [] ↔ ∀ c ∈ s, isBlank c = true := by
  rw [trim, List.reverse_eq_nil_iff, List.dropWhile_eq_nil_iff]
  constructor
  · intro h
    rw [← List.dropWhile_eq_nil_iff]
    by_contra hne
    have hhead := List.head_dropWhile_not isBlank hne
    rw [h _ (List.mem_reverse.2 (List.head_mem hne))] at hhead
    cases hhead
  · intro h c hc
    exact h c ((List.dropWhile_suffix _).subset (List.mem_reverse.1 hc))

structure Trims (s m : List Char) : Prop where
  within : ∃ before after, s = before ++ (m ++ after) ∧
    (∀ c ∈ before, isBlank c = true) ∧ ∀ c ∈ after, isBlank c = true
  head : ∀ c ∈ m.head?, isBlank c = false
  last : ∀ c ∈ m.getLast?, isBlank c = false

theorem trims_trim (s : List Char) : Trims s (trim s) := by
  have htrim : trim s = (s.dropWhile isBlank).rdropWhile isBlank := rfl
  have hends : (s.dropWhile isBlank).rdropWhile isBlank ++ (s.dropWhile isBlank).rtakeWhile isBlank =
      s.dropWhile isBlank := List.rdropWhile_append_rtakeWhile
  rw [htrim]
  constructor
  · refine ⟨s.takeWhile isBlank, (s.dropWhile isBlank).rtakeWhile isBlank, ?_, ?_, ?_⟩
    · rw [hends, List.takeWhile_append_dropWhile]
    · exact fun c ↦ List.mem_takeWhile_imp
    · exact fun c ↦ List.mem_rtakeWhile_imp
  · intro c hc
    have hhead := List.head?_dropWhile_not isBlank s
    have hc' : (s.dropWhile isBlank).head? = some c := by
      rw [← hends, List.head?_append, Option.mem_def.1 hc, Option.some_or]
    rw [hc'] at hhead
    simpa using hhead
  · intro c hc
    obtain ⟨hne, rfl⟩ := List.mem_getLast?_eq_getLast hc
    simpa using List.rdropWhile_last_not isBlank _ hne

theorem Trims.trim_eq (h : Trims s m) : trim s = m := by
  obtain ⟨before, after, rfl, hbefore, hafter⟩ := h.within
  rcases List.eq_nil_or_concat m with rfl | ⟨m', d, rfl⟩
  · rw [trim_eq_nil_iff]
    intro c hc
    exact (List.mem_append.1 hc).elim (hbefore c) (hafter c)
  have hleft : (before ++ (m'.concat d ++ after)).dropWhile isBlank = m'.concat d ++ after := by
    rw [List.dropWhile_append_of_pos hbefore]
    cases hm : m'.concat d with
    | nil => simp at hm
    | cons c m =>
      have hc : isBlank c = false := h.head c (by rw [hm]; rfl)
      rw [List.cons_append, List.dropWhile_cons_of_neg (by simp [hc])]
  have hd : isBlank d = false := h.last d (by simp)
  have hafter' : ∀ c ∈ after.reverse, isBlank c = true := fun c hc ↦ hafter c (List.mem_reverse.1 hc)
  rw [trim, hleft, List.concat_eq_append, List.reverse_append, List.dropWhile_append_of_pos hafter',
    List.reverse_append, List.reverse_singleton, List.singleton_append,
    List.dropWhile_cons_of_neg (by simp [hd])]
  simp

end KeyAudit.Text
