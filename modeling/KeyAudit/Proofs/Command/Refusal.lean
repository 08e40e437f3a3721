import KeyAudit.Proofs.Command.Marks
import Mathlib.Data.List.Perm.Basic

namespace KeyAudit.Command

open Reading Mark

namespace Reading

variable {r : Reading} {e : UsageStop}

theorem isFault_of_finish (h : finish r = .error e) : e.IsFault := by
  rw [finish] at h
  split at h
  · rename_i hs
    cases h
    exact (goes_settle r).isFault hs List.not_mem_nil
  · split at h
    · cases h
    · cases h
      trivial

theorem exists_counts_of_finish {q : Request} (h : finish r = .ok q) :
    ∃ r', r.Counts r' [] ∧ r'.pending = .nothing ∧ r'.path.isSome ∧
      r'.template.isSome = q.template.isSome ∧ r'.verbose = q.verbose := by
  rw [finish] at h
  split at h
  · cases h
  · rename_i r' hs
    split at h
    · rename_i p hp
      cases h
      refine ⟨r', (goes_settle r).counts hs, pending_of_settle hs, ?_, Option.isSome_map.symm, rfl⟩
      rw [hp]
      rfl
    · cases h

end Reading

def IsPlain (a : Bytes) : Prop := a.head? = some dash → a = [dash]

theorem IsPlain.ne_end {a : Bytes} (h : IsPlain a) : a ≠ [dash, dash] := by
  intro ha
  subst ha
  exact absurd (h rfl) (by decide)

theorem IsPlain.ne_dash {d c : UInt8} {cs : Bytes} (h : IsPlain (d :: c :: cs)) : d ≠ dash := by
  intro hd
  subst hd
  exact absurd (h rfl) (by simp)

theorem IsPlain.marks {a : Bytes} (h : IsPlain a) : Mark.ofArgument a = [operand] := by
  match a with
  | [] => rfl
  | [d] => rfl
  | d :: c :: cs => exact if_pos h.ne_dash

namespace Request

variable {q : Request} {ns : List Mark} {as xs ys : List Bytes} {a : Bytes}

/-- The arguments are refused, and not because they ask for the help or the version. -/
def IsRefused (as : List Bytes) : Prop := ∃ e, ofTokens as = .error e ∧ e.IsFault

/-- What accepted arguments say, told by their marks. -/
structure Marked (q : Request) (ms : List Mark) : Prop where
  paths : ms.count operand = ms.count awaiting + 1
  templates : ms.count templateOption = q.template.isSome.toNat
  verbose : ms.count verboseOption = q.verbose.toNat
  goesOn : stop ∉ ms

theorem marked_of_ofTokens (h : ofTokens as = .ok q) : q.Marked (Mark.ofArguments as) := by
  rw [ofTokens] at h
  cases hr : arguments {} as with
  | error e =>
    rw [hr] at h
    cases h
  | ok r =>
    rw [hr] at h
    obtain ⟨r', hcounts, hnothing, hpath, htemplate, hverbose⟩ := exists_counts_of_finish h
    obtain ⟨hp, ht, hv, hs⟩ := ((goes_arguments as {}).counts hr).trans hcounts
    rw [List.append_nil] at hp ht hv hs
    rw [paths, hpath, hnothing] at hp
    rw [Reading.templates, htemplate, hnothing] at ht
    rw [hverbose] at hv
    change 1 + 0 + _ = 0 + 0 + _ at hp
    change _ + 0 = 0 + _ at ht
    change _ = 0 + _ at hv
    exact ⟨by omega, by omega, by omega, hs⟩

theorem isRefused_of_not_marked (hstop : stop ∉ Mark.ofArguments as)
    (h : ∀ q : Request, ¬ q.Marked (Mark.ofArguments as)) : IsRefused as := by
  cases hx : ofTokens as with
  | ok q => exact absurd (marked_of_ofTokens hx) (h q)
  | error e =>
    refine ⟨e, hx, ?_⟩
    rw [ofTokens] at hx
    cases hr : arguments {} as with
    | error e' =>
      rw [hr] at hx
      cases hx
      exact (goes_arguments as {}).isFault hr hstop
    | ok r =>
      rw [hr] at hx
      exact isFault_of_finish hx

theorem marks_insert (xs ys : List Bytes) (h : a ≠ [dash, dash] ∨ [dash, dash] ∈ xs) :
    (Mark.ofArguments (xs ++ a :: ys)).Perm (Mark.ofArgument a ++ Mark.ofArguments (xs ++ ys)) ∧
        [dash, dash] ∉ xs ∨
      (Mark.ofArguments (xs ++ a :: ys)).Perm ([operand] ++ Mark.ofArguments (xs ++ ys)) ∧
        [dash, dash] ∈ xs := by
  induction xs with
  | nil =>
    refine .inl ⟨?_, List.not_mem_nil⟩
    rw [List.nil_append, List.nil_append, Mark.ofArguments,
      if_neg (h.resolve_right List.not_mem_nil)]
  | cons x xs ih =>
    rw [List.cons_append, List.cons_append, Mark.ofArguments, Mark.ofArguments]
    by_cases hx : x = [dash, dash]
    · rw [if_pos hx, if_pos hx]
      refine .inr ⟨?_, hx ▸ List.mem_cons_self⟩
      rw [List.length_append, List.length_append, List.length_cons, ← Nat.add_assoc,
        List.replicate_succ]
      exact .refl _
    · rw [if_neg hx, if_neg hx]
      have hmem : [dash, dash] ∈ x :: xs ↔ [dash, dash] ∈ xs := by
        rw [List.mem_cons, or_iff_right (Ne.symm hx)]
      rw [hmem] at h ⊢
      obtain ⟨hperm, hno⟩ | ⟨hperm, hyes⟩ := ih h
      · refine .inl ⟨(hperm.append_left (Mark.ofArgument x)).trans ?_, hno⟩
        rw [← List.append_assoc, ← List.append_assoc]
        exact List.perm_append_comm.append_right _
      · exact .inr ⟨(hperm.append_left (Mark.ofArgument x)).trans List.perm_middle, hyes⟩

theorem Marked.perm {ms : List Mark} (h : q.Marked ms) (hperm : ms.Perm ns) : q.Marked ns := by
  obtain ⟨hp, ht, hv, hs⟩ := h
  refine ⟨?_, ?_, ?_, ?_⟩
  · rw [← hperm.count_eq, ← hperm.count_eq, hp]
  · rw [← hperm.count_eq, ht]
  · rw [← hperm.count_eq, hv]
  · rw [← hperm.mem_iff]
    exact hs

theorem isRefused_of_more {ms : List Mark} {bs : List Bytes} (h : q.Marked ms)
    (hperm : (Mark.ofArguments bs).Perm (ns ++ ms)) (hstop : stop ∉ ns)
    (hmore : ns.count operand ≠ ns.count awaiting ∨
      q.template.isSome ∧ ns.count templateOption ≠ 0 ∨
      q.verbose ∧ ns.count verboseOption ≠ 0) : IsRefused bs := by
  obtain ⟨hp, ht, hv, hs⟩ := h
  apply isRefused_of_not_marked
  · rw [hperm.mem_iff, List.mem_append, not_or]
    exact ⟨hstop, hs⟩
  · intro q' hq'
    obtain ⟨hp', ht', hv', -⟩ := hq'.perm hperm
    rw [List.count_append] at hp' ht' hv'
    rw [List.count_append] at hp'
    have hone := q'.template.isSome.toNat_le
    have hone' := q'.verbose.toNat_le
    rcases hmore with hmore | ⟨hsome, hmore⟩ | ⟨hverbose, hmore⟩
    · omega
    · rw [hsome, Bool.toNat_true] at ht
      omega
    · rw [hverbose, Bool.toNat_true] at hv
      omega

theorem isRefused_of_operand (h : ofTokens (xs ++ ys) = .ok q) (ha : IsPlain a) :
    IsRefused (xs ++ a :: ys) := by
  have hmarked := marked_of_ofTokens h
  rcases marks_insert xs ys (.inl ha.ne_end) with ⟨hperm, -⟩ | ⟨hperm, -⟩
  · rw [ha.marks] at hperm
    exact isRefused_of_more hmarked hperm (by decide) (.inl (by decide))
  · exact isRefused_of_more hmarked hperm (by decide) (.inl (by decide))

theorem isRefused_of_verbose (h : ofTokens (xs ++ ys) = .ok q) (hq : q.verbose) :
    IsRefused (xs ++ Text.utf8 "-v" :: ys) := by
  have hmarked := marked_of_ofTokens h
  rcases marks_insert (a := Text.utf8 "-v") xs ys (.inl (by decide)) with ⟨hperm, -⟩ | ⟨hperm, -⟩
  · have hmarks : Mark.ofArgument (Text.utf8 "-v") = [verboseOption] := by decide
    rw [hmarks] at hperm
    exact isRefused_of_more hmarked hperm (by decide) (.inr (.inr ⟨hq, by decide⟩))
  · exact isRefused_of_more hmarked hperm (by decide) (.inl (by decide))

theorem isRefused_of_template (h : ofTokens (xs ++ ys) = .ok q) (hq : q.template.isSome)
    (ha : IsPlain a) : IsRefused (xs ++ Text.utf8 "-t" :: a :: ys) := by
  have hmarked := marked_of_ofTokens h
  have hmarks : Mark.ofArgument (Text.utf8 "-t") = [templateOption, awaiting] := by decide
  rcases marks_insert (a := Text.utf8 "-t") xs (a :: ys) (.inl (by decide)) with
    ⟨hoption, hno⟩ | ⟨hoption, hyes⟩ <;>
  rcases marks_insert xs ys (.inl ha.ne_end) with ⟨hvalue, hno'⟩ | ⟨hvalue, hyes'⟩
  · rw [hmarks] at hoption
    rw [ha.marks] at hvalue
    have hperm := hoption.trans (hvalue.append_left _)
    rw [← List.append_assoc] at hperm
    exact isRefused_of_more hmarked hperm (by decide) (.inr (.inl ⟨hq, by decide⟩))
  · exact absurd hyes' hno
  · exact absurd hyes hno'
  · have hperm := hoption.trans (hvalue.append_left [operand])
    rw [← List.append_assoc] at hperm
    exact isRefused_of_more hmarked hperm (by decide) (.inl (by decide))

theorem isRefused_of_erase (h : ofTokens (xs ++ a :: ys) = .ok q)
    (ha : IsPlain a ∨ [dash, dash] ∈ xs) : IsRefused (xs ++ ys) := by
  have hperm : (Mark.ofArguments (xs ++ a :: ys)).Perm (operand :: Mark.ofArguments (xs ++ ys)) := by
    rcases marks_insert xs ys (ha.imp_left IsPlain.ne_end) with ⟨hperm, hno⟩ | ⟨hperm, -⟩
    · rw [(ha.resolve_right hno).marks] at hperm
      exact hperm
    · exact hperm
  obtain ⟨hp, -, -, hs⟩ := (marked_of_ofTokens h).perm hperm
  apply isRefused_of_not_marked
  · exact fun hstop ↦ hs (List.mem_cons_of_mem _ hstop)
  · intro q' hq'
    have hp' := hq'.paths
    rw [List.count_cons_self, List.count_cons_of_ne (by decide)] at hp
    omega

end Request

end KeyAudit.Command
