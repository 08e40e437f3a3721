import KeyAudit.Proofs.Path.Below

namespace KeyAudit.Path

open Disk

variable {p q : Path} {n : Name} {ns ms : List Name}

def ofNames (ns : List Name) : Path := ⟨[slash].intercalate ns⟩

theorem ofNames_singleton (n : Name) : ofNames [n] = ⟨n⟩ := by
  rw [ofNames, List.intercalate_singleton]

theorem bytes_ofNames_cons_cons (n m : Name) (ns : List Name) :
    (ofNames (n :: m :: ns)).bytes = n ++ slash :: (ofNames (m :: ns)).bytes := by
  simp only [ofNames, List.intercalate_cons_cons, List.append_assoc, List.singleton_append]

theorem isAbsolute_append (hn : isProper n) (b : Bytes) : (⟨n ++ b⟩ : Path).isAbsolute = false := by
  have h := isAbsolute_of_isProper hn
  cases n with
  | nil => cases hn
  | cons x n => exact h

theorem isAbsolute_ofNames (hns : ∀ n ∈ ns, isProper n) : (ofNames ns).isAbsolute = false := by
  rcases ns with _ | ⟨n, _ | ⟨m, ns⟩⟩
  · rfl
  · rw [ofNames_singleton]
    exact isAbsolute_of_isProper (hns n List.mem_cons_self)
  · have h := isAbsolute_append (hns n List.mem_cons_self) (slash :: (ofNames (m :: ns)).bytes)
    rwa [← bytes_ofNames_cons_cons] at h

theorem join_append (hn : isProper n) (b : Bytes) :
    (p.join ⟨n ++ b⟩).bytes = (p.join ⟨n⟩).bytes ++ b := by
  unfold join
  rw [isAbsolute_append hn, isAbsolute_of_isProper hn]
  split
  · rename_i h
    cases h
  · split
    · exact (List.append_assoc _ _ _).symm
    · simp

theorem suffix_join (hn : isProper n) : n <:+ (p.join ⟨n⟩).bytes := by
  unfold join
  rw [isAbsolute_of_isProper hn, if_neg Bool.false_ne_true]
  split
  · exact List.suffix_append _ _
  · exact (List.suffix_cons _ _).trans (List.suffix_append _ _)

theorem join_join (hn : isProper n) (hq : q.isAbsolute = false) :
    ((p.join ⟨n⟩).join q).bytes = (p.join ⟨n⟩).bytes ++ slash :: q.bytes := by
  obtain ⟨b, hb⟩ := suffix_join (p := p) hn
  have hne : n ≠ [] := fun h ↦ by cases h; cases hn
  have hopen : ¬ ((p.join ⟨n⟩).bytes = [] ∨ (p.join ⟨n⟩).bytes.getLast? = some slash) := by
    rw [← hb, List.getLast?_append, List.getLast?_eq_some_getLast hne, Option.some_or]
    rintro (h | h)
    · exact hne (List.append_eq_nil_iff.1 h).2
    · exact slash_notMem_of_isProper hn (Option.some.inj h ▸ List.getLast_mem hne)
  rw [join.eq_def (p.join ⟨n⟩) q, hq, if_neg Bool.false_ne_true, if_neg hopen]

theorem below_eq_join (hne : ns ≠ []) (hns : ∀ n ∈ ns, isProper n) :
    p.below ns = p.join (ofNames ns) := by
  induction ns generalizing p with
  | nil => exact absurd rfl hne
  | cons n ns ih =>
    obtain ⟨hn, hns⟩ := List.forall_mem_cons.1 hns
    cases ns with
    | nil => rw [ofNames_singleton, below, below_nil]
    | cons m ns =>
      rw [below, ih (List.cons_ne_nil _ _) hns, mk.injEq, join_join hn (isAbsolute_ofNames hns),
        ← join_append hn, ← bytes_ofNames_cons_cons]

end KeyAudit.Path
