import KeyAudit.Disk.Basic
import KeyAudit.Path.Order
import KeyAudit.Proofs.Path.LastName

namespace KeyAudit

open Disk

variable {p q : Path} {n m : Name} {ns ms : List Name}

namespace Path

theorem isName_of_isProper (hn : isProper n) : IsName n := by
  simp only [isProper, Bool.and_eq_true, bne_iff_ne, Bool.not_eq_true', List.contains_eq_mem,
    decide_eq_false_iff_not] at hn
  obtain ⟨⟨⟨⟨⟨hnil, hhere⟩, hup⟩, hslash⟩, -⟩, -⟩ := hn
  exact ⟨hnil, hhere, hup, hslash⟩

theorem slash_notMem_of_isProper (hn : isProper n) : slash ∉ n := (isName_of_isProper hn).noSlash

theorem isAbsolute_of_isProper (hn : isProper n) : (⟨n⟩ : Path).isAbsolute = false := by
  have hs := slash_notMem_of_isProper hn
  cases n with
  | nil => rfl
  | cons b n =>
    have hb : b ≠ slash := fun h ↦ hs (h ▸ List.mem_cons_self)
    simpa [isAbsolute] using hb

theorem join_bytes_ne_nil (hp : p.bytes ≠ []) (hn : isProper n) : (p.join ⟨n⟩).bytes ≠ [] := by
  rcases bytes_join hp (isAbsolute_of_isProper hn) with ⟨-, h⟩ | h <;> simp [h, hp]

theorem components_join (hp : p.bytes ≠ []) (hn : isProper n) :
    (p.join ⟨n⟩).components = p.components ++ [.name n] := by
  rw [components_join_of_relative hp (isAbsolute_of_isProper hn),
    steps_of_notMem (slash_notMem_of_isProper hn), (isName_of_isProper hn).componentOf?_eq]
  rfl

def below (p : Path) : List Name → Path
  | [] => p
  | n :: ns => (p.join ⟨n⟩).below ns

@[simp] theorem below_nil (p : Path) : p.below [] = p := rfl

theorem below_append (p : Path) (ns ms : List Name) :
    p.below (ns ++ ms) = (p.below ns).below ms := by
  induction ns generalizing p with
  | nil => rfl
  | cons n ns ih => exact ih (p.join ⟨n⟩)

theorem below_concat (p : Path) (ns : List Name) (n : Name) :
    p.below (ns ++ [n]) = (p.below ns).join ⟨n⟩ := below_append p ns [n]

theorem components_below (hp : p.bytes ≠ []) (hns : ∀ n ∈ ns, isProper n) :
    (p.below ns).components = p.components ++ ns.map .name := by
  induction ns generalizing p with
  | nil => simp
  | cons n ns ih =>
    have hn := hns n List.mem_cons_self
    rw [below, ih (join_bytes_ne_nil hp hn) fun m hm ↦ hns m (List.mem_cons_of_mem _ hm),
      components_join hp hn, List.append_assoc]
    rfl

theorem eq_of_orderKey_below (hp : p.bytes ≠ []) (hns : ∀ n ∈ ns, isProper n)
    (hms : ∀ m ∈ ms, isProper m) (h : (p.below ns).orderKey = (p.below ms).orderKey) : ns = ms := by
  have hc : (p.below ns).components = (p.below ms).components :=
    (List.map_inj_right fun _ _ ↦ Component.orderKey_injective).1 h
  rw [components_below hp hns, components_below hp hms, List.append_cancel_left_eq] at hc
  exact (List.map_inj_right fun _ _ ↦ Component.name.inj).1 hc

def Precedes (p q : Path) : Prop := compareKeys p.orderKey q.orderKey = .lt

theorem precedes_of_le (h : p.le q = true) (hne : p.orderKey ≠ q.orderKey) : p.Precedes q := by
  rw [le] at h
  cases hc : compareKeys p.orderKey q.orderKey with
  | lt => exact hc
  | eq => exact absurd (Std.LawfulEqCmp.eq_of_compare hc) hne
  | gt => rw [hc] at h; cases h

theorem sort_perm (ps : List Path) : (sort ps).Perm ps := List.mergeSort_perm ps le

theorem pairwise_sort (ps : List Path) : (sort ps).Pairwise fun p q ↦ p.le q = true := by
  unfold sort
  exact @List.pairwise_mergeSort Path le (fun _ _ _ ↦ le_trans) le_total ps

theorem Precedes.asymm (h : p.Precedes q) : ¬ q.Precedes p := by
  intro h'
  have hs : compareKeys q.orderKey p.orderKey = (compareKeys p.orderKey q.orderKey).swap :=
    Std.OrientedCmp.eq_swap
  rw [Precedes] at h h'
  rw [h, h'] at hs
  cases hs

instance : Std.Asymm Precedes := ⟨fun _ _ h h' ↦ h.asymm h'⟩

end Path

end KeyAudit
