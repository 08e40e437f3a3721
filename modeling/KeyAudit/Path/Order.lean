import KeyAudit.Path.Basic

namespace KeyAudit

/-- Paths are ordered component by component: the root first, then `.`, then `..`, then names,
which are ordered by their bytes. -/
def Component.orderKey : Component → List Nat
  | .root => [0]
  | .here => [1]
  | .up => [2]
  | .name n => 3 :: n.map UInt8.toNat

theorem Component.orderKey_injective {a b : Component} (h : a.orderKey = b.orderKey) : a = b := by
  cases a <;> cases b <;> simp only [orderKey, List.cons.injEq] at h <;> try rfl
  all_goals try exact absurd h.1 (by decide)
  exact congrArg name ((List.map_inj_right fun _ _ ↦ UInt8.toNat_inj.1).1 h.2)

namespace Path

def orderKey (p : Path) : List (List Nat) := p.components.map Component.orderKey

abbrev compareKeys : List (List Nat) → List (List Nat) → Ordering :=
  List.compareLex (List.compareLex compare)

def le (p q : Path) : Bool := (compareKeys p.orderKey q.orderKey).isLE

theorem le_total (p q : Path) : (p.le q || q.le p) = true := by
  have h : compareKeys q.orderKey p.orderKey = (compareKeys p.orderKey q.orderKey).swap :=
    Std.OrientedCmp.eq_swap
  rw [le, le, h]
  cases compareKeys p.orderKey q.orderKey <;> rfl

theorem le_trans {p q r : Path} (h : p.le q = true) (h' : q.le r = true) : p.le r = true :=
  Std.TransCmp.isLE_trans h h'

def sort (ps : List Path) : List Path := ps.mergeSort le

end Path

end KeyAudit
