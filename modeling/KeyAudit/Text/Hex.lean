namespace KeyAudit.Text

def hexDigit? (c : Char) : Option Nat :=
  if '0' ≤ c ∧ c ≤ '9' then some (c.toNat - 0x30)
  else if 'a' ≤ c ∧ c ≤ 'f' then some (c.toNat - 0x57)
  else if 'A' ≤ c ∧ c ≤ 'F' then some (c.toNat - 0x37)
  else none

def hexFrom (n : Nat) : List Char → Option Nat
  | [] => some n
  | c :: cs => (hexDigit? c).bind fun d ↦ hexFrom (16 * n + d) cs

def hexValue (cs : List Char) : Option Nat := hexFrom 0 cs

def scalar? (n : Nat) : Option Char :=
  if h : n.isValidChar then some (Char.ofNatAux n h) else none

theorem toNat_of_scalar? {n : Nat} {c : Char} (h : scalar? n = some c) : c.toNat = n := by
  by_cases hv : n.isValidChar
  · rw [scalar?, dif_pos hv] at h
    obtain rfl := Option.some.inj h
    rfl
  · rw [scalar?, dif_neg hv] at h
    cases h

end KeyAudit.Text
