namespace KeyAudit.Text

def occursIn (k : List Char) : List Char → Bool
  | [] => k.isEmpty
  | c :: s => k.isPrefixOf (c :: s) || occursIn k s

theorem occursIn_iff {k s : List Char} : occursIn k s = true ↔ k <:+: s := by
  induction s with
  | nil => simp [occursIn, List.isEmpty_iff]
  | cons c s ih =>
    rw [occursIn, Bool.or_eq_true, ih, List.isPrefixOf_iff_prefix, List.infix_cons_iff]

end KeyAudit.Text
