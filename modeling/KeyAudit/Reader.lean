import KeyAudit.General

namespace KeyAudit

def expect (c : Char) : List Char → Option (List Char)
  | d :: r => if d = c then some r else none
  | [] => none

def word : List Char → List Char → Option (List Char)
  | [], s => some s
  | c :: w, s => (expect c s).bind (word w)

theorem expect_self (c : Char) (s : List Char) : expect c (c :: s) = some s := if_pos rfl

theorem expect_of_ne {c d : Char} (h : c ≠ d) (s : List Char) : expect d (c :: s) = none := if_neg h

theorem word_append (w s : List Char) : word w (w ++ s) = some s := by
  induction w with
  | nil => rfl
  | cons c w ih => rw [List.cons_append, word, expect_self, Option.bind_some, ih]

theorem word_eq_none_of_ne {c d : Char} (h : c ≠ d) (w s : List Char) :
    word (d :: w) (c :: s) = none := by
  rw [word, expect_of_ne h, Option.bind_none]

theorem expect_shorter {c : Char} {s r : List Char} (h : expect c s = some r) :
    r.length < s.length := by
  unfold expect at h
  split at h
  · split at h
    · cases h
      simp
    · cases h
  · cases h

theorem word_le {w s r : List Char} (h : word w s = some r) : r.length ≤ s.length := by
  induction w generalizing s with
  | nil =>
    cases h
    exact Nat.le_refl _
  | cons c w ih =>
    obtain ⟨t, ht, h⟩ := Option.bind_eq_some_iff.1 h
    have := expect_shorter ht
    have := ih h
    omega

theorem word_shorter {c : Char} {w s r : List Char} (h : word (c :: w) s = some r) :
    r.length < s.length := by
  obtain ⟨t, ht, h⟩ := Option.bind_eq_some_iff.1 h
  have := expect_shorter ht
  have := word_le h
  omega

/-- Reads something off the front of a text. What is left is shorter than the text. -/
structure Reader (α : Type) where
  read : List Char → Option (α × List Char)
  shorter : ∀ {s a r}, read s = some (a, r) → r.length < s.length

namespace Reader

variable {α : Type}

/-- One item, and as many more as follow, each behind a separator. A separator with no item behind
it is left. -/
def sepBy (item : Reader α) (sep : Char) (s : List Char) : Option (List α × List Char) :=
  match _h : item.read s with
  | none => none
  | some (a, []) => some ([a], [])
  | some (a, c :: r) =>
    if c = sep then
      match item.sepBy sep r with
      | some (as, r) => some (a :: as, r)
      | none => some ([a], c :: r)
    else some ([a], c :: r)
termination_by s.length
decreasing_by
  have := item.shorter _h
  simp only [List.length_cons] at this
  omega

theorem sepBy_eq (item : Reader α) (sep : Char) (s : List Char) :
    item.sepBy sep s = (item.read s).bind fun (a, r) ↦
      match r with
      | [] => some ([a], [])
      | c :: r =>
        if c = sep then
          match item.sepBy sep r with
          | some (as, r) => some (a :: as, r)
          | none => some ([a], c :: r)
        else some ([a], c :: r) := by
  rw [sepBy]
  split <;> rename_i h <;> rw [h] <;> rfl

theorem sepBy_shorter {item : Reader α} {sep : Char} {s r : List Char} {as : List α}
    (h : item.sepBy sep s = some (as, r)) : r.length < s.length := by
  fun_induction sepBy item sep s generalizing as r with
  | case1 => cases h
  | case2 s a hs =>
    cases h
    exact item.shorter hs
  | case3 s a rest as rest' h' hs ih =>
    cases h
    have := item.shorter hs
    have := ih h'
    simp only [List.length_cons] at *
    omega
  | case4 s a rest h' hs ih =>
    cases h
    exact item.shorter hs
  | case5 s a c rest hs hc =>
    cases h
    exact item.shorter hs

def manyFrom (item : Reader α) (done : List α) (s : List Char) : List α × List Char :=
  match _h : item.read s with
  | none => (done.reverse, s)
  | some (a, r) => item.manyFrom (a :: done) r
termination_by s.length
decreasing_by exact item.shorter _h

def many (item : Reader α) (s : List Char) : List α × List Char := item.manyFrom [] s

theorem manyFrom_eq (item : Reader α) (done : List α) (s : List Char) :
    item.manyFrom done s = match item.read s with
      | none => (done.reverse, s)
      | some (a, r) => item.manyFrom (a :: done) r := by
  rw [manyFrom]
  split <;> rename_i h <;> rw [h]

theorem manyFrom_done (item : Reader α) (done : List α) (s : List Char) :
    item.manyFrom done s = (done.reverse ++ (item.many s).1, (item.many s).2) := by
  rw [many, manyFrom_eq item done, manyFrom_eq item []]
  match _h : item.read s with
  | none => simp
  | some (a, r) =>
    have := item.shorter _h
    simp only [manyFrom_done item (a :: done) r, manyFrom_done item [a] r]
    simp
termination_by s.length

theorem many_eq (item : Reader α) (s : List Char) :
    item.many s = match item.read s with
      | none => ([], s)
      | some (a, r) => (a :: (item.many r).1, (item.many r).2) := by
  rw [many, manyFrom_eq]
  cases item.read s with
  | none => rfl
  | some p => exact manyFrom_done item [p.1] p.2

end Reader

end KeyAudit
