import KeyAudit.Reader

namespace KeyAudit.Toml

def digit : List Char → Option (Nat × List Char)
  | c :: r => if c.isDigit then some (c.toNat - 0x30, r) else none
  | [] => none

def twoDigits (s : List Char) : Option (Nat × List Char) := do
  let (a, s) ← digit s
  let (b, s) ← digit s
  return (10 * a + b, s)

def isLeapYear (year : Nat) : Bool := year % 4 == 0 && (year % 100 != 0 || year % 400 == 0)

def daysInMonth (year month : Nat) : Nat :=
  if month = 2 then if isLeapYear year then 29 else 28
  else if month = 4 ∨ month = 6 ∨ month = 9 ∨ month = 11 then 30
  else 31

def date (s : List Char) : Option (List Char) := do
  let (century, s) ← twoDigits s
  let (year, s) ← twoDigits s
  let s ← expect '-' s
  let (month, s) ← twoDigits s
  let s ← expect '-' s
  let (day, s) ← twoDigits s
  guard (1 ≤ month ∧ month ≤ 12 ∧ 1 ≤ day ∧ day ≤ daysInMonth (100 * century + year) month)
  return s

def secondFraction (s : List Char) : List Char :=
  match (expect '.' s).bind digit with
  | some (_, r) => r.dropWhile Char.isDigit
  | none => s

/-- Skips a time of day down to the second or a fraction of it. A minute may end in
a leap second. -/
def clock (s : List Char) : Option (List Char) := do
  let (hour, s) ← twoDigits s
  let s ← expect ':' s
  let (minute, s) ← twoDigits s
  let s ← expect ':' s
  let (second, s) ← twoDigits s
  guard (hour ≤ 23 ∧ minute ≤ 59 ∧ second ≤ 60)
  return secondFraction s

def isSign (c : Char) : Bool := c == '+' || c == '-'

def offset (s : List Char) : Option (List Char) :=
  match s with
  | [] => none
  | c :: r =>
    if c = 'Z' ∨ c = 'z' then some r
    else if isSign c then do
      let (hour, r) ← twoDigits r
      let r ← expect ':' r
      let (minute, r) ← twoDigits r
      guard (hour ≤ 23 ∧ minute ≤ 59)
      return r
    else none

def isDateTimeSeparator (c : Char) : Bool := c == 'T' || c == 't' || c == ' '

/-- Skips a date, a time, or a date and a time with or without an offset. Where no time follows the
separator the date stands alone. -/
def moment (s : List Char) : Option (List Char) :=
  match date s with
  | none => clock s
  | some [] => some []
  | some (c :: r) =>
    match if isDateTimeSeparator c then clock r else none with
    | some r => some ((offset r).getD r)
    | none => some (c :: r)

def isMoment (s : List Char) : Bool := moment s == some []

theorem digit_shorter {s r : List Char} {n : Nat} (h : digit s = some (n, r)) :
    r.length < s.length := by
  unfold digit at h
  split at h
  · split at h
    · cases h
      simp
    · cases h
  · cases h

theorem twoDigits_shorter {s r : List Char} {n : Nat} (h : twoDigits s = some (n, r)) :
    r.length < s.length := by
  unfold twoDigits at h
  obtain ⟨⟨_, _⟩, h₁, h⟩ := Option.bind_eq_some_iff.1 h
  obtain ⟨⟨_, _⟩, h₂, h⟩ := Option.bind_eq_some_iff.1 h
  cases h
  have := digit_shorter h₁
  have := digit_shorter h₂
  omega

theorem date_shorter {s r : List Char} (h : date s = some r) : r.length < s.length := by
  unfold date at h
  obtain ⟨⟨_, _⟩, h₁, h⟩ := Option.bind_eq_some_iff.1 h
  obtain ⟨⟨_, _⟩, h₂, h⟩ := Option.bind_eq_some_iff.1 h
  obtain ⟨_, h₃, h⟩ := Option.bind_eq_some_iff.1 h
  obtain ⟨⟨_, _⟩, h₄, h⟩ := Option.bind_eq_some_iff.1 h
  obtain ⟨_, h₅, h⟩ := Option.bind_eq_some_iff.1 h
  obtain ⟨⟨_, _⟩, h₆, h⟩ := Option.bind_eq_some_iff.1 h
  obtain ⟨_, _, h⟩ := Option.bind_eq_some_iff.1 h
  cases h
  have := twoDigits_shorter h₁
  have := twoDigits_shorter h₂
  have := expect_shorter h₃
  have := twoDigits_shorter h₄
  have := expect_shorter h₅
  have := twoDigits_shorter h₆
  omega

theorem secondFraction_le (s : List Char) : (secondFraction s).length ≤ s.length := by
  unfold secondFraction
  split
  · rename_i r h
    obtain ⟨_, hp, hd⟩ := Option.bind_eq_some_iff.1 h
    have := expect_shorter hp
    have := digit_shorter hd
    have := (List.dropWhile_suffix Char.isDigit (l := r)).length_le
    omega
  · exact Nat.le_refl _

theorem clock_shorter {s r : List Char} (h : clock s = some r) :
    r.length < s.length := by
  unfold clock at h
  obtain ⟨⟨_, _⟩, h₁, h⟩ := Option.bind_eq_some_iff.1 h
  obtain ⟨_, h₂, h⟩ := Option.bind_eq_some_iff.1 h
  obtain ⟨⟨_, _⟩, h₃, h⟩ := Option.bind_eq_some_iff.1 h
  obtain ⟨_, h₄, h⟩ := Option.bind_eq_some_iff.1 h
  obtain ⟨⟨_, u⟩, h₅, h⟩ := Option.bind_eq_some_iff.1 h
  obtain ⟨_, _, h⟩ := Option.bind_eq_some_iff.1 h
  cases h
  have := twoDigits_shorter h₁
  have := expect_shorter h₂
  have := twoDigits_shorter h₃
  have := expect_shorter h₄
  have := twoDigits_shorter h₅
  have := secondFraction_le u
  omega

theorem offset_shorter {s r : List Char} (h : offset s = some r) : r.length < s.length := by
  cases s with
  | nil => cases h
  | cons c t =>
    rw [offset] at h
    by_cases hutc : c = 'Z' ∨ c = 'z'
    · rw [if_pos hutc] at h
      cases h
      simp
    rw [if_neg hutc] at h
    by_cases hsign : isSign c = true
    · rw [if_pos hsign] at h
      obtain ⟨⟨_, _⟩, h₁, h⟩ := Option.bind_eq_some_iff.1 h
      obtain ⟨_, h₂, h⟩ := Option.bind_eq_some_iff.1 h
      obtain ⟨⟨_, _⟩, h₃, h⟩ := Option.bind_eq_some_iff.1 h
      obtain ⟨_, _, h⟩ := Option.bind_eq_some_iff.1 h
      cases h
      have := twoDigits_shorter h₁
      have := expect_shorter h₂
      have := twoDigits_shorter h₃
      simp only [List.length_cons]
      omega
    · rw [if_neg hsign] at h
      cases h

theorem moment_shorter {s r : List Char} (h : moment s = some r) : r.length < s.length := by
  unfold moment at h
  split at h
  · exact clock_shorter h
  · rename_i hd
    have := date_shorter hd
    cases h
    exact this
  · rename_i hd
    have := date_shorter hd
    split at h
    · rename_i u hc
      cases h
      split at hc
      · have := clock_shorter hc
        cases ho : offset u with
        | none =>
          simp only [Option.getD_none, List.length_cons] at *
          omega
        | some v =>
          have := offset_shorter ho
          simp only [Option.getD_some, List.length_cons] at *
          omega
      · cases hc
    · cases h
      exact this

end KeyAudit.Toml
