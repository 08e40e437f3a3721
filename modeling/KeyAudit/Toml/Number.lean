import KeyAudit.Text.Hex
import KeyAudit.Reader

namespace KeyAudit.Toml

/-- Digits behind the digits `done`, which are in reverse order. One underscore may stand between
two digits. -/
def digitsFrom (isDigit : Char → Bool) (done : List Char) : List Char → List Char × List Char
  | '_' :: c :: r =>
    if isDigit c then digitsFrom isDigit (c :: done) r else (done.reverse, '_' :: c :: r)
  | c :: r => if isDigit c then digitsFrom isDigit (c :: done) r else (done.reverse, c :: r)
  | [] => (done.reverse, [])

def digits (isDigit : Char → Bool) : List Char → Option (List Char × List Char)
  | c :: r => if isDigit c then some (digitsFrom isDigit [c] r) else none
  | [] => none

theorem digitsFrom_le (p : Char → Bool) (done s : List Char) :
    (digitsFrom p done s).2.length ≤ s.length := by
  fun_induction digitsFrom p done s <;> simp_all <;> omega

theorem digits_shorter {p : Char → Bool} {s t r : List Char} (h : digits p s = some (t, r)) :
    r.length < s.length := by
  unfold digits at h
  split at h
  · split at h
    · rename_i c u _
      have := digitsFrom_le p [c] u
      rw [Option.some.inj h] at this
      simp only [List.length_cons] at *
      omega
    · cases h
  · cases h

def wholeDigits (s : List Char) : Option (List Char × List Char) :=
  match expect '0' s with
  | some r => some (['0'], r)
  | none => digits Char.isDigit s

theorem wholeDigits_shorter {s t r : List Char} (h : wholeDigits s = some (t, r)) :
    r.length < s.length := by
  unfold wholeDigits at h
  split at h
  · cases h
    exact expect_shorter ‹_›
  · exact digits_shorter h

def decimalValue (ds : List Char) : Nat := ds.foldl (fun n c ↦ 10 * n + (c.toNat - 0x30)) 0

def fraction (s : List Char) : Option (List Char × List Char) :=
  match expect '.' s with
  | some r => digits Char.isDigit r
  | none => some ([], s)

def sign (s : List Char) : Bool × List Char :=
  match expect '-' s with
  | some r => (true, r)
  | none => (false, (expect '+' s).getD s)

def exponentValue (negative : Bool) (r : List Char) : Option (Option Int × List Char) :=
  (digits Char.isDigit r).map fun (ds, r) ↦
    (some (if negative then -(decimalValue ds : Int) else decimalValue ds), r)

def exponent (s : List Char) : Option (Option Int × List Char) :=
  match (expect 'e' s).or (expect 'E' s) with
  | some r => exponentValue (sign r).1 (sign r).2
  | none => some (none, s)

/-- The least number whose nearest binary64 value is infinite. -/
def overflowBound : Nat := Nat.pow 2 1024 - Nat.pow 2 970

/-- Whether `m * 10 ^ e` is below the overflow bound, where `m` has these digits. The number of
digits decides in all cases but one, so that no power is larger than the digits make it. -/
def isFinite (ds : List Char) (e : Int) : Bool :=
  let ds := ds.dropWhile (· == '0')
  let magnitude := ds.length + e
  if ds = [] || magnitude ≤ 308 then true
  else if magnitude ≥ 310 then false
  else decimalValue ds * Nat.pow 10 e.toNat < overflowBound * Nat.pow 10 (-e).toNat

/-- Whether a decimal number can be held. An integer, which has neither a fraction nor an exponent, has
to fit into 64 bits, and a float must not overflow upwards. -/
def isHeld (negative : Bool) (whole part : List Char) (e : Option Int) : Bool :=
  if part = [] ∧ e = none then
    decimalValue whole < Nat.pow 2 63 || negative && decimalValue whole = Nat.pow 2 63
  else negative || isFinite (whole ++ part) (e.getD 0 - part.length)

def decimal (negative : Bool) (s : List Char) : Option (List Char) := do
  let (whole, r) ← wholeDigits s
  let (part, r) ← fraction r
  let (e, r) ← exponent r
  guard (isHeld negative whole part e)
  return r

def digitIn (base : Nat) (c : Char) : Bool :=
  match Text.hexDigit? c with
  | some d => d < base
  | none => false

def basedValue (base : Nat) (ds : List Char) : Nat :=
  ds.foldl (fun n c ↦ base * n + (Text.hexDigit? c).getD 0) 0

def based (base : Nat) (s : List Char) : Option (List Char) := do
  let (ds, r) ← digits (digitIn base) s
  guard (basedValue base ds < Nat.pow 2 63)
  return r

def radix (s : List Char) : Option (Nat × List Char) :=
  ((word ['0', 'x'] s).map (16, ·)).or
    (((word ['0', 'o'] s).map (8, ·)).or ((word ['0', 'b'] s).map (2, ·)))

def signed (negative : Bool) (s : List Char) : Option (List Char) :=
  ((word ['i', 'n', 'f'] s).or (word ['n', 'a', 'n'] s)).or (decimal negative s)

def number (s : List Char) : Option (List Char) :=
  match radix s with
  | some (base, r) => based base r
  | none => signed (sign s).1 (sign s).2

theorem fraction_le {s t r : List Char} (h : fraction s = some (t, r)) : r.length ≤ s.length := by
  unfold fraction at h
  split at h
  · have := digits_shorter h
    have := expect_shorter ‹_›
    omega
  · cases h
    exact Nat.le_refl _

theorem sign_le (s : List Char) : (sign s).2.length ≤ s.length := by
  unfold sign
  split
  · exact Nat.le_of_lt (expect_shorter ‹_›)
  · cases h : expect '+' s with
    | none => exact Nat.le_refl _
    | some r => exact Nat.le_of_lt (expect_shorter h)

theorem exponentValue_shorter {b : Bool} {s r : List Char} {e : Option Int}
    (h : exponentValue b s = some (e, r)) : r.length < s.length := by
  simp only [exponentValue, Option.map_eq_some_iff, Prod.mk.injEq, Prod.exists] at h
  obtain ⟨_, _, h, _, rfl⟩ := h
  exact digits_shorter h

theorem exponent_le {s r : List Char} {e : Option Int} (h : exponent s = some (e, r)) :
    r.length ≤ s.length := by
  unfold exponent at h
  split at h
  · rename_i t ht
    have hlt : t.length < s.length := by
      obtain ht | ⟨-, ht⟩ := Option.or_eq_some_iff.1 ht <;> exact expect_shorter ht
    have := sign_le t
    have := exponentValue_shorter h
    omega
  · cases h
    exact Nat.le_refl _

theorem decimal_shorter {b : Bool} {s r : List Char} (h : decimal b s = some r) :
    r.length < s.length := by
  unfold decimal at h
  obtain ⟨⟨_, _⟩, h₁, h⟩ := Option.bind_eq_some_iff.1 h
  obtain ⟨⟨_, _⟩, h₂, h⟩ := Option.bind_eq_some_iff.1 h
  obtain ⟨⟨_, _⟩, h₃, h⟩ := Option.bind_eq_some_iff.1 h
  obtain ⟨_, _, h⟩ := Option.bind_eq_some_iff.1 h
  cases h
  have := wholeDigits_shorter h₁
  have := fraction_le h₂
  have := exponent_le h₃
  omega

theorem based_shorter {base : Nat} {s r : List Char} (h : based base s = some r) :
    r.length < s.length := by
  unfold based at h
  obtain ⟨⟨_, _⟩, h₁, h⟩ := Option.bind_eq_some_iff.1 h
  obtain ⟨_, _, h⟩ := Option.bind_eq_some_iff.1 h
  cases h
  exact digits_shorter h₁

theorem radix_shorter {s r : List Char} {base : Nat} (h : radix s = some (base, r)) :
    r.length < s.length := by
  simp only [radix, Option.or_eq_some_iff, Option.map_eq_some_iff, Prod.mk.injEq] at h
  obtain ⟨_, h, -, rfl⟩ | ⟨-, ⟨_, h, -, rfl⟩ | ⟨-, _, h, -, rfl⟩⟩ := h <;> exact word_shorter h

theorem signed_shorter {b : Bool} {s r : List Char} (h : signed b s = some r) :
    r.length < s.length := by
  obtain h | ⟨-, h⟩ := Option.or_eq_some_iff.1 h
  · obtain h | ⟨-, h⟩ := Option.or_eq_some_iff.1 h <;> exact word_shorter h
  · exact decimal_shorter h

theorem number_shorter {s r : List Char} (h : number s = some r) : r.length < s.length := by
  unfold number at h
  split at h
  · have := radix_shorter ‹_›
    have := based_shorter h
    omega
  · have := sign_le s
    have := signed_shorter h
    omega

end KeyAudit.Toml
