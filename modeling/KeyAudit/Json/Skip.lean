import KeyAudit.Json.Text

namespace KeyAudit.Json

/-- Skips the text up to the closing quote. Escapes have to be complete, but any surrogate may be
escaped. -/
def skipTextTail : List Char → Option (List Char)
  | '"' :: r => some r
  | '\\' :: 'u' :: a :: b :: c :: d :: r =>
    if (Text.hexValue [a, b, c, d]).isSome then skipTextTail r else none
  | '\\' :: c :: r => if (shortEscape? c).isSome then skipTextTail r else none
  | c :: r => if c = '\\' ∨ c.toNat < 0x20 then none else skipTextTail r
  | [] => none

theorem skipTextTail_shorter {s r : List Char} (h : skipTextTail s = some r) :
    r.length < s.length := by
  fun_induction skipTextTail s <;> simp_all <;> omega

def skipDigits : List Char → Option (List Char)
  | c :: r => if c.isDigit then some (r.dropWhile Char.isDigit) else none
  | [] => none

theorem skipDigits_shorter {s r : List Char} (h : skipDigits s = some r) :
    r.length < s.length := by
  unfold skipDigits at h
  split at h
  · split at h
    · obtain rfl := Option.some.inj h
      have := (List.dropWhile_suffix Char.isDigit (l := ‹List Char›)).length_le
      simp only [List.length_cons]
      omega
    · cases h
  · cases h

def skipExponent : List Char → Option (List Char)
  | 'e' :: r | 'E' :: r =>
    match r with
    | '+' :: r | '-' :: r => skipDigits r
    | r => skipDigits r
  | s => some s

def skipFraction : List Char → Option (List Char)
  | '.' :: r => (skipDigits r).bind skipExponent
  | s => skipExponent s

def skipMagnitude : List Char → Option (List Char)
  | '0' :: r => skipFraction r
  | s => (skipDigits s).bind skipFraction

def skipScalar : List Char → Option (List Char)
  | '"' :: r => skipTextTail r
  | '-' :: r => skipMagnitude r
  | 't' :: r => word ['r', 'u', 'e'] r
  | 'f' :: r => word ['a', 'l', 's', 'e'] r
  | 'n' :: r => word ['u', 'l', 'l'] r
  | s => skipMagnitude s

theorem skipExponent_le {s r : List Char} (h : skipExponent s = some r) :
    r.length ≤ s.length := by
  unfold skipExponent at h
  split at h
  all_goals try split at h
  all_goals try have := skipDigits_shorter h
  all_goals simp_all
  all_goals omega

theorem skipFraction_le {s r : List Char} (h : skipFraction s = some r) :
    r.length ≤ s.length := by
  unfold skipFraction at h
  split at h
  · obtain ⟨t, ht, hr⟩ := Option.bind_eq_some_iff.1 h
    have := skipDigits_shorter ht
    have := skipExponent_le hr
    simp only [List.length_cons]
    omega
  · exact skipExponent_le h

theorem skipMagnitude_shorter {s r : List Char} (h : skipMagnitude s = some r) :
    r.length < s.length := by
  unfold skipMagnitude at h
  split at h
  · have := skipFraction_le h
    simp only [List.length_cons]
    omega
  · obtain ⟨t, ht, hr⟩ := Option.bind_eq_some_iff.1 h
    have := skipDigits_shorter ht
    have := skipFraction_le hr
    omega

theorem skipScalar_shorter {s r : List Char} (h : skipScalar s = some r) :
    r.length < s.length := by
  unfold skipScalar at h
  split at h
  · have := skipTextTail_shorter h
    simp only [List.length_cons]
    omega
  · have := skipMagnitude_shorter h
    simp only [List.length_cons]
    omega
  iterate 3
    · have := word_le h
      simp only [List.length_cons]
      omega
  · exact skipMagnitude_shorter h

def skipName (s : List Char) : Option (List Char) :=
  match skipSpace s with
  | '"' :: r => (skipTextTail r).bind fun r ↦
    match skipSpace r with
    | ':' :: r => some r
    | _ => none
  | _ => none

theorem skipName_shorter {s r : List Char} (h : skipName s = some r) : r.length < s.length := by
  have hs := skipSpace_le s
  unfold skipName at h
  split at h
  · rename_i t hq
    obtain ⟨u, hu, hr⟩ := Option.bind_eq_some_iff.1 h
    have := skipTextTail_shorter hu
    have hl := skipSpace_le u
    split at hr
    · rename_i v hv
      obtain rfl := Option.some.inj hr
      rw [hq] at hs
      rw [hv] at hl
      simp only [List.length_cons] at *
      omega
    · cases hr
  · cases h

inductive Frame where
  | array
  | object
  deriving DecidableEq, Repr

def Frame.close : Frame → Char
  | .array => ']'
  | .object => '}'

def Frame.lead : Frame → List Char → Option (List Char)
  | .array, s => some s
  | .object, s => skipName s

theorem Frame.lead_le {f : Frame} {s r : List Char} (h : f.lead s = some r) :
    r.length ≤ s.length := by
  cases f with
  | array => exact Nat.le_of_eq (by rw [Option.some.inj h])
  | object => exact Nat.le_of_lt (skipName_shorter h)

/-- Skips a value and the ends of the frames around it, or, where a value has just ended, only what
follows it in the innermost frame. Frames may be nested to any depth. -/
def skipIn (ended : Bool) (frames : List Frame) (s : List Char) : Option (List Char) :=
  match ended, frames with
  | true, [] => some s
  | true, f :: fs =>
    match _hs : skipSpace s with
    | ',' :: t =>
      match _ht : f.lead t with
      | some r => skipIn false (f :: fs) r
      | none => none
    | c :: r => if c = f.close then skipIn true fs r else none
    | [] => none
  | false, fs =>
    match _hs : skipSpace s with
    | '[' :: t =>
      match _ht : skipSpace t with
      | ']' :: r => skipIn true fs r
      | r => skipIn false (.array :: fs) r
    | '{' :: t =>
      match _ht : skipSpace t with
      | '}' :: r => skipIn true fs r
      | u =>
        match _hu : skipName u with
        | some r => skipIn false (.object :: fs) r
        | none => none
    | t =>
      match _ht : skipScalar t with
      | some r => skipIn true fs r
      | none => none
termination_by s.length
decreasing_by
  all_goals
    have hs := skipSpace_le s
    simp only [_hs, List.length_cons] at hs
  · have := Frame.lead_le _ht
    omega
  · omega
  · have := skipSpace_le t
    simp only [_ht, List.length_cons] at this
    omega
  · have := skipSpace_le t
    simp only [_ht] at this
    omega
  · have := skipSpace_le t
    simp only [_ht, List.length_cons] at this
    omega
  · have := skipSpace_le t
    have := skipName_shorter _hu
    simp only [_ht] at *
    omega
  · have := skipScalar_shorter _ht
    omega

def skipValue (s : List Char) : Option (List Char) := skipIn false [] s

theorem skipIn_shorter {ended : Bool} {frames : List Frame} {s r : List Char}
    (h : skipIn ended frames s = some r) : r.length + (!ended).toNat ≤ s.length := by
  fun_induction skipIn ended frames s with
  | case1 s => simp_all
  | case3 | case5 | case6 | case11 | case13 => cases h
  | case2 s f fs t hs u hu ih =>
    have := skipSpace_le s
    have := Frame.lead_le hu
    have := ih h
    simp only [hs, List.length_cons, Bool.not_true, Bool.not_false, Bool.toNat_true,
      Bool.toNat_false] at *
    omega
  | case4 s f fs u hc hs ih =>
    have := skipSpace_le s
    have := ih h
    simp only [hs, List.length_cons, Bool.not_true, Bool.toNat_false] at *
    omega
  | case7 s fs t hs u hu ih | case9 s fs t hs u hu ih =>
    have := skipSpace_le s
    have := skipSpace_le t
    have := ih h
    simp only [hs, hu, List.length_cons, Bool.not_true, Bool.not_false, Bool.toNat_true,
      Bool.toNat_false] at *
    omega
  | case8 s fs t hs hc ih =>
    have := skipSpace_le s
    have := skipSpace_le t
    have := ih h
    simp only [hs, List.length_cons, Bool.not_false, Bool.toNat_true] at *
    omega
  | case10 s fs t hs u hc hu ih =>
    have := skipSpace_le s
    have := skipSpace_le t
    have := skipName_shorter hu
    have := ih h
    simp only [hs, List.length_cons, Bool.not_false, Bool.toNat_true] at *
    omega
  | case12 s fs u ha ho hu ih =>
    have := skipSpace_le s
    have := skipScalar_shorter hu
    have := ih h
    simp only [Bool.not_true, Bool.not_false, Bool.toNat_true, Bool.toNat_false] at *
    omega

theorem skipValue_shorter {s r : List Char} (h : skipValue s = some r) : r.length < s.length :=
  skipIn_shorter h

end KeyAudit.Json
