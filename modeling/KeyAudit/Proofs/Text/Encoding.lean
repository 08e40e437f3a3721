import KeyAudit.Text.Bytes

namespace KeyAudit.Text

variable {cs : List Char} {x y : Bytes} {b : UInt8} {s : String}

def encode (cs : List Char) : Bytes := cs.flatMap String.utf8EncodeChar

theorem utf8_eq_encode (s : String) : utf8 s = encode s.toList := by
  rw [utf8, ← String.utf8Encode_toList, List.utf8Encode, encode]
  simp

@[simp] theorem encode_nil : encode [] = [] := rfl

theorem encode_cons (c : Char) (cs : List Char) :
    encode (c :: cs) = String.utf8EncodeChar c ++ encode cs := List.flatMap_cons

theorem encode_append (cs ds : List Char) : encode (cs ++ ds) = encode cs ++ encode ds :=
  List.flatMap_append

theorem ofUtf8?_encode (cs : List Char) : ofUtf8? (encode cs) = some (String.ofList cs) := by
  rw [ofUtf8?_eq_some, utf8_eq_encode, String.toList_ofList]

theorem eq_encode_of_ofUtf8? (h : ofUtf8? x = some s) : x = encode s.toList := by
  rw [← utf8_eq_encode, ofUtf8?_eq_some.1 h]

theorem utf8_injective : Function.Injective utf8 := by
  intro s t h
  have hs := ofUtf8?_utf8 s
  rw [h, ofUtf8?_utf8] at hs
  exact (Option.some.inj hs).symm

theorem utf8_eq_nil : utf8 s = [] ↔ s = "" := utf8_injective.eq_iff' rfl

theorem not_lt_ofNat {k : Nat} (h : 0x80 ≤ k) (h' : k < 0x100) : ¬ UInt8.ofNat k < 0x80 := by
  rw [UInt8.lt_iff_toNat_lt, UInt8.toNat_ofNat_of_lt' h']
  exact Nat.not_lt.2 h

theorem utf8EncodeChar_cases (c : Char) :
    (∃ b : UInt8, b < 0x80 ∧ String.utf8EncodeChar c = [b] ∧ c = Char.ofNat b.toNat) ∨
      ∀ b ∈ String.utf8EncodeChar c, ¬ b < 0x80 := by
  unfold String.utf8EncodeChar
  dsimp only
  by_cases h : c.val.toNat ≤ 0x7F
  · have hb : (UInt8.ofNat c.val.toNat).toNat = c.val.toNat :=
      UInt8.toNat_ofNat_of_lt' (Nat.lt_of_le_of_lt h (by decide))
    refine .inl ⟨UInt8.ofNat c.val.toNat, ?_, if_pos h, ?_⟩
    · rw [UInt8.lt_iff_toNat_lt, hb]
      exact Nat.lt_succ_of_le h
    · rw [hb]
      exact (Char.ofNat_toNat c).symm
  · refine .inr ?_
    rw [if_neg h]
    split
    · simp only [List.forall_mem_cons]
      refine ⟨not_lt_ofNat ?_ ?_, not_lt_ofNat ?_ ?_, by simp⟩ <;> omega
    split
    · simp only [List.forall_mem_cons]
      refine ⟨not_lt_ofNat ?_ ?_, not_lt_ofNat ?_ ?_, not_lt_ofNat ?_ ?_, by simp⟩ <;> omega
    · simp only [List.forall_mem_cons]
      refine ⟨not_lt_ofNat ?_ ?_, not_lt_ofNat ?_ ?_, not_lt_ofNat ?_ ?_, not_lt_ofNat ?_ ?_,
        by simp⟩ <;> omega

theorem utf8EncodeChar_ofNat (hb : b < 0x80) : String.utf8EncodeChar (Char.ofNat b.toNat) = [b] := by
  have hlt : b.toNat < 0x80 := UInt8.lt_iff_toNat_lt.1 hb
  have hv : (Char.ofNat b.toNat).val.toNat = b.toNat := by
    rw [Char.ofNat, dif_pos (.inl (by omega))]
    rfl
  unfold String.utf8EncodeChar
  dsimp only
  rw [hv, if_pos (Nat.le_of_lt_succ hlt), UInt8.ofNat_toNat]

theorem encode_eq_append_of_firstByte (hb : b.IsUTF8FirstByte) (h : encode cs = x ++ b :: y) :
    ∃ cs₁ cs₂, cs = cs₁ ++ cs₂ ∧ x = encode cs₁ ∧ b :: y = encode cs₂ := by
  induction cs generalizing x with
  | nil => simp at h
  | cons c cs ih =>
    rw [encode_cons] at h
    obtain ⟨z, rfl, hz⟩ | ⟨z, hx, hz⟩ := List.append_eq_append_iff.1 h
    · obtain ⟨cs₁, cs₂, rfl, rfl, hy⟩ := ih hz
      exact ⟨c :: cs₁, cs₂, rfl, (encode_cons c cs₁).symm, hy⟩
    · cases z with
      | nil =>
        refine ⟨[c], cs, rfl, ?_, hz⟩
        rw [encode_cons, hx, List.append_nil, encode_nil, List.append_nil]
      | cons a z =>
        obtain ⟨rfl, -⟩ := List.cons.inj hz
        have hlen : x.length < (String.utf8EncodeChar c).length := by simp [hx]
        have hget : (String.utf8EncodeChar c)[x.length] = b := by simp [hx]
        have hzero : x.length = 0 := UInt8.isUTF8FirstByte_getElem_utf8EncodeChar.1 (hget ▸ hb)
        obtain rfl := List.length_eq_zero_iff.1 hzero
        exact ⟨[], c :: cs, rfl, rfl, by rw [encode_cons, h, List.nil_append]⟩

theorem encode_append_eq_encode {ds : List Char} (h : encode cs ++ y = encode ds) :
    ∃ es, ds = cs ++ es ∧ y = encode es := by
  induction cs generalizing ds with
  | nil => exact ⟨ds, rfl, h⟩
  | cons c cs ih =>
    rw [encode_cons, List.append_assoc] at h
    cases ds with
    | nil => exact absurd (List.append_eq_nil_iff.1 h).1 String.utf8EncodeChar_ne_nil
    | cons d ds =>
      rw [encode_cons] at h
      have hdecode (c : Char) (z : Bytes) :
          (String.utf8EncodeChar c ++ z).toByteArray.utf8DecodeChar? 0 = some c := by
        rw [List.toByteArray_append, ByteArray.utf8DecodeChar?_utf8EncodeChar_append]
      obtain rfl : c = d := Option.some.inj ((hdecode c _).symm.trans (h ▸ hdecode d _))
      obtain ⟨es, rfl, hy⟩ := ih (List.append_cancel_left h)
      exact ⟨es, rfl, hy⟩

theorem encode_eq_append_encode {ks : List Char} (hk : ks ≠ [])
    (h : encode cs = x ++ (encode ks ++ y)) :
    ∃ cs₁ cs₂, cs = cs₁ ++ (ks ++ cs₂) ∧ x = encode cs₁ ∧ y = encode cs₂ := by
  obtain ⟨k, ks, rfl⟩ := List.exists_cons_of_ne_nil hk
  obtain ⟨b, bs, hbs⟩ := List.exists_cons_of_ne_nil (String.utf8EncodeChar_ne_nil (c := k))
  have hb : b.IsUTF8FirstByte := by
    have hlen : 0 < (String.utf8EncodeChar k).length := by simp [hbs]
    have hfirst : (String.utf8EncodeChar k)[0].IsUTF8FirstByte :=
      UInt8.isUTF8FirstByte_getElem_utf8EncodeChar.2 rfl
    simpa [hbs] using hfirst
  have hcons : encode (k :: ks) ++ y = b :: (bs ++ (encode ks ++ y)) := by
    rw [encode_cons, hbs, List.append_assoc, List.cons_append]
  rw [hcons] at h
  obtain ⟨cs₁, cs₂, rfl, hx, hcs⟩ := encode_eq_append_of_firstByte hb h
  obtain ⟨cs₃, rfl, hy⟩ := encode_append_eq_encode (hcons.trans hcs)
  exact ⟨cs₁, cs₃, rfl, hx, hy⟩

theorem encode_infix_encode {ks : List Char} : encode ks <:+: encode cs ↔ ks <:+: cs := by
  constructor
  · intro h
    obtain ⟨x, y, h⟩ := h
    by_cases hk : ks = []
    · exact hk ▸ List.nil_infix
    · rw [List.append_assoc] at h
      obtain ⟨cs₁, cs₂, rfl, -, -⟩ := encode_eq_append_encode hk h.symm
      exact ⟨cs₁, cs₂, List.append_assoc _ _ _⟩
  · intro h
    obtain ⟨cs₁, cs₂, rfl⟩ := h
    exact ⟨encode cs₁, encode cs₂, by rw [encode_append, encode_append]⟩

theorem encode_eq_append_cons (hb : b < 0x80) (h : encode cs = x ++ b :: y) :
    ∃ cs₁ cs₂, cs = cs₁ ++ Char.ofNat b.toNat :: cs₂ ∧ x = encode cs₁ ∧ y = encode cs₂ := by
  have hbyte : encode [Char.ofNat b.toNat] = [b] := by
    rw [encode_cons, utf8EncodeChar_ofNat hb, encode_nil, List.append_nil]
  have hne : [Char.ofNat b.toNat] ≠ [] := List.cons_ne_nil _ _
  apply encode_eq_append_encode hne
  rw [hbyte, h, List.singleton_append]

theorem mem_encode (hb : b < 0x80) : b ∈ encode cs ↔ Char.ofNat b.toNat ∈ cs := by
  constructor
  · intro h
    obtain ⟨x, y, h⟩ := List.append_of_mem h
    obtain ⟨cs₁, cs₂, rfl, -, -⟩ := encode_eq_append_cons hb h
    exact List.mem_append_right cs₁ List.mem_cons_self
  · intro h
    rw [encode, List.mem_flatMap]
    exact ⟨_, h, by rw [utf8EncodeChar_ofNat hb]; exact List.mem_singleton_self b⟩

theorem mem_utf8 (hb : b < 0x80) : b ∈ utf8 s ↔ Char.ofNat b.toNat ∈ s.toList := by
  rw [utf8_eq_encode, mem_encode hb]

theorem getLast?_encode (hb : b < 0x80) :
    (encode cs).getLast? = some b ↔ cs.getLast? = some (Char.ofNat b.toNat) := by
  rw [List.getLast?_eq_some_iff, List.getLast?_eq_some_iff]
  constructor
  · intro h
    obtain ⟨x, h⟩ := h
    obtain ⟨cs₁, cs₂, rfl, -, hy⟩ := encode_eq_append_cons hb h
    cases cs₂ with
    | nil => exact ⟨cs₁, rfl⟩
    | cons c cs₂ =>
      rw [encode_cons] at hy
      exact absurd (List.append_eq_nil_iff.1 hy.symm).1 String.utf8EncodeChar_ne_nil
  · intro h
    obtain ⟨cs₁, rfl⟩ := h
    refine ⟨encode cs₁, ?_⟩
    rw [encode_append, encode_cons, utf8EncodeChar_ofNat hb]
    rfl

theorem ofUtf8?_append_cons (hb : b < 0x80) : ofUtf8? (x ++ b :: y) = some s ↔
    ∃ t u, ofUtf8? x = some t ∧ ofUtf8? y = some u ∧
      s.toList = t.toList ++ Char.ofNat b.toNat :: u.toList := by
  constructor
  · intro h
    obtain ⟨cs₁, cs₂, hs, rfl, rfl⟩ := encode_eq_append_cons hb (eq_encode_of_ofUtf8? h).symm
    refine ⟨_, _, ofUtf8?_encode cs₁, ofUtf8?_encode cs₂, ?_⟩
    rw [hs, String.toList_ofList, String.toList_ofList]
  · intro h
    obtain ⟨t, u, ht, hu, hs⟩ := h
    rw [ofUtf8?_eq_some, utf8_eq_encode, hs, encode_append, encode_cons, utf8EncodeChar_ofNat hb,
      ← eq_encode_of_ofUtf8? ht, ← eq_encode_of_ofUtf8? hu]
    rfl

theorem isSome_ofUtf8?_append_cons (hb : b < 0x80) : (ofUtf8? (x ++ b :: y)).isSome ↔
    (ofUtf8? x).isSome ∧ (ofUtf8? y).isSome := by
  simp only [Option.isSome_iff_exists]
  constructor
  · intro h
    obtain ⟨s, hs⟩ := h
    obtain ⟨t, u, ht, hu, -⟩ := (ofUtf8?_append_cons hb).1 hs
    exact ⟨⟨t, ht⟩, u, hu⟩
  · intro h
    obtain ⟨⟨t, ht⟩, u, hu⟩ := h
    exact ⟨_, (ofUtf8?_append_cons hb).2 ⟨t, u, ht, hu, String.toList_ofList⟩⟩

end KeyAudit.Text
