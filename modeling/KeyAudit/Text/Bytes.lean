namespace KeyAudit

abbrev Bytes := List UInt8

namespace Text

def utf8 (s : String) : Bytes := s.toByteArray.data.toList

def ofUtf8? (b : Bytes) : Option String := String.fromUTF8? ⟨b.toArray⟩

theorem ofUtf8?_utf8 (s : String) : ofUtf8? (utf8 s) = some s := by
  simp only [ofUtf8?, utf8, Array.toArray_toList, String.fromUTF8?]
  exact dif_pos s.isValidUTF8

theorem utf8_of_ofUtf8? {b : Bytes} {s : String} (h : ofUtf8? b = some s) : utf8 s = b := by
  rw [ofUtf8?, String.fromUTF8?] at h
  split at h
  · obtain rfl := Option.some.inj h
    simp [utf8, String.fromUTF8]
  · cases h

theorem ofUtf8?_eq_some {b : Bytes} {s : String} : ofUtf8? b = some s ↔ b = utf8 s :=
  ⟨fun h ↦ (utf8_of_ofUtf8? h).symm, fun h ↦ h ▸ ofUtf8?_utf8 s⟩

end Text

end KeyAudit
