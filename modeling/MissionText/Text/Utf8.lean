/-!
# Bytes of texts

A text is kept outside as its UTF-8 bytes, and not all bytes are those of a
text. Reading them back gives the text they were written from
(`ofBytes?_eq_some_iff`), and different texts have different bytes
(`bytes_inj`).
-/

namespace MissionText.Text

/-- The bytes of a string in UTF-8. -/
def bytes (s : String) : List UInt8 := s.toUTF8.data.toList

/-- The text that some bytes are in UTF-8. -/
def ofBytes? (bs : List UInt8) : Option String := String.fromUTF8? bs.toByteArray

variable {s t : String} {bs : List UInt8} {content : ByteArray}

/-- **Bytes are read as the text whose bytes they are**, and as no other. -/
theorem fromUTF8?_eq_some_iff : String.fromUTF8? content = some s ↔ content = s.toUTF8 := by
  rw [String.fromUTF8?, String.toUTF8_eq_toByteArray]
  constructor
  · intro h
    split at h
    · cases h
      rfl
    · cases h
  · rintro rfl
    rw [dif_pos s.isValidUTF8]
    rfl

theorem toByteArray_bytes (s : String) : (bytes s).toByteArray = s.toUTF8 := by
  apply ByteArray.ext
  rw [bytes, List.data_toByteArray, Array.toArray_toList]

theorem ofBytes?_eq_some_iff : ofBytes? bs = some s ↔ bs = bytes s := by
  rw [ofBytes?, fromUTF8?_eq_some_iff, ← toByteArray_bytes, List.toByteArray_inj]

theorem bytes_inj : bytes s = bytes t ↔ s = t := by
  rw [← List.toByteArray_inj, toByteArray_bytes, toByteArray_bytes, String.toUTF8_eq_toByteArray,
    String.toUTF8_eq_toByteArray, String.toByteArray_inj]

theorem bytes_append (s t : String) : bytes (s ++ t) = bytes s ++ bytes t := by
  rw [← List.toByteArray_inj, List.toByteArray_append]
  simp only [toByteArray_bytes, String.toUTF8_eq_toByteArray, String.toByteArray_append]

end MissionText.Text
