import TwinLink.Bytes

/-!
# UTF-8

* `Text.utf8 s` : the bytes that write the text `s`;
* `Text.ofUtf8? bs` : the text that `bs` writes, if there is one;
* `Text.ofUtf8?_eq_some_iff` : reading accepts exactly what writing produces.
-/

namespace TwinLink.Text

/-- The bytes that write a text. -/
def utf8 (s : String) : Bytes := s.toByteArray.data.toList

/-- The text written by a byte string, if the bytes are well-formed. -/
def ofUtf8? (bs : Bytes) : Option String := String.fromUTF8? ⟨bs.toArray⟩

theorem ofUtf8?_eq (bs : Bytes) (h : (ByteArray.mk bs.toArray).IsValidUTF8) :
    ofUtf8? bs = some (String.fromUTF8 ⟨bs.toArray⟩ h) := by
  unfold ofUtf8? String.fromUTF8?
  exact dif_pos h

@[simp] theorem ofUtf8?_utf8 (s : String) : ofUtf8? (utf8 s) = some s := by
  have hb : ByteArray.mk (utf8 s).toArray = s.toByteArray := by simp [utf8]
  have hv : (ByteArray.mk (utf8 s).toArray).IsValidUTF8 := hb ▸ s.isValidUTF8
  rw [ofUtf8?_eq _ hv]
  congr 1

theorem utf8_of_ofUtf8? {bs : Bytes} {s : String} (h : ofUtf8? bs = some s) : utf8 s = bs := by
  by_cases hv : (ByteArray.mk bs.toArray).IsValidUTF8
  · rw [ofUtf8?_eq _ hv] at h
    cases h
    simp [utf8, String.fromUTF8]
  · rw [ofUtf8?, String.fromUTF8?, dif_neg hv] at h
    cases h

/-- Reading accepts exactly what writing produces. -/
theorem ofUtf8?_eq_some_iff {bs : Bytes} {s : String} : ofUtf8? bs = some s ↔ utf8 s = bs :=
  ⟨utf8_of_ofUtf8?, fun h => h ▸ ofUtf8?_utf8 s⟩

theorem utf8_injective {s t : String} (h : utf8 s = utf8 t) : s = t := by
  have := ofUtf8?_utf8 s
  rw [h, ofUtf8?_utf8] at this
  exact (Option.some.inj this).symm

@[simp] theorem utf8_empty : utf8 "" = [] := rfl

end TwinLink.Text
