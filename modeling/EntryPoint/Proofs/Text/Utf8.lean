import EntryPoint.Bytes
import Mathlib.Data.List.Basic
import Mathlib.Tactic.Common

/-!
# Texts in UTF-8

A byte string is read as a text exactly if it is the UTF-8 form of that text, which is the forms of
its characters one after the other.
-/

namespace EntryPoint

/-- The characters of a text, each in its UTF-8 form. -/
lemma ofText_eq_flatMap (text : String) :
    Bytes.ofText text = text.toList.flatMap String.utf8EncodeChar := by
  have h : text.toUTF8 = (text.toList.flatMap String.utf8EncodeChar).toByteArray :=
    String.utf8Encode_toList.symm
  rw [Bytes.ofText, h, List.data_toByteArray]

/-- The bytes of a text are read as that text. -/
lemma Bytes.text?_ofText (text : String) : (Bytes.ofText text).text? = some text := by
  have hbytes : text.toUTF8.data.toList.toByteArray = text.toByteArray := by
    apply ByteArray.ext
    simp
  rw [Bytes.text?, Bytes.ofText, hbytes, String.fromUTF8?, dif_pos text.isValidUTF8]
  rfl

/-- A byte string is read as a text exactly if it is the form of the text. -/
lemma Bytes.text?_eq_some_iff {stored : Bytes} {text : String} :
    stored.text? = some text ↔ stored = Bytes.ofText text := by
  constructor
  · intro h
    rw [Bytes.text?, String.fromUTF8?] at h
    split at h
    · cases h
      change stored = stored.toByteArray.data.toList
      rw [List.data_toByteArray]
    · cases h
  · rintro rfl
    exact Bytes.text?_ofText text

end EntryPoint
