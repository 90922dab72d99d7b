import EntryPoint.Text.Utf16
import Mathlib.Data.List.Basic
import Mathlib.Tactic.Common

/-!
# Reading 16-bit units

A sequence of units spells a sequence of characters exactly if it is the one that the characters are
written as (`decode_eq_some_iff`): each character has one spelling, and a surrogate outside a pair
belongs to none.
-/

namespace EntryPoint.Utf16

/-! ## Surrogates -/

lemma isHighSurrogate_iff (unit : UInt16) :
    isHighSurrogate unit = true ↔ 0xD800 ≤ unit.toNat ∧ unit.toNat ≤ 0xDBFF := by
  simp [isHighSurrogate, UInt16.le_iff_toNat_le]

lemma isLowSurrogate_iff (unit : UInt16) :
    isLowSurrogate unit = true ↔ 0xDC00 ≤ unit.toNat ∧ unit.toNat ≤ 0xDFFF := by
  simp [isLowSurrogate, UInt16.le_iff_toNat_le]

/-- The code of a character lies below `110000` and outside the surrogates. -/
lemma toNat_lt_or_between (c : Char) :
    c.toNat < 0xD800 ∨ 0xDFFF < c.toNat ∧ c.toNat < 0x110000 :=
  c.valid

/-- A number that is no surrogate is the code of its character. -/
lemma toNat_ofNat_of_valid {code : Nat}
    (h : code < 0xD800 ∨ 0xDFFF < code ∧ code < 0x110000) : (Char.ofNat code).toNat = code := by
  rw [Char.ofNat, dif_pos h]
  rfl

/-! ## The units of one character -/

lemma encodeChar_of_lt {c : Char} (h : c.toNat < 0x10000) :
    encodeChar c = [UInt16.ofNat c.toNat] := by
  rw [encodeChar, if_pos h]

/-- A unit that is no surrogate is the spelling of the character with its code. -/
lemma encodeChar_ofNat_toNat {unit : UInt16} (hhigh : isHighSurrogate unit = false)
    (hlow : isLowSurrogate unit = false) : encodeChar (Char.ofNat unit.toNat) = [unit] := by
  have hunit : unit.toNat < 0x10000 := unit.toNat_lt
  have hcode : (Char.ofNat unit.toNat).toNat = unit.toNat := by
    rw [← Bool.not_eq_true, isHighSurrogate_iff] at hhigh
    rw [← Bool.not_eq_true, isLowSurrogate_iff] at hlow
    exact toNat_ofNat_of_valid (by omega)
  rw [encodeChar_of_lt (by omega), hcode, UInt16.ofNat_toNat]

/-- A pair of surrogates is the spelling of its character. -/
lemma encodeChar_pairedChar {high low : UInt16} (hhigh : isHighSurrogate high = true)
    (hlow : isLowSurrogate low = true) : encodeChar (pairedChar high low) = [high, low] := by
  rw [isHighSurrogate_iff] at hhigh
  rw [isLowSurrogate_iff] at hlow
  have hcode : (pairedChar high low).toNat
      = 0x10000 + (high.toNat - 0xD800) * 0x400 + (low.toNat - 0xDC00) :=
    toNat_ofNat_of_valid (by omega)
  have hfirst : 0xD800 + ((pairedChar high low).toNat - 0x10000) / 0x400 = high.toNat := by
    omega
  have hsecond : 0xDC00 + ((pairedChar high low).toNat - 0x10000) % 0x400 = low.toNat := by
    omega
  rw [encodeChar, if_neg (by omega), hfirst, hsecond, UInt16.ofNat_toNat, UInt16.ofNat_toNat]

/-- The units of a character are read as the character. -/
lemma decodeOnto_encodeChar (found : List Char) (c : Char) (rest : List UInt16) :
    decodeOnto found (encodeChar c ++ rest) = decodeOnto (c :: found) rest := by
  have hvalid := toNat_lt_or_between c
  by_cases hc : c.toNat < 0x10000
  · have hunit : (UInt16.ofNat c.toNat).toNat = c.toNat := by
      rw [UInt16.toNat_ofNat', Nat.mod_eq_of_lt hc]
    have hhigh : ¬isHighSurrogate (UInt16.ofNat c.toNat) = true := by
      rw [isHighSurrogate_iff]
      omega
    have hlow : ¬isLowSurrogate (UInt16.ofNat c.toNat) = true := by
      rw [isLowSurrogate_iff]
      omega
    rw [encodeChar_of_lt hc, List.singleton_append, decodeOnto.eq_def]
    simp only [if_neg hhigh, if_neg hlow, hunit, Char.ofNat_toNat]
  · have hhigh : (UInt16.ofNat (0xD800 + (c.toNat - 0x10000) / 0x400)).toNat
        = 0xD800 + (c.toNat - 0x10000) / 0x400 := by
      rw [UInt16.toNat_ofNat', Nat.mod_eq_of_lt (by omega)]
    have hlow : (UInt16.ofNat (0xDC00 + (c.toNat - 0x10000) % 0x400)).toNat
        = 0xDC00 + (c.toNat - 0x10000) % 0x400 := by
      rw [UInt16.toNat_ofNat', Nat.mod_eq_of_lt (by omega)]
    have hopens : isHighSurrogate (UInt16.ofNat (0xD800 + (c.toNat - 0x10000) / 0x400)) = true := by
      rw [isHighSurrogate_iff]
      omega
    have hcloses : isLowSurrogate (UInt16.ofNat (0xDC00 + (c.toNat - 0x10000) % 0x400)) = true := by
      rw [isLowSurrogate_iff]
      omega
    have hcode : 0x10000 + (0xD800 + (c.toNat - 0x10000) / 0x400 - 0xD800) * 0x400
        + (0xDC00 + (c.toNat - 0x10000) % 0x400 - 0xDC00) = c.toNat := by
      omega
    rw [encodeChar, if_neg hc, List.cons_append, List.singleton_append, decodeOnto.eq_def]
    simp only [hopens, hcloses, if_true, pairedChar, hhigh, hlow, hcode, Char.ofNat_toNat]

/-! ## The units of a text -/

lemma encode_cons (c : Char) (cs : List Char) : encode (c :: cs) = encodeChar c ++ encode cs :=
  List.flatMap_cons

/-- The characters of a text are read back from its units. -/
lemma decodeOnto_encode (found cs : List Char) :
    decodeOnto found (encode cs) = some (found.reverse ++ cs) := by
  induction cs generalizing found with
  | nil => rw [encode, List.flatMap_nil, decodeOnto, List.append_nil]
  | cons c cs ih =>
    rw [encode_cons, decodeOnto_encodeChar, ih, List.reverse_cons, List.append_assoc,
      List.singleton_append]

/-- Units that are read are those of the characters read. -/
lemma eq_encode_of_decodeOnto {found cs : List Char} {units : List UInt16}
    (h : decodeOnto found units = some cs) :
    ∃ more, cs = found.reverse ++ more ∧ units = encode more := by
  fun_induction decodeOnto found units with
  | case1 found =>
    cases h
    exact ⟨[], by rw [List.append_nil], rfl⟩
  | case2 found high hhigh low rest hlow ih =>
    obtain ⟨more, rfl, rfl⟩ := ih h
    refine ⟨pairedChar high low :: more, by simp, ?_⟩
    rw [encode_cons, encodeChar_pairedChar hhigh hlow]
    rfl
  | case3 | case4 | case5 => cases h
  | case6 found unit rest hhigh hlow ih =>
    obtain ⟨more, rfl, rfl⟩ := ih h
    refine ⟨Char.ofNat unit.toNat :: more, by simp, ?_⟩
    rw [encode_cons,
      encodeChar_ofNat_toNat (Bool.eq_false_iff.2 hhigh) (Bool.eq_false_iff.2 hlow)]
    rfl

/-- Units spell characters exactly if they are the units of these characters. -/
theorem decode_eq_some_iff {units : List UInt16} {cs : List Char} :
    decode units = some cs ↔ units = encode cs := by
  constructor
  · intro h
    obtain ⟨more, rfl, hunits⟩ := eq_encode_of_decodeOnto h
    exact hunits
  · rintro rfl
    exact decodeOnto_encode [] cs

end EntryPoint.Utf16
