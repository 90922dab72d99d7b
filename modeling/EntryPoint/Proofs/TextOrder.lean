import EntryPoint.Proofs.Text.Utf8
import Mathlib.Data.List.Basic
import Mathlib.Tactic.Common

/-!
# The order of texts

Texts are compared character by character. That is the comparison of their UTF-8 forms byte by byte:
of two characters the one with the smaller code has the smaller form, and neither form starts with
the other one.
-/

namespace EntryPoint

/-- Numbers compare like the rest and then the last digit of their forms to the base 64. -/
lemma lt_iff_last_digit (a b : Nat) :
    a < b ↔ a / 64 < b / 64 ∨ a / 64 = b / 64 ∧ a % 64 < b % 64 := by
  omega

/-- Numbers compare like their forms to the base 64, up to the fourth digit from the end. -/
lemma lt_iff_digits (a b : Nat) :
    a < b ↔ a / 262144 < b / 262144 ∨ a / 262144 = b / 262144 ∧
      (a / 4096 % 64 < b / 4096 % 64 ∨ a / 4096 % 64 = b / 4096 % 64 ∧
        (a / 64 % 64 < b / 64 % 64 ∨ a / 64 % 64 = b / 64 % 64 ∧ a % 64 < b % 64)) := by
  rw [lt_iff_last_digit a, lt_iff_last_digit (a / 64), lt_iff_last_digit (a / 64 / 64)]
  simp only [Nat.div_div_eq_div_mul, Nat.reduceMul]
  omega

/-- The form of a character with a smaller code is smaller in the first byte that differs. -/
lemma utf8EncodeChar_append_lt {c d : Char} (h : c < d) (x y : Bytes) :
    String.utf8EncodeChar c ++ x < String.utf8EncodeChar d ++ y := by
  have hlt : c.val.toNat < d.val.toNat := by
    rwa [Char.lt_def, UInt32.lt_iff_toNat_lt] at h
  have hd : d.val.toNat < 0x110000 := by
    have hvalid := d.valid
    simp only [UInt32.isValidChar, Nat.isValidChar] at hvalid
    omega
  have hdigits := (lt_iff_digits _ _).1 hlt
  simp only [String.utf8EncodeChar]
  -- One goal for each two lengths; where the lengths differ, the first bytes do.
  split_ifs <;>
    simp (disch := omega) only [List.cons_append, List.nil_append, List.cons_lt_cons_iff,
      UInt8.lt_iff_toNat_lt, ← UInt8.toNat_inj, UInt8.toNat_ofNat', Nat.mod_eq_of_lt] <;>
    omega

/-- The form of a smaller list of characters is smaller. -/
lemma flatMap_utf8EncodeChar_lt {a b : List Char} (h : a < b) :
    a.flatMap String.utf8EncodeChar < b.flatMap String.utf8EncodeChar := by
  induction h with
  | @nil d ds =>
    obtain ⟨first, rest, hform⟩ := List.exists_cons_of_ne_nil (String.utf8EncodeChar_ne_nil (c := d))
    rw [List.flatMap_nil, List.flatMap_cons, hform]
    exact List.nil_lt_cons _ _
  | rel hlt => exact utf8EncodeChar_append_lt hlt _ _
  | cons _ ih => exact List.append_left_lt ih

/-- A text is smaller than another one exactly if its UTF-8 form is. -/
theorem ofText_lt_ofText_iff {a b : String} : Bytes.ofText a < Bytes.ofText b ↔ a < b := by
  have hmono : ∀ {a b : String}, a < b → Bytes.ofText a < Bytes.ofText b := by
    intro a b h
    rw [ofText_eq_flatMap, ofText_eq_flatMap]
    exact flatMap_utf8EncodeChar_lt h
  refine ⟨fun h => ?_, hmono⟩
  rcases Std.lt_trichotomy a b with hab | rfl | hba
  · exact hab
  · exact absurd h (Std.lt_irrefl)
  · exact absurd h (Std.not_lt.2 (Std.le_of_lt (hmono hba)))

end EntryPoint
