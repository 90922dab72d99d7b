import EntryPoint.ClassFile.ConstantPool
import EntryPoint.Proofs.Text.Utf16
import EntryPoint.Proofs.Text.Utf8
import EntryPoint.Text.ModifiedUtf8
import Mathlib.Data.List.Basic
import Mathlib.Data.List.Chain
import Mathlib.Data.List.Forall2
import Mathlib.Tactic.Common

/-!
# Reading stored texts

Read unit by unit, a byte string is a sequence of groups, each of which gives the number of a unit
in one byte or in digits of six bits (`decodeUnits_eq_some_iff`). The modified UTF-8 form of a text
is such a sequence, and so is the UTF-8 form of a text without supplementary characters. Hence every
text is read back from its modified form, and the two ways of reading never contradict each other. A
group may be longer than its unit needs, though: of what is read unit by unit, only the byte strings
whose groups are shortest are forms of a text (`isShortest_iff_of_decodeUnits`).
-/

namespace EntryPoint.ModifiedUtf8

/-! ## Bytes and their bits -/

/-- What holds of all numbers below 256 as bytes holds of every byte. -/
lemma forall_byte {p : UInt8 → Prop} (h : ∀ value < 256, p (UInt8.ofNat value)) (byte : UInt8) :
    p byte := by
  simpa using h byte.toNat byte.toNat_lt

/-- The bytes of a range are the sums of its first one and an offset. -/
lemma mem_range_iff {first count : ℕ} (h : first + count ≤ 256) (byte : UInt8) :
    first ≤ byte.toNat ∧ byte.toNat < first + count ↔
      ∃ offset < count, byte = UInt8.ofNat (first + offset) := by
  constructor
  · rintro ⟨hfirst, hlast⟩
    refine ⟨byte.toNat - first, by omega, ?_⟩
    rw [Nat.add_sub_cancel' hfirst, UInt8.ofNat_toNat]
  · rintro ⟨offset, hoffset, rfl⟩
    rw [UInt8.toNat_ofNat', Nat.mod_eq_of_lt (by omega)]
    omega

/-- The bytes that are groups of their own. -/
lemma isSingle_iff (byte : UInt8) :
    byte &&& 0x80 = 0 ↔ ∃ value < 0x80, byte = UInt8.ofNat value := by
  have hrange : byte.toNat < 0x80 ↔ ∃ value < 0x80, byte = UInt8.ofNat value := by
    simpa using mem_range_iff (show 0 + 0x80 ≤ 256 by decide) byte
  rw [← hrange]
  clear hrange
  revert byte
  exact forall_byte (by decide +kernel)

/-- The bytes that open groups of two. -/
lemma opensTwo_iff (byte : UInt8) :
    byte &&& 0xE0 = 0xC0 ↔ ∃ high < 0x20, byte = UInt8.ofNat (0xC0 + high) := by
  rw [← mem_range_iff (by decide)]
  revert byte
  exact forall_byte (by decide +kernel)

/-- The bytes that open groups of three. -/
lemma opensThree_iff (byte : UInt8) :
    byte &&& 0xF0 = 0xE0 ↔ ∃ high < 0x10, byte = UInt8.ofNat (0xE0 + high) := by
  rw [← mem_range_iff (by decide)]
  revert byte
  exact forall_byte (by decide +kernel)

/-- The bytes that continue a group. -/
lemma continues_iff (byte : UInt8) :
    byte &&& 0xC0 = 0x80 ↔ ∃ low < 0x40, byte = UInt8.ofNat (0x80 + low) := by
  rw [← mem_range_iff (by decide)]
  revert byte
  exact forall_byte (by decide +kernel)

/-- The bits of a byte that is a group of its own. -/
lemma bits_single : ∀ value < 0x80, (UInt8.ofNat value).toUInt16 = UInt16.ofNat value := by
  decide +kernel

/-- A byte that opens a group of two is no group of its own, and its last five bits count. -/
lemma bits_two : ∀ high < 0x20, UInt8.ofNat (0xC0 + high) &&& 0x80 ≠ 0 ∧
    (UInt8.ofNat (0xC0 + high) &&& 0x1F).toUInt16 = UInt16.ofNat high := by
  decide +kernel

/-- A byte that opens a group of three opens no shorter one, and its last four bits count. -/
lemma bits_three : ∀ high < 0x10, UInt8.ofNat (0xE0 + high) &&& 0x80 ≠ 0 ∧
    UInt8.ofNat (0xE0 + high) &&& 0xE0 ≠ 0xC0 ∧
    (UInt8.ofNat (0xE0 + high) &&& 0x0F).toUInt16 = UInt16.ofNat high := by
  decide +kernel

/-- The last six bits of a byte that continues a group count. -/
lemma bits_continuing : ∀ low < 0x40,
    (UInt8.ofNat (0x80 + low) &&& 0x3F).toUInt16 = UInt16.ofNat low := by
  decide +kernel

lemma continuation?_eq_some_iff {byte : UInt8} {bits : UInt16} :
    continuation? byte = some bits ↔
      ∃ low < 0x40, byte = UInt8.ofNat (0x80 + low) ∧ bits = UInt16.ofNat low := by
  rw [continuation?, Option.ite_none_right_eq_some, continues_iff]
  constructor
  · rintro ⟨⟨low, hlow, rfl⟩, hbits⟩
    rw [bits_continuing low hlow] at hbits
    exact ⟨low, hlow, rfl, (Option.some.inj hbits).symm⟩
  · rintro ⟨low, hlow, rfl, rfl⟩
    exact ⟨⟨low, hlow, rfl⟩, congrArg some (bits_continuing low hlow)⟩

/-- Six bits are appended to others. -/
lemma shiftLeft_or (high : ℕ) {low : ℕ} (hlow : low < 0x40) :
    UInt16.ofNat high <<< 6 ||| UInt16.ofNat low = UInt16.ofNat (high * 0x40 + low) := by
  have hnumber : high * 0x40 + low = high <<< 6 ||| low := by
    rw [← Nat.shiftLeft_add_eq_or_of_lt (i := 6) hlow, Nat.shiftLeft_eq]
  rw [hnumber, UInt16.ofNat_or, UInt16.ofNat_shiftLeft _ _ (by decide)]
  rfl

/-- Twice six bits are appended to others. -/
lemma shiftLeft_or_or (high : ℕ) {middle low : ℕ} (hmiddle : middle < 0x40) (hlow : low < 0x40) :
    UInt16.ofNat high <<< 12 ||| UInt16.ofNat middle <<< 6 ||| UInt16.ofNat low
      = UInt16.ofNat ((high * 0x40 + middle) * 0x40 + low) := by
  have htwelve : (12 : UInt16) = 6 + 6 := rfl
  rw [htwelve, UInt16.shiftLeft_add (by decide) (by decide) (by decide), ← UInt16.shiftLeft_or,
    shiftLeft_or high hmiddle, shiftLeft_or _ hlow]

/-! ## Groups -/

/-- The groups of bytes that are read as a unit: its number in one byte or in digits of six bits. A
group need not be the shortest one of its unit. -/
inductive Spells : Bytes → UInt16 → Prop where
  | one (value : ℕ) (hvalue : value < 0x80) : Spells [UInt8.ofNat value] (UInt16.ofNat value)
  | two (high low : ℕ) (hhigh : high < 0x20) (hlow : low < 0x40) :
    Spells [UInt8.ofNat (0xC0 + high), UInt8.ofNat (0x80 + low)] (UInt16.ofNat (high * 0x40 + low))
  | three (high middle low : ℕ) (hhigh : high < 0x10) (hmiddle : middle < 0x40)
    (hlow : low < 0x40) :
    Spells [UInt8.ofNat (0xE0 + high), UInt8.ofNat (0x80 + middle), UInt8.ofNat (0x80 + low)]
      (UInt16.ofNat ((high * 0x40 + middle) * 0x40 + low))

/-- A group is read as its unit. -/
lemma Spells.unitsOnto_append {group : Bytes} {unit : UInt16} (h : Spells group unit)
    (found : List UInt16) (rest : Bytes) :
    unitsOnto found (group ++ rest) = unitsOnto (unit :: found) rest := by
  cases h with
  | one value hvalue =>
    rw [List.singleton_append, unitsOnto.eq_def]
    simp only [if_pos ((isSingle_iff _).2 ⟨value, hvalue, rfl⟩), bits_single value hvalue]
  | two high low hhigh hlow =>
    obtain ⟨hsingle, hbits⟩ := bits_two high hhigh
    rw [List.cons_append, List.singleton_append, unitsOnto.eq_def]
    simp only [if_neg hsingle, if_pos ((opensTwo_iff _).2 ⟨high, hhigh, rfl⟩),
      continuation?_eq_some_iff.2 ⟨low, hlow, rfl, rfl⟩, hbits, shiftLeft_or high hlow]
  | three high middle low hhigh hmiddle hlow =>
    obtain ⟨hsingle, htwo, hbits⟩ := bits_three high hhigh
    rw [List.cons_append, List.cons_append, List.singleton_append, unitsOnto.eq_def]
    simp only [if_neg hsingle, if_neg htwo, if_pos ((opensThree_iff _).2 ⟨high, hhigh, rfl⟩),
      continuation?_eq_some_iff.2 ⟨middle, hmiddle, rfl, rfl⟩,
      continuation?_eq_some_iff.2 ⟨low, hlow, rfl, rfl⟩, hbits, shiftLeft_or_or high hmiddle hlow]

/-- A group in front of a sequence of groups makes a longer sequence. -/
lemma Spells.exists_groups {group rest : Bytes} {unit : UInt16} (h : Spells group unit)
    {found units : List UInt16}
    (hrest : ∃ groups more, List.Forall₂ Spells groups more ∧ rest = groups.flatten ∧
      units = (unit :: found).reverse ++ more) :
    ∃ groups more, List.Forall₂ Spells groups more ∧ group ++ rest = groups.flatten ∧
      units = found.reverse ++ more := by
  obtain ⟨groups, more, hgroups, rfl, rfl⟩ := hrest
  refine ⟨group :: groups, unit :: more, .cons h hgroups, rfl, ?_⟩
  rw [List.reverse_cons, List.append_assoc, List.singleton_append]

/-- What is read is a sequence of groups. -/
lemma exists_groups_of_unitsOnto {found units : List UInt16} {stored : Bytes}
    (h : unitsOnto found stored = some units) :
    ∃ groups more, List.Forall₂ Spells groups more ∧ stored = groups.flatten ∧
      units = found.reverse ++ more := by
  fun_induction unitsOnto found stored with
  | case1 found =>
    cases h
    exact ⟨[], [], .nil, rfl, by rw [List.append_nil]⟩
  | case2 found lead rest hlead ih =>
    obtain ⟨value, hvalue, rfl⟩ := (isSingle_iff lead).1 hlead
    rw [bits_single value hvalue] at h ih
    exact (Spells.one value hvalue).exists_groups (ih h)
  | case3 found lead hsingle hlead second rest bits hsecond ih =>
    obtain ⟨high, hhigh, rfl⟩ := (opensTwo_iff lead).1 hlead
    obtain ⟨low, hlow, rfl, rfl⟩ := continuation?_eq_some_iff.1 hsecond
    rw [(bits_two high hhigh).2, shiftLeft_or high hlow] at h ih
    exact (Spells.two high low hhigh hlow).exists_groups (ih h)
  | case6 found lead hsingle htwo hlead second third rest bits more hthird hsecond ih =>
    obtain ⟨high, hhigh, rfl⟩ := (opensThree_iff lead).1 hlead
    obtain ⟨middle, hmiddle, rfl, rfl⟩ := continuation?_eq_some_iff.1 hsecond
    obtain ⟨low, hlow, rfl, rfl⟩ := continuation?_eq_some_iff.1 hthird
    rw [(bits_three high hhigh).2.2, shiftLeft_or_or high hmiddle hlow] at h ih
    exact (Spells.three high middle low hhigh hmiddle hlow).exists_groups (ih h)
  | _ => cases h

/-- A sequence of groups is read as their units. -/
lemma unitsOnto_flatten {groups : List Bytes} {more : List UInt16}
    (h : List.Forall₂ Spells groups more) (found : List UInt16) :
    unitsOnto found groups.flatten = some (found.reverse ++ more) := by
  induction h generalizing found with
  | nil => rw [List.flatten_nil, unitsOnto, List.append_nil]
  | cons hgroup _ ih =>
    rw [List.flatten_cons, hgroup.unitsOnto_append, ih, List.reverse_cons, List.append_assoc,
      List.singleton_append]

/-- Units are read exactly from the sequences of their groups. -/
theorem units_eq_some_iff {stored : Bytes} {found : List UInt16} :
    units stored = some found ↔
      ∃ groups, List.Forall₂ Spells groups found ∧ stored = groups.flatten := by
  constructor
  · intro h
    obtain ⟨groups, more, hgroups, rfl, rfl⟩ := exists_groups_of_unitsOnto h
    exact ⟨groups, hgroups, rfl⟩
  · rintro ⟨groups, hgroups, rfl⟩
    exact unitsOnto_flatten hgroups []

/-- A text is read unit by unit exactly from the sequences of groups of its units. -/
theorem decodeUnits_eq_some_iff {stored : Bytes} {text : String} :
    decodeUnits stored = some text ↔
      ∃ groups, List.Forall₂ Spells groups (Utf16.encode text.toList) ∧
        stored = groups.flatten := by
  rw [← units_eq_some_iff, decodeUnits]
  cases hunits : units stored with
  | none => simp
  | some found =>
    simp only [Option.map_eq_some_iff, Utf16.decode_eq_some_iff, Option.some.injEq]
    constructor
    · rintro ⟨cs, rfl, rfl⟩
      rw [String.toList_ofList]
    · rintro rfl
      exact ⟨text.toList, rfl, String.ofList_toList⟩

/-- No byte of a group is one that opens a sequence of four in UTF-8. -/
lemma Spells.toNat_lt {group : Bytes} {unit : UInt16} (h : Spells group unit) {byte : UInt8}
    (hbyte : byte ∈ group) : byte.toNat < 0xF0 := by
  cases h <;> simp only [List.mem_cons, List.not_mem_nil, or_false] at hbyte <;>
    rcases hbyte with rfl | rfl | rfl <;> rw [UInt8.toNat_ofNat'] <;> omega

/-- Bytes that are read unit by unit open no sequence of four. -/
lemma toNat_lt_of_decodeUnits {stored : Bytes} {text : String}
    (h : decodeUnits stored = some text) : ∀ byte ∈ stored, byte.toNat < 0xF0 := by
  obtain ⟨groups, hgroups, rfl⟩ := decodeUnits_eq_some_iff.1 h
  generalize Utf16.encode text.toList = found at hgroups
  clear h
  induction hgroups with
  | nil => simp
  | cons hgroup _ ih =>
    intro byte hbyte
    rw [List.flatten_cons, List.mem_append] at hbyte
    exact hbyte.elim hgroup.toNat_lt (ih byte)

/-! ## Texts as groups -/

/-- The bytes of a unit are a group of it. -/
lemma spells_encodeUnit (unit : UInt16) : Spells (encodeUnit unit) unit := by
  have hunit : unit.toNat < 0x10000 := unit.toNat_lt
  rw [encodeUnit]
  split_ifs with hone htwo
  · have hspells := Spells.one unit.toNat hone.2
    rwa [UInt16.ofNat_toNat] at hspells
  · have hspells := Spells.two (unit.toNat / 0x40) (unit.toNat % 0x40) (by omega) (by omega)
    have hvalue : unit.toNat / 0x40 * 0x40 + unit.toNat % 0x40 = unit.toNat := by omega
    rwa [hvalue, UInt16.ofNat_toNat] at hspells
  · have hspells := Spells.three (unit.toNat / 0x1000) (unit.toNat / 0x40 % 0x40)
      (unit.toNat % 0x40) (by omega) (by omega) (by omega)
    have hvalue : (unit.toNat / 0x1000 * 0x40 + unit.toNat / 0x40 % 0x40) * 0x40
        + unit.toNat % 0x40 = unit.toNat := by omega
    rwa [hvalue, UInt16.ofNat_toNat] at hspells

/-- What units are written as is a sequence of their groups. -/
lemma spells_map_encodeUnit (found : List UInt16) :
    List.Forall₂ Spells (found.map encodeUnit) found := by
  rw [List.forall₂_map_left_iff, List.forall₂_same]
  exact fun unit _ => spells_encodeUnit unit

/-- A text is read back from its modified UTF-8 form unit by unit. -/
lemma decodeUnits_encode (text : String) : decodeUnits (encode text) = some text :=
  decodeUnits_eq_some_iff.2 ⟨_, spells_map_encodeUnit (Utf16.encode text.toList), List.flatMap_def⟩

/-! ## Sequences of four bytes -/

/-- Whether a byte string holds the UTF-8 form of a character that takes four bytes. -/
def HasFourByteSequence (stored : Bytes) : Prop :=
  ∃ c : Char, (String.utf8EncodeChar c).length = 4 ∧ String.utf8EncodeChar c <:+: stored

/-- The characters beyond the basic plane are those that take four bytes. -/
lemma length_utf8EncodeChar_eq_four_iff (c : Char) :
    (String.utf8EncodeChar c).length = 4 ↔ 0x10000 ≤ c.toNat := by
  have hcode : c.toNat = c.val.toNat := rfl
  simp only [String.utf8EncodeChar]
  split_ifs <;> simp <;> omega

/-- A byte that opens a sequence of four occurs in the forms of exactly the characters beyond the
basic plane. -/
lemma exists_mem_utf8EncodeChar_iff (c : Char) :
    (∃ byte ∈ String.utf8EncodeChar c, 0xF0 ≤ byte.toNat) ↔ 0x10000 ≤ c.toNat := by
  have hcode : c.toNat = c.val.toNat := rfl
  simp only [String.utf8EncodeChar]
  split_ifs <;> simp <;> omega

/-- The two forms of a character of the basic plane are the same, the null character aside. -/
lemma utf8EncodeChar_eq_encodeUnit {c : Char} (hpos : 0 < c.toNat) (h : c.toNat < 0x10000) :
    String.utf8EncodeChar c = encodeUnit (UInt16.ofNat c.toNat) := by
  have hcode : c.val.toNat = c.toNat := rfl
  have hunit : (UInt16.ofNat c.toNat).toNat = c.toNat := by
    rw [UInt16.toNat_ofNat', Nat.mod_eq_of_lt h]
  have hlow : c.toNat % 64 + 128 = 0x80 + c.toNat % 0x40 := Nat.add_comm _ _
  simp only [String.utf8EncodeChar, encodeUnit, hcode, hunit, hlow]
  rcases Nat.lt_or_ge c.toNat 0x80 with hone | hone
  · rw [if_pos (show c.toNat ≤ 127 by omega), if_pos ⟨hpos, hone⟩]
  have hnotOne : ¬(0 < c.toNat ∧ c.toNat < 0x80) := by omega
  rcases Nat.lt_or_ge c.toNat 0x800 with htwo | htwo
  · have hlead : c.toNat / 64 % 32 + 192 = 0xC0 + c.toNat / 0x40 := by omega
    rw [if_neg (show ¬c.toNat ≤ 127 by omega), if_pos (show c.toNat ≤ 2047 by omega),
      if_neg hnotOne, if_pos htwo, hlead]
  · have hlead : c.toNat / 4096 % 16 + 224 = 0xE0 + c.toNat / 0x1000 := by omega
    have hmiddle : c.toNat / 64 % 64 + 128 = 0x80 + c.toNat / 0x40 % 0x40 := Nat.add_comm _ _
    rw [if_neg (show ¬c.toNat ≤ 127 by omega), if_neg (show ¬c.toNat ≤ 2047 by omega),
      if_pos (show c.toNat ≤ 65535 by omega), if_neg hnotOne, if_neg (Nat.not_lt.2 htwo), hlead,
      hmiddle]

/-- The UTF-8 form of a character of the basic plane is a group of its unit. -/
lemma spells_utf8EncodeChar {c : Char} (h : c.toNat < 0x10000) :
    Spells (String.utf8EncodeChar c) (UInt16.ofNat c.toNat) := by
  rcases Nat.eq_zero_or_pos c.toNat with hzero | hpos
  · obtain rfl : c = Char.ofNat 0 := by rw [← hzero, Char.ofNat_toNat]
    exact .one 0 (by decide)
  · rw [utf8EncodeChar_eq_encodeUnit hpos h]
    exact spells_encodeUnit _

/-- A text without characters beyond the basic plane is read from its UTF-8 form unit by unit. -/
lemma decodeUnits_ofText {text : String} (h : ∀ c ∈ text.toList, c.toNat < 0x10000) :
    decodeUnits (Bytes.ofText text) = some text := by
  refine decodeUnits_eq_some_iff.2 ⟨text.toList.map String.utf8EncodeChar, ?_, ?_⟩
  · have hunits : Utf16.encode text.toList = text.toList.map fun c => UInt16.ofNat c.toNat := by
      rw [Utf16.encode, List.map_eq_flatMap]
      exact List.flatMap_congr fun c hc => Utf16.encodeChar_of_lt (h c hc)
    rw [hunits, List.forall₂_map_left_iff, List.forall₂_map_right_iff, List.forall₂_same]
    exact fun c hc => spells_utf8EncodeChar (h c hc)
  · rw [ofText_eq_flatMap, List.flatMap_def]

/-- A text with a character beyond the basic plane has a sequence of four bytes. -/
lemma hasFourByteSequence_ofText {text : String} {c : Char} (hc : c ∈ text.toList)
    (h : 0x10000 ≤ c.toNat) : HasFourByteSequence (Bytes.ofText text) := by
  obtain ⟨before, after, hsplit⟩ := List.append_of_mem hc
  refine ⟨c, (length_utf8EncodeChar_eq_four_iff c).2 h, before.flatMap String.utf8EncodeChar,
    after.flatMap String.utf8EncodeChar, ?_⟩
  rw [ofText_eq_flatMap, hsplit, List.flatMap_append, List.flatMap_cons, List.append_assoc]

/-- What is read unit by unit has no sequence of four bytes. -/
lemma not_hasFourByteSequence_of_decodeUnits {stored : Bytes} {text : String}
    (h : decodeUnits stored = some text) : ¬HasFourByteSequence stored := by
  rintro ⟨c, hlength, hwithin⟩
  obtain ⟨byte, hbyte, hlead⟩ :=
    (exists_mem_utf8EncodeChar_iff c).2 ((length_utf8EncodeChar_eq_four_iff c).1 hlength)
  exact Nat.not_lt.2 hlead (toNat_lt_of_decodeUnits h byte (hwithin.subset hbyte))

/-- What is UTF-8 without sequences of four bytes is read alike unit by unit. -/
lemma decodeUnits_of_text? {stored : Bytes} {text : String} (h : stored.text? = some text)
    (hfour : ¬HasFourByteSequence stored) : decodeUnits stored = some text := by
  obtain rfl := Bytes.text?_eq_some_iff.1 h
  refine decodeUnits_ofText fun c hc => ?_
  by_contra hlarge
  exact hfour (hasFourByteSequence_ofText hc (Nat.not_lt.1 hlarge))

/-- What is read in both ways is read alike. -/
lemma eq_of_decodeUnits {stored : Bytes} {text other : String} (h : stored.text? = some text)
    (hunits : decodeUnits stored = some other) : other = text := by
  rw [decodeUnits_of_text? h (not_hasFourByteSequence_of_decodeUnits hunits)] at hunits
  exact (Option.some.inj hunits).symm

/-- What is read unit by unit is read so as well where it is UTF-8. -/
lemma decode_of_decodeUnits {stored : Bytes} {text : String}
    (h : decodeUnits stored = some text) : decode stored = some text := by
  rw [decode]
  split
  · rename_i other hother
    rw [eq_of_decodeUnits hother h]
  · exact h

/-- Every text is read back from its modified UTF-8 form, be that form UTF-8 as well or not. -/
theorem decode_encode (text : String) : decode (encode text) = some text :=
  decode_of_decodeUnits (decodeUnits_encode text)

example : encode "\x00\x7Fß€😀"
    = [0xC0, 0x80, 0x7F, 0xC3, 0x9F, 0xE2, 0x82, 0xAC, 0xED, 0xA0, 0xBD, 0xED, 0xB8, 0x80] := by
  decide

/-- The two ways of reading never contradict each other. A byte string that is UTF-8 is read alike
unit by unit if it has no sequence of four bytes, and otherwise it is not read unit by unit at all.
Hence what the reading as UTF-8 adds are byte strings with sequences of four, and a byte string that
is read in both ways is read as the same text. -/
theorem decodeUnits_agrees (stored : Bytes) :
    (∀ text, stored.text? = some text →
      (¬HasFourByteSequence stored → decodeUnits stored = some text) ∧
      (HasFourByteSequence stored → decodeUnits stored = none)) ∧
    (decode stored ≠ decodeUnits stored →
      HasFourByteSequence stored ∧ decodeUnits stored = none) ∧
    (∀ text other, stored.text? = some text → decodeUnits stored = some other →
      other = text) := by
  have hnone : HasFourByteSequence stored → decodeUnits stored = none := by
    intro hfour
    rw [Option.eq_none_iff_forall_ne_some]
    exact fun text h => not_hasFourByteSequence_of_decodeUnits h hfour
  refine ⟨fun text h => ⟨decodeUnits_of_text? h, hnone⟩, fun hne => ?_, fun text other =>
    eq_of_decodeUnits⟩
  have hfour : HasFourByteSequence stored := by
    by_contra hfour
    rw [decode] at hne
    split at hne
    · rename_i text h
      exact hne (decodeUnits_of_text? h hfour).symm
    · exact hne rfl
  exact ⟨hfour, hnone hfour⟩

/-- A letter before a supplementary character is read as UTF-8 only. -/
theorem decodeUnits_agrees_letterAndGrin :
    Bytes.text? [0x61, 0xF0, 0x9F, 0x98, 0x80] = some "a😀" ∧
      decodeUnits [0x61, 0xF0, 0x9F, 0x98, 0x80] = none ∧
      decodeUnits [0x61] = some "a" := by
  have hgrin : Bytes.text? [0x61, 0xF0, 0x9F, 0x98, 0x80] = some "a😀" :=
    Bytes.text?_eq_some_iff.2 (by decide)
  have hletter : Bytes.text? [0x61] = some "a" := Bytes.text?_eq_some_iff.2 (by decide)
  refine ⟨hgrin, ((decodeUnits_agrees _).1 _ hgrin).2 ⟨'😀', by decide, by decide⟩,
    ((decodeUnits_agrees _).1 _ hletter).1 ?_⟩
  rintro ⟨c, hlength, hwithin⟩
  have hle := hwithin.length_le
  rw [hlength] at hle
  exact absurd hle (by decide)

/-! ## The shortest groups -/

/-- Whether no group of a byte string could be shorter and no byte is zero: `C0` stands before `80`
only, with which it spells the unit zero, `C1` does not occur, and `E0` stands before `A0` and more
only. -/
def IsShortest (stored : Bytes) : Prop :=
  (∀ byte ∈ stored, byte ≠ 0 ∧ byte ≠ 0xC1) ∧
    stored.IsChain fun byte next => (byte = 0xC0 → next = 0x80) ∧ (byte = 0xE0 → 0xA0 ≤ next)

instance (stored : Bytes) : Decidable (IsShortest stored) :=
  inferInstanceAs (Decidable (_ ∧ _))

lemma isShortest_one_iff : ∀ value < 0x80, IsShortest [UInt8.ofNat value] ↔ value ≠ 0 := by
  decide +kernel

/-- A byte that continues a group is no zero and opens nothing. -/
lemma continuing_ne : ∀ low < 0x40, UInt8.ofNat (0x80 + low) ≠ 0 ∧
    UInt8.ofNat (0x80 + low) ≠ 0xC0 ∧ UInt8.ofNat (0x80 + low) ≠ 0xC1 ∧
    UInt8.ofNat (0x80 + low) ≠ 0xE0 := by
  decide +kernel

lemma isShortest_two_iff {high low : ℕ} (hhigh : high < 0x20) (hlow : low < 0x40) :
    IsShortest [UInt8.ofNat (0xC0 + high), UInt8.ofNat (0x80 + low)] ↔
      high ≠ 1 ∧ (high = 0 → low = 0) := by
  have hlead : ∀ high < 0x20, UInt8.ofNat (0xC0 + high) ≠ 0 ∧ UInt8.ofNat (0xC0 + high) ≠ 0xE0 ∧
      (UInt8.ofNat (0xC0 + high) = 0xC0 ↔ high = 0) ∧
      (UInt8.ofNat (0xC0 + high) = 0xC1 ↔ high = 1) := by
    decide +kernel
  have hleast : ∀ low < 0x40, UInt8.ofNat (0x80 + low) = 0x80 ↔ low = 0 := by
    decide +kernel
  obtain ⟨hzero, hthree, htwo, hone⟩ := hlead high hhigh
  obtain ⟨hlowZero, -, hlowOne, -⟩ := continuing_ne low hlow
  rw [← hleast low hlow, ← htwo, ne_eq, ← hone]
  generalize UInt8.ofNat (0xC0 + high) = lead at *
  generalize UInt8.ofNat (0x80 + low) = second at *
  simp [IsShortest, *]

lemma isShortest_three_iff {high middle low : ℕ} (hhigh : high < 0x10) (hmiddle : middle < 0x40)
    (hlow : low < 0x40) :
    IsShortest [UInt8.ofNat (0xE0 + high), UInt8.ofNat (0x80 + middle), UInt8.ofNat (0x80 + low)] ↔
      (high = 0 → 0x20 ≤ middle) := by
  have hlead : ∀ high < 0x10, UInt8.ofNat (0xE0 + high) ≠ 0 ∧ UInt8.ofNat (0xE0 + high) ≠ 0xC0 ∧
      UInt8.ofNat (0xE0 + high) ≠ 0xC1 ∧ (UInt8.ofNat (0xE0 + high) = 0xE0 ↔ high = 0) := by
    decide +kernel
  have hleast : ∀ middle < 0x40, 0xA0 ≤ UInt8.ofNat (0x80 + middle) ↔ 0x20 ≤ middle := by
    decide +kernel
  obtain ⟨hzero, htwo, hone, hthree⟩ := hlead high hhigh
  obtain ⟨hmiddleZero, hmiddleTwo, hmiddleOne, hmiddleThree⟩ := continuing_ne middle hmiddle
  obtain ⟨hlowZero, -, hlowOne, -⟩ := continuing_ne low hlow
  rw [← hleast middle hmiddle, ← hthree]
  generalize UInt8.ofNat (0xE0 + high) = lead at *
  generalize UInt8.ofNat (0x80 + middle) = second at *
  generalize UInt8.ofNat (0x80 + low) = third at *
  simp [IsShortest, *]

/-- The bytes that a unit is written as are a shortest group. -/
lemma isShortest_encodeUnit (unit : UInt16) : IsShortest (encodeUnit unit) := by
  have hunit : unit.toNat < 0x10000 := unit.toNat_lt
  rw [encodeUnit]
  split_ifs with hone htwo
  · exact (isShortest_one_iff _ hone.2).2 (Nat.ne_of_gt hone.1)
  · exact (isShortest_two_iff (by omega) (by omega)).2 ⟨by omega, by omega⟩
  · exact (isShortest_three_iff (by omega) (by omega) (by omega)).2 (by omega)

lemma encodeUnit_ofNat {value : ℕ} (h : value < 0x10000) :
    encodeUnit (UInt16.ofNat value) =
      if 0 < value ∧ value < 0x80 then
        [UInt8.ofNat value]
      else if value < 0x800 then
        [UInt8.ofNat (0xC0 + value / 0x40), UInt8.ofNat (0x80 + value % 0x40)]
      else
        [UInt8.ofNat (0xE0 + value / 0x1000), UInt8.ofNat (0x80 + value / 0x40 % 0x40),
          UInt8.ofNat (0x80 + value % 0x40)] := by
  rw [encodeUnit, UInt16.toNat_ofNat', Nat.mod_eq_of_lt h]

/-- A shortest group is what its unit is written as. -/
lemma Spells.eq_encodeUnit {group : Bytes} {unit : UInt16} (h : Spells group unit)
    (hshort : IsShortest group) : group = encodeUnit unit := by
  cases h with
  | one value hvalue =>
    rw [isShortest_one_iff value hvalue] at hshort
    rw [encodeUnit_ofNat (by omega), if_pos ⟨Nat.pos_of_ne_zero hshort, hvalue⟩]
  | two high low hhigh hlow =>
    obtain ⟨hone, hzero⟩ := (isShortest_two_iff hhigh hlow).1 hshort
    have hdiv : (high * 0x40 + low) / 0x40 = high := by omega
    have hmod : (high * 0x40 + low) % 0x40 = low := by omega
    rw [encodeUnit_ofNat (by omega), if_neg (by omega), if_pos (by omega), hdiv, hmod]
  | three high middle low hhigh hmiddle hlow =>
    have hlarge := (isShortest_three_iff hhigh hmiddle hlow).1 hshort
    have hdiv : ((high * 0x40 + middle) * 0x40 + low) / 0x1000 = high := by omega
    have hmid : ((high * 0x40 + middle) * 0x40 + low) / 0x40 % 0x40 = middle := by omega
    have hmod : ((high * 0x40 + middle) * 0x40 + low) % 0x40 = low := by omega
    rw [encodeUnit_ofNat (by omega), if_neg (by omega), if_neg (by omega), hdiv, hmid, hmod]

/-- The last byte of a group opens nothing. -/
lemma Spells.last_ne {group : Bytes} {unit : UInt16} (h : Spells group unit) :
    ∀ byte ∈ group.getLast?, byte ≠ 0xC0 ∧ byte ≠ 0xE0 := by
  have hsingle : ∀ value < 0x80, UInt8.ofNat value ≠ 0xC0 ∧ UInt8.ofNat value ≠ 0xE0 := by
    decide +kernel
  rintro byte hbyte
  cases h with
  | one value hvalue =>
    cases hbyte
    exact hsingle value hvalue
  | two high low hhigh hlow =>
    cases hbyte
    exact ⟨(continuing_ne low hlow).2.1, (continuing_ne low hlow).2.2.2⟩
  | three high middle low hhigh hmiddle hlow =>
    cases hbyte
    exact ⟨(continuing_ne low hlow).2.1, (continuing_ne low hlow).2.2.2⟩

/-- Whether groups are shortest is told group by group. -/
lemma Spells.isShortest_append_iff {group rest : Bytes} {unit : UInt16} (h : Spells group unit) :
    IsShortest (group ++ rest) ↔ IsShortest group ∧ IsShortest rest := by
  have hjoin : ∀ byte ∈ group.getLast?, ∀ next ∈ rest.head?,
      (byte = 0xC0 → next = 0x80) ∧ (byte = 0xE0 → 0xA0 ≤ next) := by
    intro byte hbyte next _
    obtain ⟨htwo, hthree⟩ := h.last_ne byte hbyte
    exact ⟨fun heq => absurd heq htwo, fun heq => absurd heq hthree⟩
  simp only [IsShortest, List.forall_mem_append, List.isChain_append]
  tauto

/-- Groups are shortest exactly if they are what their units are written as. -/
lemma isShortest_flatten_iff {groups : List Bytes} {found : List UInt16}
    (h : List.Forall₂ Spells groups found) :
    IsShortest groups.flatten ↔ groups = found.map encodeUnit := by
  induction h with
  | nil => simp [IsShortest]
  | @cons group unit groups found hgroup _ ih =>
    rw [List.flatten_cons, hgroup.isShortest_append_iff, ih, List.map_cons, List.cons.injEq]
    refine and_congr_left' ⟨hgroup.eq_encodeUnit, ?_⟩
    rintro rfl
    exact isShortest_encodeUnit unit

/-- The modified UTF-8 form of a text has shortest groups. -/
lemma isShortest_encode (text : String) : IsShortest (encode text) := by
  rw [encode, List.flatMap_def]
  exact (isShortest_flatten_iff (spells_map_encodeUnit _)).2 rfl

/-- What is read unit by unit has shortest groups exactly if it is the modified UTF-8 form of the
text. -/
lemma isShortest_iff_of_decodeUnits {stored : Bytes} {text : String}
    (h : decodeUnits stored = some text) : IsShortest stored ↔ stored = encode text := by
  obtain ⟨groups, hgroups, rfl⟩ := decodeUnits_eq_some_iff.1 h
  constructor
  · intro hshort
    rw [(isShortest_flatten_iff hgroups).1 hshort, encode, List.flatMap_def]
  · intro heq
    rw [heq]
    exact isShortest_encode text

/-- A byte string that is read as a text is one of its two forms if it is UTF-8 or has shortest
groups. -/
lemma eq_of_decode {stored : Bytes} {text : String} (h : decode stored = some text)
    (hform : stored.text?.isSome ∨ IsShortest stored) :
    stored = Bytes.ofText text ∨ stored = encode text := by
  rw [decode] at h
  split at h
  · rename_i other hother
    cases h
    exact Or.inl (Bytes.text?_eq_some_iff.1 hother)
  · rename_i hnone
    have hshort : IsShortest stored := by
      rw [hnone] at hform
      exact hform.resolve_left (by decide)
    exact Or.inr ((isShortest_iff_of_decodeUnits h).1 hshort)

/-- The two forms of a text are read as the text, the one is UTF-8, and the other has shortest
groups. -/
lemma decode_of_eq {stored : Bytes} {text : String}
    (h : stored = Bytes.ofText text ∨ stored = encode text) :
    decode stored = some text ∧ (stored.text?.isSome ∨ IsShortest stored) := by
  rcases h with rfl | rfl
  · simp [decode, Bytes.text?_ofText]
  · exact ⟨decode_of_decodeUnits (decodeUnits_encode text), Or.inr (isShortest_encode text)⟩

/-- The byte strings that are read as a text and are UTF-8 or have shortest groups are the two forms
of the text. Where such a byte string is stored in a constant pool, it is reported as no text
exactly if it is no form of any text. -/
theorem genuine_iff (stored : Bytes) :
    (∀ text, decode stored = some text ∧ (stored.text?.isSome ∨ IsShortest stored) ↔
      stored = Bytes.ofText text ∨ stored = encode text) ∧
    (∀ (pool : ClassFile.ConstantPool) (index : UInt16),
      pool.slots[index.toNat]? = some (.text stored) →
      (stored.text?.isSome ∨ IsShortest stored) →
      (pool.text index = .error (.invalidText index) ↔
        ∀ text, stored ≠ Bytes.ofText text ∧ stored ≠ encode text)) := by
  refine ⟨fun text => ⟨fun h => eq_of_decode h.1 h.2, decode_of_eq⟩,
    fun pool index hslot hform => ?_⟩
  have htext : pool.text index = .error (.invalidText index) ↔ decode stored = none := by
    rw [ClassFile.ConstantPool.text, hslot]
    cases hdecode : decode stored <;> simp [hdecode]
  rw [htext, Option.eq_none_iff_forall_ne_some]
  refine forall_congr' fun text => ?_
  rw [← not_or, not_iff_not]
  exact ⟨fun h => eq_of_decode h hform, fun h => (decode_of_eq h).1⟩

/-- A null character and a supplementary one in their modified form are read, and a lone `C0` in a
constant pool is the form of no text. -/
theorem genuine_iff_nullAndGrin :
    decode [0xC0, 0x80, 0xED, 0xA0, 0xBD, 0xED, 0xB8, 0x80] = some "\x00😀" ∧
      ∀ text, [0xC0] ≠ Bytes.ofText text ∧ [0xC0] ≠ encode text := by
  constructor
  · exact (((genuine_iff _).1 "\x00😀").2 (Or.inr (by decide))).1
  · have hreport : ClassFile.ConstantPool.text ⟨#[.unusable, .text [0xC0]]⟩ 1
        = .error (.invalidText 1) := by
      decide
    exact ((genuine_iff [0xC0]).2 _ 1 rfl (Or.inr (by decide +kernel))).1 hreport

/-- A group of two bytes for a letter is longer than it need be and no form of the letter, and it is
read all the same. -/
theorem decode_overlongLetter :
    ¬∀ stored text, decode stored = some text →
      stored = Bytes.ofText text ∨ stored = encode text := by
  intro h
  have hforms := h [0xC1, 0x81] "A" (by decide)
  revert hforms
  decide

end EntryPoint.ModifiedUtf8
