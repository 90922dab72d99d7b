import EntryPoint.Proofs.ClassFile.Words
import Mathlib.Data.FinEnum

/-!
# What the constant pool is read from

Reading the constant pool reads exactly the bytes of a list of constants behind a count that fits
the list (`reads_pool_iff`), and it ends with the slots of these constants.  The heart is
`reads_readSlots_iff`, which follows the number of slots that remain to be filled: a constant takes
one or two of them, and only the last constant may take one slot more than remain.
-/

namespace EntryPoint.ClassFile

/-! ## One constant -/

/-- The table of the reader and that of the grammar agree. -/
lemma opaqueBody?_eq_lookup :
    ∀ tag, opaqueBody? tag =
      (otherKinds.lookup tag).map fun length => (length, wideTags.contains tag) := by
  decide +kernel

/-- What is read of a constant: the content of its slot, and whether it takes a second one. -/
def Constant.pooled : Constant → PooledConstant
  | .text stored => ⟨.text stored, false⟩
  | .classRef name => ⟨.classRef name, false⟩
  | .other tag body => ⟨.other, (Constant.other tag body).isWide⟩

lemma Constant.wide_pooled (constant : Constant) : constant.pooled.wide = constant.isWide := by
  cases constant <;> rfl

/-- A text is read from its length and its stored form. -/
lemma reads_text_iff {bytes : Bytes} {found : PooledConstant} :
    (do
      let length ← Reading.word
      let stored ← Reading.bytes length.toNat
      return ⟨.text stored, false⟩ : Reading PooledConstant).Reads bytes found ↔
      ∃ stored : Bytes, stored.length < 65536 ∧ bytes = countBytes stored.length ++ stored ∧
        found = ⟨.text stored, false⟩ := by
  simp only [Reading.reads_word_bind, Reading.reads_bytes_bind, Reading.reads_pure]
  constructor
  · rintro ⟨length, _, rfl, stored, _, rfl, hlength, rfl, rfl⟩
    refine ⟨stored, ?_, ?_, rfl⟩
    · rw [hlength]
      exact length.toNat_lt
    · rw [hlength, countBytes_toNat, List.append_nil]
  · rintro ⟨stored, hlength, rfl, rfl⟩
    refine ⟨UInt16.ofNat stored.length, stored, rfl, stored, [], by simp, ?_, rfl, rfl⟩
    rw [UInt16.toNat_ofNat', Nat.mod_eq_of_lt hlength]

/-- A class reference is read from the index of its name. -/
lemma reads_classRef_iff {bytes : Bytes} {found : PooledConstant} :
    (do
      let name ← Reading.word
      return ⟨.classRef name, false⟩ : Reading PooledConstant).Reads bytes found ↔
      ∃ name, bytes = wordBytes name ∧ found = ⟨.classRef name, false⟩ := by
  simp only [Reading.reads_word_bind, Reading.reads_pure]
  constructor
  · rintro ⟨name, _, rfl, rfl, rfl⟩
    exact ⟨name, by simp, rfl⟩
  · rintro ⟨name, rfl, rfl⟩
    exact ⟨name, [], by simp, rfl, rfl⟩

/-- One constant is read from the bytes that it is written as. -/
lemma reads_readConstant_iff {index : ℕ} {bytes : Bytes} {found : PooledConstant} :
    (readConstant index).Reads bytes found ↔
      ∃ constant : Constant, constant.WellFormed ∧ bytes = constant.encode ∧
        found = constant.pooled := by
  unfold readConstant
  simp only [Reading.reads_byte_bind]
  constructor
  · rintro ⟨tag, rest, rfl, h⟩
    split at h
    · rename_i htag
      obtain ⟨stored, hlength, rfl, rfl⟩ := reads_text_iff.1 h
      exact ⟨.text stored, hlength, by rw [htag]; rfl, rfl⟩
    · split at h
      · rename_i htag
        obtain ⟨name, rfl, rfl⟩ := reads_classRef_iff.1 h
        exact ⟨.classRef name, trivial, by rw [htag]; rfl, rfl⟩
      · rw [opaqueBody?_eq_lookup] at h
        cases hkind : otherKinds.lookup tag with
        | none =>
          rw [hkind] at h
          exact h.elim
        | some length =>
          rw [hkind] at h
          obtain ⟨body, _, rfl, rfl, rfl, rfl⟩ := h
          exact ⟨.other tag body, hkind, by simp [Constant.encode], rfl⟩
  · rintro ⟨constant, hformed, rfl, rfl⟩
    cases constant with
    | text stored =>
      exact ⟨1, countBytes stored.length ++ stored, rfl,
        reads_text_iff.2 ⟨stored, hformed, rfl, rfl⟩⟩
    | classRef name => exact ⟨7, wordBytes name, rfl, reads_classRef_iff.2 ⟨name, rfl, rfl⟩⟩
    | other tag body =>
      have hkind : otherKinds.lookup tag = some body.length := hformed
      have hkept : tag ≠ 1 ∧ tag ≠ 7 := by
        constructor <;> rintro rfl <;> cases hkind
      refine ⟨tag, body, rfl, ?_⟩
      rw [if_neg hkept.1, if_neg hkept.2, opaqueBody?_eq_lookup, hkind]
      exact ⟨body, [], by simp, rfl, rfl, rfl⟩

/-! ## All slots -/

/-- A list of constants fills a number of slots: it takes that many, or one more where the last
constant takes two. -/
def Fills (constants : List Constant) (slots : ℕ) : Prop :=
  (constants.flatMap Constant.slots).length = slots ∨
    constants.getLast?.any Constant.isWide = true ∧
      (constants.flatMap Constant.slots).length = slots + 1

/-- A constant takes one slot, or two if it is wide. -/
lemma Constant.length_slots (constant : Constant) :
    constant.slots.length = if constant.isWide then 2 else 1 := by
  cases constant with
  | text stored => rfl
  | classRef name => rfl
  | other tag body =>
    rw [Constant.slots]
    split <;> rfl

/-- A constant leaves fewer slots to be filled. -/
lemma Constant.slots_left_lt (constant : Constant) (slots : ℕ) :
    slots + 1 - constant.slots.length < slots + 1 := by
  rw [constant.length_slots]
  split <;> omega

@[simp] lemma fills_nil {slots : ℕ} : Fills [] slots ↔ slots = 0 := by
  simp [Fills, eq_comm]

/-- A list that ends with a wide constant takes at least two slots. -/
lemma two_le_length_slots {constants : List Constant}
    (h : constants.getLast?.any Constant.isWide = true) :
    2 ≤ (constants.flatMap Constant.slots).length := by
  cases hlast : constants.getLast? with
  | none =>
    rw [hlast] at h
    cases h
  | some last =>
    rw [hlast] at h
    obtain ⟨earlier, rfl⟩ := List.getLast?_eq_some_iff.1 hlast
    have hwide : last.isWide = true := h
    rw [List.flatMap_append, List.length_append, List.flatMap_singleton, Constant.length_slots,
      if_pos hwide]
    omega

lemma one_le_length_slots (constant : Constant) (constants : List Constant) :
    1 ≤ ((constant :: constants).flatMap Constant.slots).length := by
  rw [List.flatMap_cons, List.length_append, Constant.length_slots]
  split <;> omega

/-- No slots are filled by no constants only. -/
lemma fills_zero_iff {constants : List Constant} : Fills constants 0 ↔ constants = [] := by
  constructor
  · intro h
    cases constants with
    | nil => rfl
    | cons constant constants =>
      have hpos := one_le_length_slots constant constants
      rcases h with hlength | ⟨hwide, hlength⟩
      · omega
      · have := two_le_length_slots hwide
        omega
  · rintro rfl
    exact fills_nil.2 rfl

/-- A constant and those behind it fill some slots if the others fill what the constant leaves. -/
lemma fills_cons_iff {constant : Constant} {constants : List Constant} {slots : ℕ} :
    Fills (constant :: constants) (slots + 1) ↔
      Fills constants (slots + 1 - constant.slots.length) := by
  have htaken := constant.length_slots
  cases constants with
  | nil =>
    rw [fills_nil]
    cases hwide : constant.isWide <;> simp [Fills, hwide, htaken]
    omega
  | cons next constants =>
    have hpos := one_le_length_slots next constants
    have hlast : (next :: constants).getLast?.any Constant.isWide = true →
        2 ≤ ((next :: constants).flatMap Constant.slots).length := two_le_length_slots
    unfold Fills
    rw [List.getLast?_cons_cons, List.flatMap_cons, List.length_append]
    -- only the last constant can overlap: one that others follow takes no more than is left
    cases hwide : constant.isWide <;> rw [hwide] at htaken <;> simp only [htaken] <;> grind

/-- What is left to be filled behind a constant that has been read. -/
lemma readSlots_pooled {remaining index : ℕ} {slots : Array Slot} (constant : Constant) :
    (if constant.pooled.wide then
      ConstantPool.readSlots (remaining - 1) (index + 2)
        ((slots.push constant.pooled.slot).push .unusable)
    else
      ConstantPool.readSlots remaining (index + 1) (slots.push constant.pooled.slot)) =
      ConstantPool.readSlots (remaining + 1 - constant.slots.length)
        (index + constant.slots.length) (slots ++ constant.slots) := by
  rw [constant.wide_pooled, constant.length_slots]
  cases constant with
  | text stored => simp [Constant.isWide, Constant.pooled, Constant.slots]
  | classRef name => simp [Constant.isWide, Constant.pooled, Constant.slots]
  | other tag body =>
    cases hwide : (Constant.other tag body).isWide <;>
      simp [Constant.pooled, Constant.slots, hwide]

/-- To fill slots is to read a constant and to go on with what is left. -/
lemma readSlots_succ (remaining index : ℕ) (slots : Array Slot) :
    ConstantPool.readSlots (remaining + 1) index slots = (do
      let found ← readConstant index
      if found.wide then
        ConstantPool.readSlots (remaining - 1) (index + 2) ((slots.push found.slot).push .unusable)
      else
        ConstantPool.readSlots remaining (index + 1) (slots.push found.slot)) := by
  cases remaining <;> rfl

/-- To fill slots is to read a constant and to fill those that it leaves. -/
lemma reads_readSlots_succ {remaining index : ℕ} {slots out : Array Slot} {bytes : Bytes} :
    (ConstantPool.readSlots (remaining + 1) index slots).Reads bytes out ↔
      ∃ (constant : Constant) (rest : Bytes), constant.WellFormed ∧
        bytes = constant.encode ++ rest ∧
          (ConstantPool.readSlots (remaining + 1 - constant.slots.length)
            (index + constant.slots.length) (slots ++ constant.slots)).Reads rest out := by
  rw [readSlots_succ, Reading.reads_bind]
  simp only [reads_readConstant_iff]
  constructor
  · rintro ⟨_, rest, _, rfl, ⟨constant, hformed, rfl, rfl⟩, h⟩
    exact ⟨constant, rest, hformed, rfl, readSlots_pooled constant ▸ h⟩
  · rintro ⟨constant, rest, hformed, rfl, h⟩
    exact ⟨_, rest, _, rfl, ⟨constant, hformed, rfl, rfl⟩, (readSlots_pooled constant).symm ▸ h⟩

/-- Slots are filled from the bytes of constants that fill them. -/
lemma reads_readSlots_iff {remaining index : ℕ} {slots out : Array Slot} {bytes : Bytes} :
    (ConstantPool.readSlots remaining index slots).Reads bytes out ↔
      ∃ constants : List Constant, (∀ constant ∈ constants, constant.WellFormed) ∧
        Fills constants remaining ∧ bytes = constants.flatMap Constant.encode ∧
          out = slots ++ constants.flatMap Constant.slots := by
  induction remaining using Nat.strongRecOn generalizing index slots bytes with
  | ind remaining ih =>
  cases remaining with
  | zero =>
    constructor
    · rintro ⟨rfl, rfl⟩
      exact ⟨[], by simp, by simp, rfl, by simp⟩
    · rintro ⟨constants, -, hfills, rfl, rfl⟩
      obtain rfl := fills_zero_iff.1 hfills
      exact ⟨rfl, by simp⟩
  | succ remaining =>
    have hpush : ∀ (constant : Constant) (constants : List Constant),
        slots ++ (constant :: constants).flatMap Constant.slots
          = slots ++ constant.slots ++ constants.flatMap Constant.slots := by
      intro constant constants
      rw [List.flatMap_cons, collect_append]
    rw [reads_readSlots_succ]
    constructor
    · rintro ⟨constant, _, hformed, rfl, h⟩
      obtain ⟨constants, hconstants, hfills, rfl, rfl⟩ :=
        (ih _ (constant.slots_left_lt remaining)).1 h
      exact ⟨constant :: constants, by simpa using ⟨hformed, hconstants⟩, fills_cons_iff.2 hfills,
        rfl, (hpush constant constants).symm⟩
    · rintro ⟨constants, hconstants, hfills, rfl, rfl⟩
      cases constants with
      | nil => simp at hfills
      | cons constant constants =>
        rw [List.forall_mem_cons] at hconstants
        exact ⟨constant, _, hconstants.1, rfl, (ih _ (constant.slots_left_lt remaining)).2
          ⟨constants, hconstants.2, fills_cons_iff.1 hfills, rfl, hpush constant constants⟩⟩

/-- The pool is read from a count and constants that fill one slot less than it says. -/
theorem reads_pool_iff {bytes : Bytes} {pool : ConstantPool} :
    ConstantPool.read.Reads bytes pool ↔
      ∃ (count : UInt16) (constants : List Constant),
        (∀ constant ∈ constants, constant.WellFormed) ∧ Fills constants (count.toNat - 1) ∧
          bytes = wordBytes count ++ constants.flatMap Constant.encode ∧
            pool = .ofConstants constants := by
  unfold ConstantPool.read
  simp only [Reading.reads_word_bind]
  constructor
  · rintro ⟨count, _, rfl, h⟩
    obtain ⟨first, second, slots, rfl, hslots, rfl, rfl⟩ := Reading.reads_bind.1 h
    obtain ⟨constants, hformed, hfills, rfl, rfl⟩ := reads_readSlots_iff.1 hslots
    refine ⟨count, constants, hformed, hfills, by simp, ?_⟩
    simp [ConstantPool.ofConstants, slotsOf]
  · rintro ⟨count, constants, hformed, hfills, rfl, rfl⟩
    refine ⟨count, _, rfl, Reading.reads_bind.2 ⟨_, [], _, by simp, reads_readSlots_iff.2
      ⟨constants, hformed, hfills, rfl, rfl⟩, rfl, ?_⟩⟩
    simp [ConstantPool.ofConstants, slotsOf]

/-- A count says how many slots the constants take, the slot zero included, exactly if they fill one
slot less.  A count of zero, which no constants fit, is read like a count of one. -/
lemma declaredCount_iff_fills {constants : List Constant} {count : UInt16} (h : constants ≠ []) :
    DeclaredCount constants count ↔ Fills constants (count.toNat - 1) := by
  obtain ⟨constant, constants, rfl⟩ := List.exists_cons_of_ne_nil h
  have hpos := one_le_length_slots constant constants
  have hlength : (slotsOf (constant :: constants)).length
      = ((constant :: constants).flatMap Constant.slots).length + 1 := by
    rw [slotsOf, List.length_cons]
  unfold DeclaredCount Fills
  rw [hlength]
  constructor
  · rintro (hcount | ⟨hwide, hcount⟩)
    · left
      omega
    · have := two_le_length_slots hwide
      right
      exact ⟨hwide, by omega⟩
  · rintro (hfilled | ⟨hwide, hfilled⟩)
    · left
      omega
    · have := two_le_length_slots hwide
      right
      exact ⟨hwide, by omega⟩

end EntryPoint.ClassFile
