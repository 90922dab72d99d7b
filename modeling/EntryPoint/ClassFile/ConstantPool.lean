import EntryPoint.ClassFile.Reading
import EntryPoint.Text.ModifiedUtf8

/-!
# The constant pool

Constants occupy slots that are numbered from one. Most take one slot; a `long` and a `double` take
two, and the second holds nothing. Of all kinds only texts and class references are kept, since a
summary refers to no other. A two-slot constant in the last slot is accepted: its second half lies
beyond the declared count.
-/

namespace EntryPoint.ClassFile

/-- What a slot of the pool holds, as far as a summary needs it. -/
inductive Slot where
  /-- Nothing that can be referred to: slot zero, or the second half of a two-slot constant. -/
  | unusable
  /-- A text, still in its stored form. -/
  | text (stored : Bytes)
  /-- A class, named by the text in another slot. -/
  | classRef (name : UInt16)
  /-- A constant of another kind. -/
  | other
  deriving DecidableEq

/-- A constant as it is read: the content of its slot and whether it takes a second one. -/
structure PooledConstant where
  slot : Slot
  wide : Bool

/-- The slots of a class file, the unusable slot zero included. -/
structure ConstantPool where
  slots : Array Slot

/-- How many bytes follow the tag of a constant of a kind that is not kept, and whether the constant
takes two slots. -/
def opaqueBody? (tag : UInt8) : Option (Nat × Bool) :=
  match tag.toNat with
  | 3 | 4 => some (4, false)
  | 5 | 6 => some (8, true)
  | 8 | 16 | 19 | 20 => some (2, false)
  | 9 | 10 | 11 | 12 | 17 | 18 => some (4, false)
  | 15 => some (3, false)
  | _ => none

/-- Reads the constant that starts in the slot of a given index. -/
def readConstant (index : Nat) : Reading PooledConstant := do
  let tag ← Reading.byte
  if tag = 1 then
    let length ← Reading.word
    let stored ← Reading.bytes length.toNat
    return ⟨.text stored, false⟩
  else if tag = 7 then
    let name ← Reading.word
    return ⟨.classRef name, false⟩
  else
    match opaqueBody? tag with
    | some (length, wide) =>
      Reading.pass length
      return ⟨.other, wide⟩
    | none => Reading.fail (.badConstantTag tag index)

namespace ConstantPool

/-- Reads constants until the given number of slots is filled; `index` is the next slot's number. -/
def readSlots : (remaining : Nat) → (index : Nat) → Array Slot → Reading (Array Slot)
  | 0, _, slots => pure slots
  | 1, index, slots => do
    let constant ← readConstant index
    if constant.wide then
      return (slots.push constant.slot).push .unusable
    else
      return slots.push constant.slot
  | remaining + 2, index, slots => do
    let constant ← readConstant index
    if constant.wide then
      readSlots remaining (index + 2) ((slots.push constant.slot).push .unusable)
    else
      readSlots (remaining + 1) (index + 1) (slots.push constant.slot)

/-- Reads the declared count, which is one more than the number of slots, and the constants. -/
def read : Reading ConstantPool := do
  let count ← Reading.word
  let slots ← readSlots (count.toNat - 1) 1 #[.unusable]
  return ⟨slots⟩

/-- The text in a slot. -/
def text (pool : ConstantPool) (index : UInt16) : Except Fault String :=
  match pool.slots[index.toNat]? with
  | some (.text stored) =>
    match ModifiedUtf8.decode stored with
    | some text => .ok text
    | none => .error (.invalidText index)
  | _ => .error (.badConstantIndex index .utf8)

/-- The name of the class in a slot, with slashes between its components. -/
def className (pool : ConstantPool) (index : UInt16) : Except Fault String :=
  match pool.slots[index.toNat]? with
  | some (.classRef name) => pool.text name
  | _ => .error (.badConstantIndex index .classRef)

end ConstantPool

end EntryPoint.ClassFile
