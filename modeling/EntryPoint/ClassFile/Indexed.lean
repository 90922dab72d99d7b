import EntryPoint.ClassFile.Summary

/-!
# Reading by position

Plans of reads leave open how bytes are fetched. Here a class file is read as a machine does it, at
positions in a buffer and with counters of sixteen bits, and whatever a machine may refuse is spelt
out: a slice or an element outside its buffer, a difference below zero, a counter that overflows, a
position behind the end, a recursion or a loop that goes on for too long. Each of them is a `Crash`,
which is something else than a fault of the class file.
-/

namespace EntryPoint.ClassFile.Indexed

/-! ## Operations that may be refused -/

/-- What a machine does not survive. -/
inductive Crash where
  | sliceOutOfRange
  | elementOutOfRange
  | negativeDifference
  | counterOverflow
  | positionOutOfRange
  /-- A function calls itself more often than there are frames for. -/
  | framesExhausted
  /-- A loop takes more turns than it is allowed. -/
  | turnsExhausted
  deriving DecidableEq

/-- How a computation ends. -/
inductive Outcome (α : Type) where
  | value (value : α)
  | fault (fault : Fault)
  | crash (crash : Crash)

variable {α β : Type}

namespace Outcome

/-- Goes on with the value of a first computation. -/
def bind (first : Outcome α) (next : α → Outcome β) : Outcome β :=
  match first with
  | .value found => next found
  | .fault reason => .fault reason
  | .crash reason => .crash reason

instance : Monad Outcome where
  pure := .value
  bind := .bind

/-- The outcome of a computation that cannot crash. -/
def ofExcept : Except Fault α → Outcome α
  | .ok found => .value found
  | .error reason => .fault reason

/-- The bytes from a position on. -/
def sliceFrom (bytes : Bytes) (start : Nat) : Outcome Bytes :=
  if start ≤ bytes.length then .value (bytes.drop start) else .crash .sliceOutOfRange

/-- The bytes up to a position. -/
def sliceTo (bytes : Bytes) (stop : Nat) : Outcome Bytes :=
  if stop ≤ bytes.length then .value (bytes.take stop) else .crash .sliceOutOfRange

/-- The byte at a position. -/
def element (bytes : Bytes) (i : Nat) : Outcome UInt8 :=
  match bytes[i]? with
  | some byte => .value byte
  | none => .crash .elementOutOfRange

/-- The difference of two sizes. -/
def difference (size other : Nat) : Outcome Nat :=
  if other ≤ size then .value (size - other) else .crash .negativeDifference

/-- The position some bytes further in a buffer. -/
def advance (buffer : Bytes) (position n : Nat) : Outcome Nat :=
  if position + n ≤ buffer.length then .value (position + n) else .crash .positionOutOfRange

/-- The next number of a counter of sixteen bits. -/
def increment (counter : UInt16) : Outcome UInt16 :=
  if counter.toNat + 1 < 0x10000 then .value (counter + 1) else .crash .counterOverflow

end Outcome

/-- The sum of two numbers of sixteen bits, or the greatest such number. -/
def saturatingAdd (counter amount : UInt16) : UInt16 :=
  if counter.toNat + amount.toNat < 0x10000 then counter + amount else 0xFFFF

/-- A computation that reads a buffer from a position on and moves the position. -/
def Reader (α : Type) : Type :=
  (buffer : Bytes) → (position : Nat) → Outcome (α × Nat)

namespace Reader

/-- Ends with a value. -/
def done (value : α) : Reader α :=
  fun _ position => .value (value, position)

/-- Goes on from where a first reader has come. -/
def bind (first : Reader α) (next : α → Reader β) : Reader β :=
  fun buffer position =>
    (first buffer position).bind fun (value, position) => next value buffer position

instance : Monad Reader where
  pure := .done
  bind := .bind

/-- A computation that reads nothing. -/
def lift (outcome : Outcome α) : Reader α :=
  fun _ position => outcome.bind fun value => .value (value, position)

/-- Ends with a fault. -/
def fail (fault : Fault) : Reader α :=
  lift (.fault fault)

/-- The next `n` bytes. -/
def take (n : Nat) : Reader Bytes := fun buffer position => do
  let rest ← Outcome.sliceFrom buffer position
  if rest.length < n then
    let missing ← Outcome.difference n rest.length
    Outcome.fault (.truncated position missing)
  else
    let next ← Outcome.advance buffer position n
    let taken ← Outcome.sliceTo rest n
    return (taken, next)

/-- Steps over `n` bytes. -/
def pass (n : Nat) : Reader Unit := do
  let _ ← take n
  return ()

/-- One byte. -/
def byte : Reader UInt8 := do
  let bytes ← take 1
  lift (Outcome.element bytes 0)

/-- A big-endian word of two bytes. -/
def word : Reader UInt16 := do
  let bytes ← take 2
  let high ← lift (Outcome.element bytes 0)
  let low ← lift (Outcome.element bytes 1)
  return word16 [high, low]

/-- A big-endian word of four bytes. -/
def doubleWord : Reader UInt32 := do
  let bytes ← take 4
  let first ← lift (Outcome.element bytes 0)
  let second ← lift (Outcome.element bytes 1)
  let third ← lift (Outcome.element bytes 2)
  let fourth ← lift (Outcome.element bytes 3)
  return word32 [first, second, third, fourth]

/-- Reads a buffer of its own from the start. -/
def inside (buffer : Bytes) (reader : Reader α) : Reader α :=
  fun _ position => (reader buffer 0).bind fun (value, _) => .value (value, position)

/-- Repeats a reader that passes a value on. -/
def iterate (step : α → Reader α) : (times : Nat) → α → Reader α
  | 0, value => done value
  | times + 1, value => (step value).bind (iterate step times)

/-- Repeats a reader for its effect alone. -/
def replicate (times : Nat) (step : Reader Unit) : Reader Unit :=
  iterate (fun _ => step) times ()

end Reader

/-! ## Texts -/

/-- The six bits that a continuation byte at a position carries. -/
def continuationAt? (bytes : Bytes) (i : Nat) : Option UInt16 :=
  bytes[i]?.bind ModifiedUtf8.continuation?

/-- Reads groups of one, two or three bytes from a position on, in a number of turns. -/
def unitsFrom (bytes : Bytes) :
    (turns i : Nat) → (found : List UInt16) → Outcome (Option (List UInt16))
  | 0, i, found =>
    if i < bytes.length then .crash .turnsExhausted else .value (some found.reverse)
  | turns + 1, i, found =>
    if i < bytes.length then do
      let lead ← Outcome.element bytes i
      if lead &&& 0x80 = 0 then
        unitsFrom bytes turns (i + 1) (lead.toUInt16 :: found)
      else if lead &&& 0xE0 = 0xC0 then
        match continuationAt? bytes (i + 1) with
        | some low =>
          unitsFrom bytes turns (i + 2) (((lead &&& 0x1F).toUInt16 <<< 6 ||| low) :: found)
        | none => return none
      else if lead &&& 0xF0 = 0xE0 then
        match continuationAt? bytes (i + 1), continuationAt? bytes (i + 2) with
        | some middle, some low =>
          unitsFrom bytes turns (i + 3)
            (((lead &&& 0x0F).toUInt16 <<< 12 ||| middle <<< 6 ||| low) :: found)
        | _, _ => return none
      else
        return none
    else
      return some found.reverse

/-- The text of a stored byte string. -/
def decode (stored : Bytes) : Outcome (Option String) :=
  match stored.text? with
  | some text => .value (some text)
  | none => do
    let units ← unitsFrom stored stored.length 0 []
    return units.bind fun units => (Utf16.decode units).map String.ofList

/-! ## The constant pool -/

/-- Reads the constant that starts in the slot of a given index. -/
def readConstant (index : UInt16) : Reader PooledConstant := do
  let tag ← Reader.byte
  if tag = 1 then
    let length ← Reader.word
    let stored ← Reader.take length.toNat
    return ⟨.text stored, false⟩
  else if tag = 7 then
    let name ← Reader.word
    return ⟨.classRef name, false⟩
  else
    match opaqueBody? tag with
    | some (length, wide) =>
      Reader.pass length
      return ⟨.other, wide⟩
    | none => Reader.fail (.badConstantTag tag index.toNat)

/-- Reads constants while the index of the next slot is below the declared count, in a number of
turns. -/
def readSlots (count : UInt16) :
    (turns : Nat) → (index : UInt16) → Array Slot → Reader (Array Slot)
  | 0, index, slots =>
    if index < count then Reader.lift (.crash .turnsExhausted) else return slots
  | turns + 1, index, slots =>
    if index < count then do
      let constant ← readConstant index
      if constant.wide then
        readSlots count turns (saturatingAdd index 2) ((slots.push constant.slot).push .unusable)
      else
        let next ← Reader.lift (Outcome.increment index)
        readSlots count turns next (slots.push constant.slot)
    else
      return slots

/-- Reads the declared count and the constants. No count takes more turns than there are numbers of
sixteen bits. -/
def readPool : Reader ConstantPool := do
  let count ← Reader.word
  let slots ← readSlots count 0xFFFF 1 #[.unusable]
  return ⟨slots⟩

/-- The slot of an index, which is compared with the size of the pool first. -/
def slot? (pool : ConstantPool) (index : UInt16) : Outcome (Option Slot) :=
  if index.toNat < pool.slots.size then
    match pool.slots[index.toNat]? with
    | some slot => .value (some slot)
    | none => .crash .elementOutOfRange
  else
    .value none

/-- The text in a slot. -/
def text (pool : ConstantPool) (index : UInt16) : Outcome String := do
  match ← slot? pool index with
  | some (.text stored) =>
    match ← decode stored with
    | some text => return text
    | none => Outcome.fault (.invalidText index)
  | _ => Outcome.fault (.badConstantIndex index .utf8)

/-- The name of the class in a slot. -/
def className (pool : ConstantPool) (index : UInt16) : Outcome String := do
  match ← slot? pool index with
  | some (.classRef name) => text pool name
  | _ => Outcome.fault (.badConstantIndex index .classRef)

/-! ## Annotations -/

/-- How many frames stepping over an element value may take. -/
def maxFrames : Nat := 65

/-- Steps over a counted list of pairs of an element's name and its value. -/
def passPairs (passValue : Reader Unit) : Reader Unit := do
  let count ← Reader.word
  Reader.replicate count.toNat do
    Reader.pass 2
    passValue

/-- Steps over one element value at a depth, with a number of frames left. -/
def passValue : (frames depth : Nat) → Reader Unit
  | 0, _ => Reader.lift (.crash .framesExhausted)
  | frames + 1, depth =>
    if maxLevels ≤ depth then
      Reader.fail (.nestingTooDeep maxLevels)
    else do
      let tag ← Reader.byte
      match ElementShape.ofTag? tag with
      | some .single => Reader.pass 2
      | some .double => Reader.pass 4
      | some .nested =>
        Reader.pass 2
        passPairs (passValue frames (depth + 1))
      | some .array =>
        let count ← Reader.word
        Reader.replicate count.toNat (passValue frames (depth + 1))
      | none => Reader.fail (.badElementTag tag)

/-- Reads a table of annotations and adds the descriptors of their types. -/
def readAnnotationTable (pool : ConstantPool) (found : Array String) : Reader (Array String) := do
  let count ← Reader.word
  Reader.iterate
    (fun found => do
      let type ← Reader.word
      let descriptor ← Reader.lift (text pool type)
      passPairs (passValue maxFrames 0)
      return found.push descriptor)
    count.toNat found

/-! ## The class file -/

/-- Steps over one attribute of a field or method. -/
def passAttribute : Reader Unit := do
  Reader.pass 2
  let length ← Reader.doubleWord
  Reader.pass length.toNat

/-- Steps over a counted list of fields or methods. -/
def passMembers : Reader Unit := do
  let count ← Reader.word
  Reader.replicate count.toNat do
    Reader.pass 6
    let attributes ← Reader.word
    Reader.replicate attributes.toNat passAttribute

/-- Reads one attribute of the class. -/
def readAttribute (pool : ConstantPool) (found : TypeAnnotations) : Reader TypeAnnotations := do
  let name ← Reader.word
  let length ← Reader.doubleWord
  let body ← Reader.take length.toNat
  Reader.inside body do
    let name ← Reader.lift (text pool name)
    if name = visibleTableName then
      let visible ← readAnnotationTable pool found.visible
      return { found with visible }
    else if name = invisibleTableName then
      let invisible ← readAnnotationTable pool found.invisible
      return { found with invisible }
    else
      return found

/-- Reads the attributes of the class and collects the annotations of the type. -/
def readTypeAnnotations (pool : ConstantPool) : Reader (List String) := do
  let attributes ← Reader.word
  let found ← Reader.iterate (readAttribute pool) attributes.toNat ⟨#[], #[]⟩
  return (found.visible ++ found.invisible).toList

/-- Steps over the table of interfaces. -/
def passInterfaces : Reader Unit := do
  let interfaces ← Reader.word
  Reader.pass (interfaces.toNat * 2)

/-- Reads all that follows the constants. -/
def readDeclaration (pool : ConstantPool) : Reader Declaration := do
  Reader.pass 2
  let thisClass ← Reader.word
  let slashedName ← Reader.lift (className pool thisClass)
  Reader.pass 2
  passInterfaces
  passMembers
  passMembers
  let annotations ← readTypeAnnotations pool
  return { slashedName, annotations }

/-- Reads a class file. -/
def readSummary : Reader Summary := do
  let found ← Reader.doubleWord
  if found ≠ magic then
    Reader.fail (.badMagic found)
  else
    let minorVersion ← Reader.word
    let majorVersion ← Reader.word
    if majorVersion < minMajorVersion ∨ maxMajorVersion < majorVersion then
      Reader.fail (.unsupportedVersion majorVersion minorVersion)
    else
      let pool ← readPool
      let declared ← readDeclaration pool
      return {
        className := dotted declared.slashedName
        majorVersion
        minorVersion
        annotations := declared.annotations }

/-- The summary of a class file given by its bytes. -/
def parse (bytes : Bytes) : Outcome Summary :=
  (readSummary bytes 0).bind fun (summary, _) => .value summary

end EntryPoint.ClassFile.Indexed
