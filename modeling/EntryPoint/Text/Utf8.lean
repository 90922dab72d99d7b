import EntryPoint.Bytes

/-!
# Reading damaged UTF-8

A byte string that is meant as UTF-8 is read as far as it goes: each longest piece that starts a
character without completing one is replaced by one replacement character.
-/

namespace EntryPoint.Utf8

/-- The character that stands for bytes that spell none. -/
def replacement : Char := '\uFFFD'

/-- For the first byte of a longer character: how many bytes follow, the bits that the first byte
carries, and the range in which the second byte lies. -/
def lead? (byte : UInt8) : Option (Nat × Nat × UInt8 × UInt8) :=
  if 0xC2 ≤ byte && byte ≤ 0xDF then some (1, byte.toNat - 0xC0, 0x80, 0xBF)
  else if byte = 0xE0 then some (2, 0, 0xA0, 0xBF)
  else if byte = 0xED then some (2, 0xD, 0x80, 0x9F)
  else if 0xE1 ≤ byte && byte ≤ 0xEF then some (2, byte.toNat - 0xE0, 0x80, 0xBF)
  else if byte = 0xF0 then some (3, 0, 0x90, 0xBF)
  else if 0xF1 ≤ byte && byte ≤ 0xF3 then some (3, byte.toNat - 0xF0, 0x80, 0xBF)
  else if byte = 0xF4 then some (3, 4, 0x80, 0x8F)
  else none

/-- Where a reading stands: between characters, or inside one that still needs `missing` bytes, the
next of them in a given range, and whose bits so far are `value`. -/
inductive Stage where
  | between
  | inside (missing value : Nat) (low high : UInt8)

/-- Reads a byte between two characters, after the characters already found (the latest first). -/
def startByte (found : List Char) (byte : UInt8) : List Char × Stage :=
  if byte < 0x80 then
    (Char.ofNat byte.toNat :: found, .between)
  else
    match lead? byte with
    | some (missing, value, low, high) => (found, .inside missing value low high)
    | none => (replacement :: found, .between)

/-- Reads one more byte. -/
def step (state : List Char × Stage) (byte : UInt8) : List Char × Stage :=
  match state with
  | (found, .between) => startByte found byte
  | (found, .inside missing value low high) =>
    if low ≤ byte && byte ≤ high then
      let value := value * 0x40 + (byte.toNat - 0x80)
      if missing ≤ 1 then (Char.ofNat value :: found, .between)
      else (found, .inside (missing - 1) value 0x80 0xBF)
    else
      startByte (replacement :: found) byte

/-- The text of a byte string, with replacement characters for what is no UTF-8. -/
def decodeLossy (bytes : Bytes) : String :=
  match bytes.foldl step ([], .between) with
  | (found, .between) => String.ofList found.reverse
  | (found, .inside ..) => String.ofList (replacement :: found).reverse

end EntryPoint.Utf8
