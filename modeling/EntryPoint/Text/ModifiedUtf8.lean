import EntryPoint.Bytes
import EntryPoint.Text.Utf16

/-!
# Modified UTF-8

Class files store texts unit by unit: each 16-bit unit takes one to three bytes, so that a
supplementary character takes six, and the unit zero takes the two bytes `C0 80`, so that no stored
text holds a zero byte. A text is also accepted in standard UTF-8; the two forms differ only where
the text holds the null character or a supplementary character.
-/

namespace EntryPoint.ModifiedUtf8

/-- The bytes of one unit; the unit zero takes two. -/
def encodeUnit (unit : UInt16) : Bytes :=
  let value := unit.toNat
  if 0 < value ∧ value < 0x80 then
    [UInt8.ofNat value]
  else if value < 0x800 then
    [UInt8.ofNat (0xC0 + value / 0x40), UInt8.ofNat (0x80 + value % 0x40)]
  else
    [UInt8.ofNat (0xE0 + value / 0x1000), UInt8.ofNat (0x80 + value / 0x40 % 0x40),
      UInt8.ofNat (0x80 + value % 0x40)]

/-- The modified UTF-8 form of a text. -/
def encode (text : String) : Bytes :=
  (Utf16.encode text.toList).flatMap encodeUnit

/-- The six bits that a continuation byte carries. -/
def continuation? (byte : UInt8) : Option UInt16 :=
  if byte &&& 0xC0 = 0x80 then some (byte &&& 0x3F).toUInt16 else none

/-- Reads groups of one, two or three bytes after the units already found, the latest of which comes
first. -/
def unitsOnto (found : List UInt16) : Bytes → Option (List UInt16)
  | [] => some found.reverse
  | lead :: rest =>
    if lead &&& 0x80 = 0 then
      unitsOnto (lead.toUInt16 :: found) rest
    else if lead &&& 0xE0 = 0xC0 then
      match rest with
      | second :: rest =>
        match continuation? second with
        | some low => unitsOnto (((lead &&& 0x1F).toUInt16 <<< 6 ||| low) :: found) rest
        | none => none
      | [] => none
    else if lead &&& 0xF0 = 0xE0 then
      match rest with
      | second :: third :: rest =>
        match continuation? second, continuation? third with
        | some middle, some low =>
          unitsOnto (((lead &&& 0x0F).toUInt16 <<< 12 ||| middle <<< 6 ||| low) :: found) rest
        | _, _ => none
      | _ => none
    else
      none

/-- The 16-bit units that a byte string spells. -/
def units (bytes : Bytes) : Option (List UInt16) :=
  unitsOnto [] bytes

/-- The text spelt unit by unit. -/
def decodeUnits (bytes : Bytes) : Option String :=
  match units bytes with
  | some units => (Utf16.decode units).map String.ofList
  | none => none

/-- The text of a stored byte string: its standard UTF-8 reading if it has one, and else its reading
unit by unit. -/
def decode (bytes : Bytes) : Option String :=
  match bytes.text? with
  | some text => some text
  | none => decodeUnits bytes

end EntryPoint.ModifiedUtf8
