/-!
# Byte strings

The contents of files, and their readings as numbers and as hexadecimal text.
-/

namespace EntryPoint

/-- The contents of a file, or of a part of one. -/
abbrev Bytes := List UInt8

namespace Bytes

/-- The number that a byte string denotes with its most significant byte first. -/
def bigEndian (bytes : Bytes) : Nat :=
  bytes.foldl (fun value byte => value * 256 + byte.toNat) 0

/-- The number that a byte string denotes with its least significant byte first. -/
def littleEndian (bytes : Bytes) : Nat :=
  bytes.foldr (fun byte value => value * 256 + byte.toNat) 0

/-- A digit below sixteen as a lower-case hexadecimal character. -/
def hexDigit (digit : Nat) : Char :=
  if digit < 10 then Char.ofNat ('0'.toNat + digit) else Char.ofNat ('a'.toNat + (digit - 10))

/-- Two lower-case hexadecimal digits for each byte. -/
def hex (bytes : Bytes) : String :=
  String.ofList (bytes.flatMap fun byte => [hexDigit (byte.toNat / 16), hexDigit (byte.toNat % 16)])

/-- The bytes of a text in UTF-8. -/
def ofText (text : String) : Bytes :=
  text.toUTF8.data.toList

/-- The text whose UTF-8 form is the given byte string, if there is one. -/
def text? (bytes : Bytes) : Option String :=
  String.fromUTF8? bytes.toByteArray

end Bytes

/-- A two-byte word from its big-endian form. -/
def word16 (bytes : Bytes) : UInt16 :=
  UInt16.ofNat bytes.bigEndian

/-- A four-byte word from its big-endian form. -/
def word32 (bytes : Bytes) : UInt32 :=
  UInt32.ofNat bytes.bigEndian

end EntryPoint
