/-!
# Texts as sequences of 16-bit units

A character of the basic plane is one unit, and a supplementary character is a high surrogate
followed by a low one. A surrogate outside such a pair stands for no character.
-/

namespace EntryPoint.Utf16

/-- The units `D800` to `DBFF`, which open a pair. -/
def isHighSurrogate (unit : UInt16) : Bool :=
  0xD800 ≤ unit && unit ≤ 0xDBFF

/-- The units `DC00` to `DFFF`, which close a pair. -/
def isLowSurrogate (unit : UInt16) : Bool :=
  0xDC00 ≤ unit && unit ≤ 0xDFFF

/-- The supplementary character of a pair of surrogates. -/
def pairedChar (high low : UInt16) : Char :=
  Char.ofNat (0x10000 + (high.toNat - 0xD800) * 0x400 + (low.toNat - 0xDC00))

/-- The units of one character. -/
def encodeChar (c : Char) : List UInt16 :=
  if c.toNat < 0x10000 then
    [UInt16.ofNat c.toNat]
  else
    [UInt16.ofNat (0xD800 + (c.toNat - 0x10000) / 0x400),
      UInt16.ofNat (0xDC00 + (c.toNat - 0x10000) % 0x400)]

/-- The units of a sequence of characters. -/
def encode (cs : List Char) : List UInt16 :=
  cs.flatMap encodeChar

/-- Reads units after the characters already found, the latest of which comes first. -/
def decodeOnto (found : List Char) : List UInt16 → Option (List Char)
  | [] => some found.reverse
  | unit :: rest =>
    if isHighSurrogate unit then
      match rest with
      | low :: rest =>
        if isLowSurrogate low then decodeOnto (pairedChar unit low :: found) rest else none
      | [] => none
    else if isLowSurrogate unit then
      none
    else
      decodeOnto (Char.ofNat unit.toNat :: found) rest

/-- The characters of a sequence of units, unless a surrogate stands alone. -/
def decode (units : List UInt16) : Option (List Char) :=
  decodeOnto [] units

end EntryPoint.Utf16
