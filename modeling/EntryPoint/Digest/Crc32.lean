import EntryPoint.Bytes

/-!
# CRC-32

The checksum of archive entries: the remainder of the message, least significant bit first, by the
polynomial `EDB88320`, with all bits inverted before and after.
-/

namespace EntryPoint.Crc32

/-- The remainder after one more bit. -/
def shiftBit (remainder : UInt32) : UInt32 :=
  if remainder &&& 1 = 1 then (remainder >>> 1) ^^^ 0xEDB88320 else remainder >>> 1

/-- The remainder after one more byte. -/
def shiftByte (remainder : UInt32) (byte : UInt8) : UInt32 :=
  Nat.repeat shiftBit 8 (remainder ^^^ byte.toUInt32)

/-- The checksum of a byte string. -/
def checksum (bytes : Bytes) : UInt32 :=
  ~~~(bytes.foldl shiftByte 0xFFFFFFFF)

end EntryPoint.Crc32
