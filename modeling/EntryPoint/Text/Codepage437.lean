import EntryPoint.Bytes

/-!
# Code page 437

The single-byte encoding of archive entry names that do not claim to be UTF-8: the lower half is
ASCII, and the upper half holds accented letters, line-drawing characters and symbols.
-/

namespace EntryPoint.Codepage437

/-- The characters of the bytes from `80` on. -/
def upperHalf : List Char :=
  ("ÇüéâäàåçêëèïîìÄÅÉæÆôöòûùÿÖÜ¢£¥₧ƒ" ++ "áíóúñÑªº¿⌐¬½¼¡«»░▒▓│┤╡╢╖╕╣║╗╝╜╛┐"
    ++ "└┴┬├─┼╞╟╚╔╩╦╠═╬╧╨╤╥╙╘╒╓╫╪┘┌█▄▌▐▀" ++ "αßΓπΣσµτΦΘΩδ∞φε∩≡±≥≤⌠⌡÷≈°∙·√ⁿ²■\u00A0").toList

/-- The character of a byte. -/
def decodeByte (byte : UInt8) : Char :=
  if byte < 0x80 then Char.ofNat byte.toNat else upperHalf.getD (byte.toNat - 0x80) ' '

/-- The text of a byte string. -/
def decode (bytes : Bytes) : String :=
  String.ofList (bytes.map decodeByte)

end EntryPoint.Codepage437
