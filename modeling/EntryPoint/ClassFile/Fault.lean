/-!
# What can be wrong with a class file

Each fault is a cause with the data that locates it, and `Fault.message` words it.
-/

namespace EntryPoint.ClassFile

/-- The two kinds of constant that a class file's summary refers to. -/
inductive ConstantKind where
  | utf8
  | classRef
  deriving DecidableEq

/-- The name of a kind of constant. -/
def ConstantKind.label : ConstantKind → String
  | .utf8 => "Utf8"
  | .classRef => "Class"

/-- A reason for which a byte string is not the class file it should be. -/
inductive Fault where
  /-- The first four bytes are not the mark of a class file. -/
  | badMagic (found : UInt32)
  /-- The major version lies outside the supported range. -/
  | unsupportedVersion (major minor : UInt16)
  /-- A read at an offset found too few bytes. -/
  | truncated (offset missing : Nat)
  /-- A constant starts with a tag that no kind of constant has. -/
  | badConstantTag (tag : UInt8) (index : Nat)
  /-- A reference points to no constant of the kind that is due there. -/
  | badConstantIndex (index : UInt16) (expected : ConstantKind)
  /-- A text constant is no modified UTF-8. -/
  | invalidText (index : UInt16)
  /-- An annotation's element value starts with an unknown tag. -/
  | badElementTag (tag : UInt8)
  /-- Element values are nested beyond a number of levels. -/
  | nestingTooDeep (levels : Nat)
  deriving DecidableEq

/-- A digit below sixteen as an upper-case hexadecimal character. -/
def upperHexDigit (digit : Nat) : Char :=
  if digit < 10 then Char.ofNat ('0'.toNat + digit) else Char.ofNat ('A'.toNat + (digit - 10))

/-- The last `width` hexadecimal digits of a number, in upper case. -/
def upperHex (value : Nat) : (width : Nat) → List Char
  | 0 => []
  | width + 1 => upperHex (value / 16) width ++ [upperHexDigit (value % 16)]

/-- The wording of a fault. -/
def Fault.message : Fault → String
  | .badMagic found =>
    "bad magic 0x" ++ String.ofList (upperHex found.toNat 8) ++ ", not a class file"
  | .unsupportedVersion major minor =>
    "unsupported class file version " ++ toString major.toNat ++ "." ++ toString minor.toNat
  | .truncated offset missing =>
    "truncated at offset " ++ toString offset ++ ": " ++ toString missing ++ " more bytes needed"
  | .badConstantTag tag index =>
    "unknown constant pool tag " ++ toString tag.toNat ++ " at index " ++ toString index
  | .badConstantIndex index expected =>
    "constant pool index " ++ toString index.toNat ++ " is not a " ++ expected.label ++ " entry"
  | .invalidText index =>
    "constant pool entry " ++ toString index.toNat ++ " is not valid modified UTF-8"
  | .badElementTag tag =>
    "unknown annotation element tag 0x" ++ String.ofList (upperHex tag.toNat 2)
  | .nestingTooDeep levels =>
    "annotation values nested deeper than " ++ toString levels ++ " levels"

end EntryPoint.ClassFile
