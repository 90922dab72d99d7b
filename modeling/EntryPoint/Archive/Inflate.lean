import EntryPoint.Bytes

/-!
# Inflating

The inverse of deflate compression. A compressed stream is a sequence of blocks of bits, each stored
verbatim or coded by two prefix codes, one for literals and lengths and one for distances. Whatever
follows the last block is ignored, and a stream that breaks the format has no value.

A copy that reaches back beyond the start of the output finds zeros there, as in a window that was
cleared at the start.
-/

namespace EntryPoint.Inflate

/-- The bits that are still to be read. -/
abbrev Bits := List Bool

/-- The bits of a byte, the least significant first. -/
def bitsOfByte (byte : UInt8) : Bits :=
  (List.range 8).map fun place => byte.toNat.testBit place

/-- The bits of a byte string, in the order in which a stream holds them. -/
def bitsOf (bytes : Bytes) : Bits :=
  bytes.flatMap bitsOfByte

/-- The next `width` bits as a number, the least significant first. -/
def takeNumber : (width : Nat) → Bits → Option (Nat × Bits)
  | 0, bits => some (0, bits)
  | width + 1, bit :: bits =>
    match takeNumber width bits with
    | some (value, bits) => some (bit.toNat + 2 * value, bits)
    | none => none
  | _ + 1, [] => none

/-- The longest code that a symbol may have. -/
def maxCodeLength : Nat := 15

/-- A canonical prefix code: how many symbols have each code length from one on, and the symbols in
the order of their codes. -/
structure PrefixCode where
  counts : List Nat
  symbols : Array Nat

/-- The symbols whose code has a given length, in increasing order. -/
def symbolsOfLength (lengths : List Nat) (length : Nat) : List Nat :=
  lengths.zipIdx.filterMap fun (found, symbol) => if found = length then some symbol else none

/-- The share of all codes that the codes of given lengths take up, in units of the longest code. -/
def share : (counts : List Nat) → Nat
  | [] => 0
  | count :: counts => count <<< counts.length + share counts

/-- The canonical code for the code lengths of the symbols, in which length zero marks a symbol that
is not used. A code of two symbols or more must use up all bit patterns and no pattern twice. -/
def PrefixCode.ofLengths? (lengths : List Nat) : Option PrefixCode :=
  let groups := (List.range maxCodeLength).map fun n => symbolsOfLength lengths (n + 1)
  let counts := groups.map List.length
  let symbols := groups.flatten
  if 1 < symbols.length ∧ share counts ≠ 1 <<< maxCodeLength then
    none
  else
    some ⟨counts, symbols.toArray⟩

/-- Reads a code bit by bit: `first` is the first code of the length reached, `skipped` the number
of symbols with shorter codes, and `code` what was read. -/
def PrefixCode.search (symbols : Array Nat) :
    (counts : List Nat) → (first skipped code : Nat) → Bits → Option (Nat × Bits)
  | count :: counts, first, skipped, code, bit :: bits =>
    let code := 2 * code + bit.toNat
    let first := 2 * first
    if code < first + count then
      match symbols[skipped + (code - first)]? with
      | some symbol => some (symbol, bits)
      | none => none
    else
      search symbols counts (first + count) (skipped + count) code bits
  | _, _, _, _, _ => none

/-- Reads one symbol. -/
def PrefixCode.takeSymbol (code : PrefixCode) (bits : Bits) : Option (Nat × Bits) :=
  PrefixCode.search code.symbols code.counts 0 0 0 bits

/-- The lengths that the symbols from 257 on start from, with the number of extra bits. -/
def lengthBases : List (Nat × Nat) :=
  [(3, 0), (4, 0), (5, 0), (6, 0), (7, 0), (8, 0), (9, 0), (10, 0), (11, 1), (13, 1), (15, 1),
    (17, 1), (19, 2), (23, 2), (27, 2), (31, 2), (35, 3), (43, 3), (51, 3), (59, 3), (67, 4),
    (83, 4), (99, 4), (115, 4), (131, 5), (163, 5), (195, 5), (227, 5), (258, 0)]

/-- The distances that the symbols of the second code start from, with the number of extra bits. -/
def distanceBases : List (Nat × Nat) :=
  [(1, 0), (2, 0), (3, 0), (4, 0), (5, 1), (7, 1), (9, 2), (13, 2), (17, 3), (25, 3), (33, 4),
    (49, 4), (65, 5), (97, 5), (129, 6), (193, 6), (257, 7), (385, 7), (513, 8), (769, 8),
    (1025, 9), (1537, 9), (2049, 10), (3073, 10), (4097, 11), (6145, 11), (8193, 12), (12289, 12),
    (16385, 13), (24577, 13)]

/-- A value that starts from the base at an index and adds its extra bits. -/
def takeExtended (bases : List (Nat × Nat)) (index : Nat) (bits : Bits) : Option (Nat × Bits) :=
  match bases[index]? with
  | some (base, width) =>
    match takeNumber width bits with
    | some (extra, bits) => some (base + extra, bits)
    | none => none
  | none => none

/-- Appends `length` bytes, each a copy of the byte `distance` places before it. -/
def copyBack (distance : Nat) : (length : Nat) → Array UInt8 → Array UInt8
  | 0, output => output
  | length + 1, output =>
    let byte := if output.size < distance then 0 else output.getD (output.size - distance) 0
    copyBack distance length (output.push byte)

/-- Reads the symbols of a block up to its end mark; `fuel` bounds their number. -/
def takeSymbols (literals distances : PrefixCode) :
    (fuel : Nat) → Bits → Array UInt8 → Option (Bits × Array UInt8)
  | 0, _, _ => none
  | fuel + 1, bits, output =>
    match literals.takeSymbol bits with
    | none => none
    | some (symbol, bits) =>
      if symbol < 256 then
        takeSymbols literals distances fuel bits (output.push (UInt8.ofNat symbol))
      else if symbol = 256 then
        some (bits, output)
      else
        match takeExtended lengthBases (symbol - 257) bits with
        | none => none
        | some (length, bits) =>
          match distances.takeSymbol bits with
          | none => none
          | some (symbol, bits) =>
            match takeExtended distanceBases symbol bits with
            | none => none
            | some (distance, bits) =>
              takeSymbols literals distances fuel bits (copyBack distance length output)

/-- The code lengths of the literals and lengths of a block with fixed codes. -/
def fixedLiteralLengths : List Nat :=
  List.replicate 144 8 ++ List.replicate 112 9 ++ List.replicate 24 7 ++ List.replicate 8 8

/-- The code lengths of the distances of a block with fixed codes. -/
def fixedDistanceLengths : List Nat :=
  List.replicate 32 5

/-- The order in which a block gives the lengths of the code for code lengths. -/
def codeLengthOrder : List Nat :=
  [16, 17, 18, 0, 8, 7, 9, 6, 10, 5, 11, 4, 12, 3, 13, 2, 14, 1, 15]

/-- Reads `count` numbers of three bits. -/
def takeTriples : (count : Nat) → Bits → Option (List Nat × Bits)
  | 0, bits => some ([], bits)
  | count + 1, bits =>
    match takeNumber 3 bits with
    | some (value, bits) =>
      match takeTriples count bits with
      | some (values, bits) => some (value :: values, bits)
      | none => none
    | none => none

/-- The lengths of the code for code lengths, from those that a block gives in its own order. -/
def codeLengthLengths (given : List Nat) : List Nat :=
  (List.range 19).map fun symbol =>
    match codeLengthOrder.idxOf? symbol with
    | some index => given.getD index 0
    | none => 0

/-- What a symbol of the code for code lengths says: how often which length comes next. -/
def takeRun (previous : Option Nat) (symbol : Nat) (bits : Bits) :
    Option ((Nat × Nat) × Bits) :=
  let repeated (value base width : Nat) : Option ((Nat × Nat) × Bits) :=
    match takeNumber width bits with
    | some (extra, bits) => some ((base + extra, value), bits)
    | none => none
  match symbol with
  | 16 => match previous with
    | some value => repeated value 3 2
    | none => none
  | 17 => repeated 0 3 3
  | 18 => repeated 0 11 7
  | length => some ((1, length), bits)

/-- Reads `wanted` code lengths in all, given those already found (the latest first); `fuel` bounds
the number of symbols. -/
def takeLengths (code : PrefixCode) (wanted : Nat) :
    (fuel : Nat) → (found : List Nat) → Bits → Option (List Nat × Bits)
  | 0, _, _ => none
  | fuel + 1, found, bits =>
    if found.length = wanted then
      some (found.reverse, bits)
    else if wanted < found.length then
      none
    else
      match code.takeSymbol bits with
      | none => none
      | some (symbol, bits) =>
        match takeRun found.head? symbol bits with
        | none => none
        | some ((times, length), bits) =>
          takeLengths code wanted fuel (List.replicate times length ++ found) bits

/-- Reads the two codes that a block brings along. -/
def takeCodes (bits : Bits) : Option ((PrefixCode × PrefixCode) × Bits) := do
  let (literalCount, bits) ← takeNumber 5 bits
  let (distanceCount, bits) ← takeNumber 5 bits
  let (tripleCount, bits) ← takeNumber 4 bits
  let literalCount := literalCount + 257
  let distanceCount := distanceCount + 1
  if 286 < literalCount ∨ 30 < distanceCount then
    none
  else
    let (given, bits) ← takeTriples (tripleCount + 4) bits
    let code ← PrefixCode.ofLengths? (codeLengthLengths given)
    let wanted := literalCount + distanceCount
    let (lengths, bits) ← takeLengths code wanted (wanted + 1) [] bits
    let literals ← PrefixCode.ofLengths? (lengths.take literalCount)
    let distances ← PrefixCode.ofLengths? (lengths.drop literalCount)
    return ((literals, distances), bits)

/-- The given number of bytes from bits that start at a byte's boundary. -/
def takeStored : (length : Nat) → Bits → Array UInt8 → Option (Bits × Array UInt8)
  | 0, bits, output => some (bits, output)
  | length + 1, bits, output =>
    match takeNumber 8 bits with
    | some (byte, bits) => takeStored length bits (output.push (UInt8.ofNat byte))
    | none => none

/-- Reads a block that is stored verbatim: from the next byte's boundary on its length, the length
with all bits inverted, and its bytes. -/
def takeStoredBlock (bits : Bits) (output : Array UInt8) : Option (Bits × Array UInt8) := do
  let bits := bits.drop (bits.length % 8)
  let (length, bits) ← takeNumber 16 bits
  let (inverted, bits) ← takeNumber 16 bits
  if length + inverted = 0xFFFF then takeStored length bits output else none

/-- Reads the body of a block of a given kind. -/
def takeBlock (kind : Nat) (bits : Bits) (output : Array UInt8) : Option (Bits × Array UInt8) :=
  match kind with
  | 0 => takeStoredBlock bits output
  | 1 => do
    let literals ← PrefixCode.ofLengths? fixedLiteralLengths
    let distances ← PrefixCode.ofLengths? fixedDistanceLengths
    takeSymbols literals distances (bits.length + 1) bits output
  | 2 => do
    let ((literals, distances), bits) ← takeCodes bits
    takeSymbols literals distances (bits.length + 1) bits output
  | _ => none

/-- Reads blocks up to the last one; `fuel` bounds their number. -/
def takeBlocks : (fuel : Nat) → Bits → Array UInt8 → Option (Array UInt8)
  | 0, _, _ => none
  | fuel + 1, bits, output =>
    match takeNumber 1 bits with
    | none => none
    | some (last, bits) =>
      match takeNumber 2 bits with
      | none => none
      | some (kind, bits) =>
        match takeBlock kind bits output with
        | none => none
        | some (bits, output) => if last = 1 then some output else takeBlocks fuel bits output

/-- The byte string that a compressed stream stands for, if the stream keeps to the format. Each
block takes at least one bit, so that the number of bits bounds the number of blocks. -/
def inflate (compressed : Bytes) : Option Bytes :=
  let bits := bitsOf compressed
  (takeBlocks (bits.length + 1) bits #[]).map Array.toList

end EntryPoint.Inflate
