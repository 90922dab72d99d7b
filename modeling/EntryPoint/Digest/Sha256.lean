import EntryPoint.Bytes

/-!
# SHA-256

The 256-bit digest of a byte string: the message is padded to whole blocks of 64 bytes, and each
block is mixed into eight 32-bit words in 64 rounds.
-/

namespace EntryPoint.Sha256

/-- The constants of the rounds: the first 32 bits of the fractional parts of the cube roots of the
first 64 primes. -/
def roundConstants : List UInt32 :=
  [0x428a2f98, 0x71374491, 0xb5c0fbcf, 0xe9b5dba5, 0x3956c25b, 0x59f111f1, 0x923f82a4, 0xab1c5ed5,
    0xd807aa98, 0x12835b01, 0x243185be, 0x550c7dc3, 0x72be5d74, 0x80deb1fe, 0x9bdc06a7, 0xc19bf174,
    0xe49b69c1, 0xefbe4786, 0x0fc19dc6, 0x240ca1cc, 0x2de92c6f, 0x4a7484aa, 0x5cb0a9dc, 0x76f988da,
    0x983e5152, 0xa831c66d, 0xb00327c8, 0xbf597fc7, 0xc6e00bf3, 0xd5a79147, 0x06ca6351, 0x14292967,
    0x27b70a85, 0x2e1b2138, 0x4d2c6dfc, 0x53380d13, 0x650a7354, 0x766a0abb, 0x81c2c92e, 0x92722c85,
    0xa2bfe8a1, 0xa81a664b, 0xc24b8b70, 0xc76c51a3, 0xd192e819, 0xd6990624, 0xf40e3585, 0x106aa070,
    0x19a4c116, 0x1e376c08, 0x2748774c, 0x34b0bcb5, 0x391c0cb3, 0x4ed8aa4a, 0x5b9cca4f, 0x682e6ff3,
    0x748f82ee, 0x78a5636f, 0x84c87814, 0x8cc70208, 0x90befffa, 0xa4506ceb, 0xbef9a3f7, 0xc67178f2]

/-- The eight words that the digest is made of. -/
structure State where
  a : UInt32
  b : UInt32
  c : UInt32
  d : UInt32
  e : UInt32
  f : UInt32
  g : UInt32
  h : UInt32
  deriving DecidableEq

/-- The words before the first block: the first 32 bits of the fractional parts of the square roots
of the first eight primes. -/
def State.initial : State :=
  ⟨0x6a09e667, 0xbb67ae85, 0x3c6ef372, 0xa54ff53a, 0x510e527f, 0x9b05688c, 0x1f83d9ab, 0x5be0cd19⟩

/-- The words of two states added one by one. -/
def State.add (s t : State) : State :=
  ⟨s.a + t.a, s.b + t.b, s.c + t.c, s.d + t.d, s.e + t.e, s.f + t.f, s.g + t.g, s.h + t.h⟩

/-- The words of a state in order. -/
def State.words (s : State) : List UInt32 :=
  [s.a, s.b, s.c, s.d, s.e, s.f, s.g, s.h]

/-- Rotates a word to the right. -/
def rotateRight (word : UInt32) (places : UInt32) : UInt32 :=
  word >>> places ||| word <<< (32 - places)

/-- Mixes one round's word and constant into the state. -/
def round (s : State) (word constant : UInt32) : State :=
  let choice := (s.e &&& s.f) ^^^ (~~~s.e &&& s.g)
  let spreadE := rotateRight s.e 6 ^^^ rotateRight s.e 11 ^^^ rotateRight s.e 25
  let added := s.h + spreadE + choice + constant + word
  let majority := (s.a &&& s.b) ^^^ (s.a &&& s.c) ^^^ (s.b &&& s.c)
  let spreadA := rotateRight s.a 2 ^^^ rotateRight s.a 13 ^^^ rotateRight s.a 22
  ⟨added + (spreadA + majority), s.a, s.b, s.c, s.d + added, s.e, s.f, s.g⟩

/-- The word that follows sixteen given ones in the schedule of a block. -/
def nextWord (window : List UInt32) : UInt32 :=
  let word (i : Nat) := window.getD i 0
  let early := rotateRight (word 1) 7 ^^^ rotateRight (word 1) 18 ^^^ (word 1 >>> 3)
  let late := rotateRight (word 14) 17 ^^^ rotateRight (word 14) 19 ^^^ (word 14 >>> 10)
  word 0 + early + word 9 + late

/-- Runs one round for each constant; the window holds the next sixteen words of the schedule. -/
def rounds : (constants window : List UInt32) → State → State
  | [], _, s => s
  | constant :: constants, window, s =>
    rounds constants (window.tail ++ [nextWord window]) (round s (window.headD 0) constant)

/-- The big-endian words of a byte string whose length is a multiple of four. -/
def bigEndianWords : Bytes → List UInt32
  | a :: b :: c :: d :: rest => word32 [a, b, c, d] :: bigEndianWords rest
  | _ => []

/-- Mixes one block of 64 bytes into the state. -/
def mixBlock (s : State) (block : Bytes) : State :=
  s.add (rounds roundConstants (bigEndianWords block) s)

/-- Mixes the given number of blocks into the state. -/
def mixBlocks : (blocks : Nat) → Bytes → State → State
  | 0, _, s => s
  | blocks + 1, message, s => mixBlocks blocks (message.drop 64) (mixBlock s (message.take 64))

/-- A number below `256 ^ width` in big-endian bytes. -/
def bigEndianBytes (value : Nat) : (width : Nat) → Bytes
  | 0 => []
  | width + 1 => bigEndianBytes (value / 256) width ++ [UInt8.ofNat (value % 256)]

/-- The message with a one bit, zero bits up to eight bytes before a block's end, and its length in
bits. -/
def pad (message : Bytes) : Bytes :=
  let length := message.length
  message ++ (0x80 : UInt8) :: List.replicate ((119 - length % 64) % 64) 0
    ++ bigEndianBytes (length * 8) 8

/-- The digest of a byte string, of 32 bytes. -/
def digest (message : Bytes) : Bytes :=
  let padded := pad message
  (mixBlocks (padded.length / 64) padded .initial).words.flatMap fun word =>
    bigEndianBytes word.toNat 4

end EntryPoint.Sha256
