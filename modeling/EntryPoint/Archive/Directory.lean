import EntryPoint.Archive.Fault
import EntryPoint.Text.Codepage437
import EntryPoint.Text.Utf8

/-!
# The directory of an archive

An archive ends with a record that locates its directory, and the directory lists the entries. The
record is searched from the end of the file backwards, past a comment or other trailing bytes. Data
before the archive shifts every offset by the same amount, which the place of the record tells.
-/

namespace EntryPoint.Archive

/-- The `length` bytes from an offset on. -/
def slice (bytes : Bytes) (offset length : Nat) : Except Fault Bytes :=
  let found := (bytes.drop offset).take length
  if found.length = length then .ok found else .error .endOfFile

/-- The little-endian number in the `width` bytes at a place of a record. -/
def field (record : Bytes) (place width : Nat) : Nat :=
  Bytes.littleEndian ((record.drop place).take width)

/-- An entry as the directory lists it. -/
structure Entry where
  name : String
  encrypted : Bool
  method : Nat
  checksum : UInt32
  compressedSize : Nat
  /-- Where the entry's own header starts in the file. -/
  headerStart : Nat
  deriving DecidableEq

/-- The length of the record that ends an archive, its comment aside. -/
def endRecordLength : Nat := 22

/-- The mark of the record that ends an archive. -/
def endRecordMark : Bytes := [0x50, 0x4B, 0x05, 0x06]

/-- Looks for the mark of the end record, given the reversed bytes up to the end of a candidate mark
and that candidate's offset; `tries` bounds how far back the search goes. -/
def searchEnd (reversedMark : Bytes) : (tries : Nat) → (offset : Nat) → Bytes → Option Nat
  | 0, _, _ => none
  | tries + 1, offset, reversed =>
    if reversedMark.isPrefixOf reversed then
      some offset
    else
      match offset, reversed with
      | offset + 1, _ :: reversed => searchEnd reversedMark tries offset reversed
      | _, _ => none

/-- The offset of the last end record; at most `65535` bytes may follow it. -/
def findEnd (bytes : Bytes) : Except Fault Nat :=
  if bytes.length < endRecordLength then
    .error .tooShort
  else
    match searchEnd endRecordMark.reverse 65536 (bytes.length - endRecordLength)
        (bytes.reverse.drop (endRecordLength - endRecordMark.length)) with
    | some offset => .ok offset
    | none => .error .noEnd

/-- Where the directory starts, how many entries it has, and by how much all offsets are shifted. -/
structure Extent where
  start : Nat
  count : Nat
  shift : Nat
  deriving DecidableEq

/-- What the end record says. -/
structure EndRecord where
  offset : Nat
  disk : Nat
  directoryDisk : Nat
  countHere : Nat
  count : Nat
  directorySize : Nat
  directoryOffset : Nat
  commentLength : Nat

/-- Reads the end record at an offset, which must hold its whole comment. -/
def readEnd (bytes : Bytes) (offset : Nat) : Except Fault EndRecord := do
  let record ← slice bytes offset endRecordLength
  let commentLength := field record 20 2
  let _ ← slice bytes (offset + endRecordLength) commentLength
  return {
    offset
    disk := field record 4 2
    directoryDisk := field record 6 2
    countHere := field record 8 2
    count := field record 10 2
    directorySize := field record 12 4
    directoryOffset := field record 16 4
    commentLength }

/-- Whether some field of the end record is at its limit, so that the extended record counts. -/
def EndRecord.isSaturated (record : EndRecord) : Bool :=
  record.disk = 0xFFFF || record.directoryDisk = 0xFFFF || record.countHere = 0xFFFF
    || record.count = 0xFFFF || record.directorySize = 0xFFFFFFFF
    || record.directoryOffset = 0xFFFFFFFF

/-- The mark of the extended end record, as a number. -/
def extendedEndMark : Nat := 0x06064B50

/-- The mark of the record that locates the extended end record, as a number. -/
def locatorMark : Nat := 0x07064B50

/-- The locator of the extended end record: the disk and the offset it names. -/
def readLocator (bytes : Bytes) (record : EndRecord) : Except Fault (Option (Nat × Nat)) :=
  let back := 20 + endRecordLength + record.commentLength
  if bytes.length < back then
    .ok none
  else do
    let offset := bytes.length - back
    let mark ← slice bytes offset 4
    if field mark 0 4 ≠ locatorMark then
      return none
    else
      let locator ← slice bytes offset 20
      return some (field locator 4 4, field locator 8 8)

/-- Looks forwards for the extended end record, from an offset on. -/
def searchExtendedEnd (bytes : Bytes) : (tries offset : Nat) → Except Fault Nat
  | 0, _ => .error .noExtendedEnd
  | tries + 1, offset => do
    let mark ← slice bytes offset 4
    if field mark 0 4 = extendedEndMark then
      return offset
    else
      searchExtendedEnd bytes tries (offset + 1)

/-- The extent of the directory by the extended end record. -/
def extendedExtent (bytes : Bytes) (record : EndRecord) (disk offset : Nat) : Except Fault Extent :=
  if ¬record.isSaturated ∧ record.disk ≠ disk then
    .error .multiDisk
  else if record.offset < 60 then
    .error .noRoomForExtendedEnd
  else do
    let found ← searchExtendedEnd bytes (record.offset - 60 + 1 - offset) offset
    let extended ← slice bytes found 56
    if field extended 16 4 ≠ field extended 20 4 then
      throw .multiDisk
    else
      return {
        start := field extended 48 8 + (found - offset)
        count := field extended 32 8
        shift := found - offset }

/-- The extent of the directory by the end record alone. -/
def plainExtent (record : EndRecord) : Except Fault Extent :=
  if record.offset < record.directorySize + record.directoryOffset then
    .error .badDirectoryExtent
  else
    .ok {
      start := record.offset - record.directorySize
      count := record.countHere
      shift := record.offset - record.directorySize - record.directoryOffset }

/-- The extent of the directory. -/
def findExtent (bytes : Bytes) : Except Fault Extent := do
  let offset ← findEnd bytes
  let record ← readEnd bytes offset
  if ¬record.isSaturated ∧ record.disk ≠ record.directoryDisk then
    throw .multiDisk
  else
    match ← readLocator bytes record with
    | some (disk, offset) => extendedExtent bytes record disk offset
    | none => plainExtent record

/-- The value in the extended fields of an entry that a 32-bit field at its limit stands for. -/
def extendField (limited : Nat) (extra : Bytes) : Nat × Bytes :=
  if limited = 0xFFFFFFFF ∧ 8 ≤ extra.length then
    (field extra 0 8, extra.drop 8)
  else
    (limited, extra)

/-- The compressed size and the offset of an entry's header, with the values of the extended fields
in place of those at their limit; `fuel` bounds the number of extra fields. -/
def extendSizes (uncompressed : Nat) : (fuel : Nat) → (extra : Bytes) → Nat × Nat → Nat × Nat
  | 0, _, sizes => sizes
  | fuel + 1, extra, (compressed, header) =>
    if extra.length < 4 then
      (compressed, header)
    else
      let length := field extra 2 2
      let rest := extra.drop 4
      if field extra 0 2 = 0x0001 then
        let (_, left) := extendField uncompressed rest
        let (compressed, left) := extendField compressed left
        let (header, _) := extendField header left
        extendSizes uncompressed fuel (rest.drop length) (compressed, header)
      else
        extendSizes uncompressed fuel (rest.drop length) (compressed, header)

/-- The length of a directory entry's fixed part. -/
def directoryEntryLength : Nat := 46

/-- The mark of a directory entry. -/
def directoryEntryMark : Bytes := [0x50, 0x4B, 0x01, 0x02]

/-- The greatest offset in a file. -/
def maxOffset : Nat := 0xFFFFFFFFFFFFFFFF

/-- Reads the directory entry at an offset and gives the offset behind it. -/
def readDirectoryEntry (bytes : Bytes) (shift offset : Nat) : Except Fault (Entry × Nat) := do
  let mark ← slice bytes offset 4
  if mark ≠ directoryEntryMark then
    throw .badDirectoryEntry
  else
    let fixed ← slice bytes offset directoryEntryLength
    let flags := field fixed 8 2
    let nameLength := field fixed 28 2
    let extraLength := field fixed 30 2
    let commentLength := field fixed 32 2
    let nameStart := offset + directoryEntryLength
    let name ← slice bytes nameStart nameLength
    let extra ← slice bytes (nameStart + nameLength) extraLength
    let _ ← slice bytes (nameStart + nameLength + extraLength) commentLength
    let (compressedSize, header) :=
      extendSizes (field fixed 24 4) extra.length extra (field fixed 20 4, field fixed 42 4)
    if maxOffset < header + shift then
      throw .offsetTooLarge
    else
      return ({
        name := if flags.testBit 11 then Utf8.decodeLossy name else Codepage437.decode name
        encrypted := flags.testBit 0
        method := field fixed 10 2
        checksum := UInt32.ofNat (field fixed 16 4)
        compressedSize
        headerStart := header + shift }, nameStart + nameLength + extraLength + commentLength)

/-- Reads the given number of directory entries, after those already found (the latest first). -/
def readDirectoryEntries (bytes : Bytes) (shift : Nat) :
    (count offset : Nat) → (found : List Entry) → Except Fault (List Entry)
  | 0, _, found => .ok found.reverse
  | count + 1, offset, found =>
    match readDirectoryEntry bytes shift offset with
    | .ok (entry, offset) => readDirectoryEntries bytes shift count offset (entry :: found)
    | .error fault => .error fault

/-- The entries of an archive, as its directory lists them. -/
def readDirectory (bytes : Bytes) : Except Fault (List Entry) := do
  let extent ← findExtent bytes
  readDirectoryEntries bytes extent.shift extent.count extent.start []

end EntryPoint.Archive
