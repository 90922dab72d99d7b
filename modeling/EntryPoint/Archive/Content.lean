import EntryPoint.Archive.Directory
import EntryPoint.Archive.Inflate
import EntryPoint.Digest.Crc32

/-!
# The content of archive entries

The entry of a name is the last one that the directory lists under it. Its content lies behind a
header of its own, stored or deflated, and has the checksum that the directory says.
-/

namespace EntryPoint.Archive

/-- A reason for which an entry has no content. -/
inductive EntryFault where
  | structural (fault : Fault)
  | data (fault : DataFault)
  deriving DecidableEq

/-- The ways in which an entry's content is kept. -/
inductive Method where
  | stored
  | deflated
  deriving DecidableEq

/-- The method of a number that a directory entry gives. -/
def Method.ofNumber? : Nat → Option Method
  | 0 => some .stored
  | 8 => some .deflated
  | _ => none

/-- The entry of a given name. -/
def lastNamed? (entries : List Entry) (name : String) : Option Entry :=
  entries.reverse.find? fun entry => entry.name = name

/-- The mark of an entry's own header. -/
def entryHeaderMark : Bytes := [0x50, 0x4B, 0x03, 0x04]

/-- The length of an entry's own header, its name and its extra fields aside. -/
def entryHeaderLength : Nat := 30

/-- The offset at which the data of an entry starts. -/
def dataStart (bytes : Bytes) (entry : Entry) : Except Fault Nat := do
  let mark ← slice bytes entry.headerStart 4
  if mark ≠ entryHeaderMark then
    throw .badLocalHeader
  else
    let header ← slice bytes entry.headerStart entryHeaderLength
    return entry.headerStart + entryHeaderLength + field header 26 2 + field header 28 2

/-- What a method makes of an entry's data. -/
def Method.expand : Method → Bytes → Except DataFault Bytes
  | .stored, data => .ok data
  | .deflated, data =>
    match Inflate.inflate data with
    | some content => .ok content
    | none => .error .corruptStream

/-- The method and the data of an entry. -/
def openEntry (bytes : Bytes) (entry : Entry) : Except Fault (Method × Bytes) :=
  if entry.encrypted then
    .error .encrypted
  else
    match dataStart bytes entry with
    | .error fault => .error fault
    | .ok start =>
      match Method.ofNumber? entry.method with
      | some method => .ok (method, (bytes.drop start).take entry.compressedSize)
      | none => .error .unsupportedMethod

/-- The content of an entry. -/
def readEntry (bytes : Bytes) (entry : Entry) : Except EntryFault Bytes :=
  match openEntry bytes entry with
  | .error fault => .error (.structural fault)
  | .ok (method, data) =>
    match method.expand data with
    | .error fault => .error (.data fault)
    | .ok content =>
      if Crc32.checksum content = entry.checksum then
        .ok content
      else
        .error (.data .badChecksum)

/-- The content of the entry of a given name in an archive, if there is such an entry. -/
def find? (bytes : Bytes) (name : String) : Except EntryFault (Option Bytes) :=
  match readDirectory bytes with
  | .error fault => .error (.structural fault)
  | .ok entries =>
    match lastNamed? entries name with
    | some entry => (readEntry bytes entry).map some
    | none => .ok none

end EntryPoint.Archive
