import EntryPoint.Digest.Sha256
import EntryPoint.Manifest.Folding

/-!
# The manifest record

The main section of a manifest as far as it names an entry point: the version of the format and the
main class. `Record.render` writes it, and `Record.parse?` reads it back among other headers.
-/

namespace EntryPoint.Manifest

/-- The headers of a manifest that name an entry point. -/
structure Record where
  version : String
  mainClass : String
  deriving DecidableEq

/-- The version of the manifest format that is written. -/
def formatVersion : String := "1.0"

/-- The header that names the version of the format. -/
def versionHeader : String := "Manifest-Version"

/-- The header that names the main class. -/
def mainClassHeader : String := "Main-Class"

/-- The record of a main class in the current version of the format. -/
def Record.ofMainClass (mainClass : String) : Record :=
  ⟨formatVersion, mainClass⟩

/-- A header's name and value in one line. -/
def header (name value : String) : List Char :=
  name.toList ++ [':', ' '] ++ value.toList

/-- A header in folded lines, the last of them ended. -/
def renderHeader (name value : String) : List Char :=
  foldLine (header name value) ++ lineEnd

/-- The text of a manifest that holds the record alone. -/
def Record.render (record : Record) : String :=
  String.ofList (renderHeader versionHeader record.version
    ++ renderHeader mainClassHeader record.mainClass ++ lineEnd)

/-- Splits a header at its first colon that a space follows; `seen` is what lies before, latest
character first. -/
def splitHeaderOnto (seen : List Char) : List Char → Option (List Char × List Char)
  | ':' :: ' ' :: value => some (seen.reverse, value)
  | c :: rest => splitHeaderOnto (c :: seen) rest
  | [] => none

/-- The name and the value of a header. -/
def splitHeader? (header : List Char) : Option (List Char × List Char) :=
  splitHeaderOnto [] header

/-- Whether two names differ at most in the case of ASCII letters. -/
def sameName (name : List Char) (expected : String) : Bool :=
  name.map Char.toLower = expected.toList.map Char.toLower

/-- The value of the last header of a given name. -/
def lastValue? (name : String) (headers : List (List Char)) : Option String :=
  (headers.filterMap splitHeader?).reverse.findSome? fun (found, value) =>
    if sameName found name then some (String.ofList value) else none

/-- Reads the record from the main section of a manifest, unless one of its headers is missing. -/
def Record.parse? (content : String) : Option Record :=
  let headers := unfold content.toList
  match lastValue? versionHeader headers, lastValue? mainClassHeader headers with
  | some version, some mainClass => some ⟨version, mainClass⟩
  | _, _ => none

/-- The SHA-256 digest of the rendered record, in hexadecimal digits. -/
def Record.digest (record : Record) : String :=
  (Sha256.digest (Bytes.ofText record.render)).hex

end EntryPoint.Manifest
