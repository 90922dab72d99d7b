import EntryPoint.ClassFile.Summary
import EntryPoint.CommandLine.Invocation
import EntryPoint.Failure
import EntryPoint.FileSystem.Basic

/-!
# Reports

What a command prints, as an object of named values or as plain lines, and how a failure is worded
with its causes.
-/

namespace EntryPoint.CommandLine

/-- A value in a report. -/
inductive Value where
  | null
  | flag (value : Bool)
  | number (value : Nat)
  | text (value : String)
  | texts (values : List String)

/-- The escape of a character in a quoted text. -/
def escapeChar (c : Char) : List Char :=
  match c with
  | '"' => ['\\', '"']
  | '\\' => ['\\', '\\']
  | '\n' => ['\\', 'n']
  | '\r' => ['\\', 'r']
  | '\t' => ['\\', 't']
  | c =>
    if c.toNat = 8 then ['\\', 'b']
    else if c.toNat = 12 then ['\\', 'f']
    else if c.toNat < 32 then
      ['\\', 'u', '0', '0', Bytes.hexDigit (c.toNat / 16), Bytes.hexDigit (c.toNat % 16)]
    else [c]

/-- A text in quotes. -/
def quote (text : String) : String :=
  String.ofList ('"' :: text.toList.flatMap escapeChar ++ ['"'])

/-- Items in brackets, each on a line of its own behind the given indentation. -/
def renderItems (opening closing indentation : String) : (items : List String) → String
  | [] => opening ++ closing
  | items =>
    opening ++ "\n" ++ String.intercalate ",\n" (items.map fun item => indentation ++ "  " ++ item)
      ++ "\n" ++ indentation ++ closing

/-- A value of an object, as it is printed. -/
def Value.render : Value → String
  | null => "null"
  | flag value => if value then "true" else "false"
  | number value => toString value
  | text value => quote value
  | texts values => renderItems "[" "]" "  " (values.map quote)

/-- An object, as it is printed. -/
def renderObject (fields : List (String × Value)) : String :=
  renderItems "\x7b" "\x7d" "" (fields.map fun (name, value) => quote name ++ ": " ++ value.render)

/-- What a command found out. -/
inductive Report where
  | classes (root : Path) (names : List String)
  | summary (described : ClassFile.Summary)
  | resolved (entryPoint : ClassFile.Summary) (candidates : Nat) (milliseconds : Nat)
  /-- The manifest was not written, since the framework itself is being built. -/
  | skipped (manifest : Path)
  | emitted (mainClass : String) (manifest : Path) (digest : String)

namespace Report

/-- The named values of a report. -/
def fields : Report → List (String × Value)
  | classes root names => [("root", .text root.text), ("classes", .texts names)]
  | summary described =>
    [("class_name", .text described.className),
      ("major_version", .number described.majorVersion.toNat),
      ("minor_version", .number described.minorVersion.toNat),
      ("annotations", .texts described.annotations)]
  | resolved entryPoint candidates milliseconds =>
    [("main_class", .text entryPoint.className), ("annotations", .texts entryPoint.annotations),
      ("candidates", .number candidates), ("duration_ms", .number milliseconds)]
  | skipped manifest =>
    [("skipped", .flag true), ("main_class", .null), ("manifest_path", .text manifest.text),
      ("manifest_sha256", .null)]
  | emitted mainClass manifest digest =>
    [("skipped", .flag false), ("main_class", .text mainClass),
      ("manifest_path", .text manifest.text), ("manifest_sha256", .text digest)]

/-- The plain lines of a report. -/
def lines : Report → List String
  | classes _ names => names
  | summary described =>
    ("class_name: " ++ described.className)
      :: ("version: " ++ toString described.majorVersion.toNat ++ "."
        ++ toString described.minorVersion.toNat)
      :: described.annotations.map ("- " ++ ·)
  | resolved entryPoint candidates milliseconds =>
    ["main_class: " ++ entryPoint.className, "candidates: " ++ toString candidates,
      "duration_ms: " ++ toString milliseconds]
  | skipped _ => ["skipped: framework project"]
  | emitted mainClass manifest digest =>
    ["main_class: " ++ mainClass, "manifest: " ++ manifest.text, "sha256: " ++ digest]

/-- A report in a given format; output without any line is one empty line. -/
def render (report : Report) : OutputFormat → String
  | .json => renderObject report.fields ++ "\n"
  | .text =>
    match report.lines with
    | [] => "\n"
    | lines => String.join (lines.map (· ++ "\n"))

end Report

/-- Lines behind an indentation; the first line has a label in its place. -/
def renderCause (label indentation cause : String) : String :=
  match (cause.toList.splitOn '\n').map String.ofList with
  | first :: rest => String.intercalate "\n" ((label ++ first) :: rest.map (indentation ++ ·))
  | [] => label

/-- The causes of a failure: a single one is indented, and several are numbered. -/
def renderCauses : (causes : List String) → String
  | [] => ""
  | [cause] => "\nCaused by:\n" ++ renderCause "    " "    " cause ++ "\n"
  | causes =>
    "\nCaused by:\n" ++ String.join (causes.zipIdx.map fun (cause, index) =>
      let number := toString index
      let padding := String.ofList (List.replicate (5 - number.length) ' ')
      renderCause (padding ++ number ++ ": ") "       " cause ++ "\n")

/-- The report of a failure with its causes. -/
def renderFailure (message : String) (causes : List String) : String :=
  "Error: " ++ message ++ "\n" ++ renderCauses causes

end EntryPoint.CommandLine
