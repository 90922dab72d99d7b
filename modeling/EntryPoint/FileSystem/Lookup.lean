import EntryPoint.FileSystem.Basic
import EntryPoint.Path

/-!
# Looking paths up

A path is walked segment by segment from the root or from the current directory. A link on the way
is followed, and so is a link at the end where the operation asks for it or a slash follows. The
last segment may name nothing, which matters to operations that create an entry there.
-/

namespace EntryPoint.FileSystem

/-- Where a path leads. -/
inductive Place where
  /-- To an entry. -/
  | found (location : Location)
  /-- To a name that is still free in a directory. -/
  | vacant (directory : Location) (name : String)
  deriving DecidableEq

/-- How far a walk comes before it has to follow a link. -/
inductive Progress where
  | arrived (place : Place)
  | atLink (directory : Location) (target : String) (rest : List String)

/-- Walks from a directory along segments up to the next link that has to be followed. -/
def advance (fs : FileSystem) (followLast : Bool) :
    (directory : Location) → (segments : List String) → Except SystemFault Progress
  | directory, [] => .ok (.arrived (.found directory))
  | directory, segment :: rest =>
    if Path.isBlank segment then
      advance fs followLast directory rest
    else if segment = ".." then
      advance fs followLast directory.dropLast rest
    else
      let location := directory ++ [segment]
      match fs.get? location with
      | some .directory => advance fs followLast location rest
      | some (.file _) =>
        if rest = [] then .ok (.arrived (.found location)) else .error .notADirectory
      | some (.link target) =>
        if rest = [] ∧ ¬followLast then
          .ok (.arrived (.found location))
        else
          .ok (.atLink directory target rest)
      | none =>
        if rest.all (· = "") then .ok (.arrived (.vacant directory segment)) else .error .notFound

/-- Where a path starts that is met in a given directory. -/
def origin (directory : Location) (path : Path) : Location :=
  if path.isAbsolute then [] else directory

/-- How many links may be followed on the way along one path. -/
def maxLinks : Nat := 40

/-- Walks along segments and follows at most `links` links. -/
def walk (fs : FileSystem) (followLast : Bool) :
    (links : Nat) → (directory : Location) → (segments : List String) → Except SystemFault Place
  | links, directory, segments =>
    match fs.advance followLast directory segments with
    | .error fault => .error fault
    | .ok (.arrived place) => .ok place
    | .ok (.atLink directory target rest) =>
      match links with
      | 0 => .error .tooManyLinks
      | links + 1 =>
        if target = "" then
          .error .notFound
        else
          walk fs followLast links (origin directory ⟨target⟩) ((⟨target⟩ : Path).segments ++ rest)

/-- Where a path leads; a link at its end is followed if `followLast` says so. -/
def place (fs : FileSystem) (followLast : Bool) (path : Path) : Except SystemFault Place :=
  if path.text = "" then
    .error .notFound
  else
    fs.walk followLast maxLinks (origin fs.currentDirectory path) path.segments

/-- The location of the entry to which a path leads, past all links. -/
def locate (fs : FileSystem) (path : Path) : Except SystemFault Location :=
  match fs.place true path with
  | .ok (.found location) => .ok location
  | .ok (.vacant ..) => .error .notFound
  | .error fault => .error fault

/-- The entry to which a path leads, past all links. -/
def status (fs : FileSystem) (path : Path) : Except SystemFault Entry :=
  match fs.locate path with
  | .ok location =>
    match fs.get? location with
    | some entry => .ok entry
    | none => .error .notFound
  | .error fault => .error fault

/-- Whether a path leads to a directory. -/
def isDirectory (fs : FileSystem) (path : Path) : Bool :=
  match fs.status path with
  | .ok .directory => true
  | _ => false

/-- Whether a path leads to a file. -/
def isFile (fs : FileSystem) (path : Path) : Bool :=
  match fs.status path with
  | .ok (.file _) => true
  | _ => false

/-- The contents of the file to which a path leads. -/
def read (fs : FileSystem) (path : Path) : Except SystemFault Bytes :=
  match fs.status path with
  | .ok (.file contents) => .ok contents
  | .ok _ => .error .isADirectory
  | .error fault => .error fault

end EntryPoint.FileSystem
