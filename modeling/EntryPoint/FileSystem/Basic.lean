import EntryPoint.Bytes

/-!
# File systems

A file system is a finite map from locations to entries. A location is the list of names that lead
from the root to it; the root itself is always a directory. In a well-formed file system every entry
lies in a directory.
-/

namespace EntryPoint

/-- The names that lead from the root of the file system to a place. -/
abbrev Location := List String

/-- What lies at a location. -/
inductive Entry where
  | directory
  | file (contents : Bytes)
  /-- A symbolic link; a relative target starts from the directory that holds the link. -/
  | link (target : String)
  deriving DecidableEq

/-- Whether an entry is a directory. -/
def Entry.isDirectory : Entry → Bool
  | .directory => true
  | _ => false

/-- A reason for which the file system refuses an operation. -/
inductive SystemFault where
  | notFound
  | alreadyExists
  | notADirectory
  | isADirectory
  | tooManyLinks
  | noDevice
  deriving DecidableEq

/-- The wording of a refusal, with its number. -/
def SystemFault.message : SystemFault → String
  | .notFound => "No such file or directory (os error 2)"
  | .alreadyExists => "File exists (os error 17)"
  | .noDevice => "No such device (os error 19)"
  | .notADirectory => "Not a directory (os error 20)"
  | .isADirectory => "Is a directory (os error 21)"
  | .tooManyLinks => "Too many levels of symbolic links (os error 40)"

/-- The entries of a file system and the directory from which relative paths start. -/
structure FileSystem where
  entries : List (Location × Entry)
  currentDirectory : Location
  deriving DecidableEq

namespace FileSystem

/-- The file system that holds nothing but the current directory. -/
def empty (currentDirectory : Location) : FileSystem :=
  ⟨(List.range currentDirectory.length).map fun n => (currentDirectory.take (n + 1), .directory),
    currentDirectory⟩

/-- What lies at a location. -/
def get? (fs : FileSystem) (location : Location) : Option Entry :=
  if location = [] then some .directory else fs.entries.lookup location

/-- Puts an entry at a location, in place of what lay there. -/
def set (fs : FileSystem) (location : Location) (entry : Entry) : FileSystem :=
  { fs with
    entries := (location, entry) :: fs.entries.filter fun (found, _) => decide (found ≠ location) }

/-- Removes what lies at a location. -/
def erase (fs : FileSystem) (location : Location) : FileSystem :=
  { fs with entries := fs.entries.filter fun (found, _) => decide (found ≠ location) }

/-- Removes what lies at a location and everything below it. -/
def eraseTree (fs : FileSystem) (location : Location) : FileSystem :=
  { fs with entries := fs.entries.filter fun (found, _) => !location.isPrefixOf found }

/-- What lies below a location, at any depth, with the names that lead there from it. -/
def below (fs : FileSystem) (location : Location) : List (Location × Entry) :=
  fs.entries.filterMap fun (found, entry) =>
    if location.isPrefixOf found ∧ found ≠ location then
      some (found.drop location.length, entry)
    else
      none

/-- The names in a directory. -/
def children (fs : FileSystem) (location : Location) : List String :=
  (fs.below location).filterMap fun (relative, _) =>
    match relative with
    | [name] => some name
    | _ => none

/-- A name that an entry may have in its directory. -/
def IsFileName (name : String) : Prop :=
  name ≠ "" ∧ name ≠ "." ∧ name ≠ ".." ∧ '/' ∉ name.toList

/-- No two entries share a location, names are file names, and every entry lies in a directory. -/
structure WellFormed (fs : FileSystem) : Prop where
  nodup : (fs.entries.map Prod.fst).Nodup
  ne_nil : ∀ location entry, (location, entry) ∈ fs.entries → location ≠ []
  names : ∀ location entry, (location, entry) ∈ fs.entries → ∀ name ∈ location, IsFileName name
  parent : ∀ location entry, (location, entry) ∈ fs.entries →
    fs.get? location.dropLast = some .directory
  current : fs.get? fs.currentDirectory = some .directory

end FileSystem

end EntryPoint
