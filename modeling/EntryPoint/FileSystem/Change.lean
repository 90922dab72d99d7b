import EntryPoint.FileSystem.Lookup

/-!
# Changing a file system

Each operation either gives the changed file system or refuses and changes nothing.
-/

namespace EntryPoint.FileSystem

/-- Makes a directory at a path that leads to nothing yet; its parent must exist. -/
def makeDirectory (fs : FileSystem) (path : Path) : Except SystemFault FileSystem :=
  match fs.place false path with
  | .ok (.vacant directory name) => .ok (fs.set (directory ++ [name]) .directory)
  | .ok (.found _) => .error .alreadyExists
  | .error fault => .error fault

/-- Makes the first of a list of directories, each of which lies in the next one of the list, and
before it those of the others that are missing. Directories that were made stay where a later one
cannot be. -/
def makeLineage : (lineage : List Path) → FileSystem → Except SystemFault Unit × FileSystem
  | [], fs => (.ok (), fs)
  | path :: parents, fs =>
    match fs.makeDirectory path with
    | .ok fs => (.ok (), fs)
    | .error .notFound =>
      match makeLineage parents fs with
      | (.error fault, fs) => (.error fault, fs)
      | (.ok (), fs) =>
        match fs.makeDirectory path with
        | .ok fs => (.ok (), fs)
        | .error fault => (if fs.isDirectory path then .ok () else .error fault, fs)
    | .error fault => (if fs.isDirectory path then .ok () else .error fault, fs)

/-- Makes a directory with its missing parents, unless it exists. -/
def makeDirectories (fs : FileSystem) (path : Path) : Except SystemFault Unit × FileSystem :=
  makeLineage path.lineage fs

/-- Writes a file, new or in place of its contents; a link at the path is followed. -/
def write (fs : FileSystem) (path : Path) (contents : Bytes) : Except SystemFault FileSystem :=
  match fs.place true path with
  | .ok (.vacant directory name) => .ok (fs.set (directory ++ [name]) (.file contents))
  | .ok (.found location) =>
    match fs.get? location with
    | some (.file _) => .ok (fs.set location (.file contents))
    | _ => .error .isADirectory
  | .error fault => .error fault

/-- Moves a file or a link to a path, where it replaces a file or a link but no directory. -/
def rename (fs : FileSystem) (source target : Path) : Except SystemFault FileSystem :=
  match fs.place false source, fs.place false target with
  | .error fault, _ => .error fault
  | .ok (.vacant ..), _ => .error .notFound
  | .ok (.found _), .error fault => .error fault
  | .ok (.found old), .ok place =>
    match fs.get? old with
    | none => .error .notFound
    | some .directory => .error .isADirectory
    | some entry =>
      match place with
      | .vacant directory name => .ok ((fs.erase old).set (directory ++ [name]) entry)
      | .found new =>
        if new = old then
          .ok fs
        else
          match fs.get? new with
          | some .directory => .error .isADirectory
          | _ => .ok ((fs.erase old).set new entry)

/-- Removes a file or a link. -/
def removeFile (fs : FileSystem) (path : Path) : Except SystemFault FileSystem :=
  match fs.place false path with
  | .ok (.found location) =>
    match fs.get? location with
    | some .directory => .error .isADirectory
    | _ => .ok (fs.erase location)
  | .ok (.vacant ..) => .error .notFound
  | .error fault => .error fault

/-- Removes a file, a link, or a directory with everything below it. -/
def removeTree (fs : FileSystem) (path : Path) : Except SystemFault FileSystem :=
  match fs.place false path with
  | .ok (.found location) => .ok (fs.eraseTree location)
  | .ok (.vacant ..) => .error .notFound
  | .error fault => .error fault

/-- Makes a symbolic link at a path that leads to nothing yet. -/
def makeLink (fs : FileSystem) (path : Path) (target : String) : Except SystemFault FileSystem :=
  match fs.place false path with
  | .ok (.vacant directory name) => .ok (fs.set (directory ++ [name]) (.link target))
  | .ok (.found _) => .error .alreadyExists
  | .error fault => .error fault

/-- The names in the directory to which a path leads, in order. -/
def list? (fs : FileSystem) (path : Path) : Option (List String) :=
  match fs.locate path with
  | .ok location =>
    match fs.get? location with
    | some .directory => some ((fs.children location).mergeSort fun a b => decide (a ≤ b))
    | _ => none
  | .error _ => none

end EntryPoint.FileSystem
