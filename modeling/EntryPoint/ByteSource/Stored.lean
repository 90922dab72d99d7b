import EntryPoint.ByteSource.Basic
import EntryPoint.ClassName
import EntryPoint.FileSystem.Lookup

/-!
# Classes in directories and archives

A directory keeps each class in a file of its own, and an archive keeps it as an entry. Both are
read anew at each look-up.
-/

namespace EntryPoint

/-- The path at which a directory keeps a class. -/
def classFilePath (root : Path) (className : String) : Path :=
  root.join ⟨ClassName.classPath className⟩

/-- The bytes of a class that a directory keeps. -/
def findInDirectory (fs : FileSystem) (root : Path) (className : String) :
    Except Failure (Option ClassBytes) :=
  let path := classFilePath root className
  if fs.isFile path then
    match fs.read path with
    | .ok contents => .ok (some ⟨contents, some path⟩)
    | .error fault => .error (.access path (.system fault))
  else
    .ok none

/-- The name under which a class of an archive is known as the origin of its bytes. -/
def archiveOrigin (path : Path) (entryName : String) : Path :=
  ⟨path.text ++ "!/" ++ entryName⟩

/-- The bytes of an archive file. -/
def readArchive (fs : FileSystem) (path : Path) : Except Failure Bytes :=
  match fs.status path with
  | .ok (.file contents) => .ok contents
  | .ok _ => .error (.access path (.system .noDevice))
  | .error fault => .error (.access path (.system fault))

/-- The bytes of a class that an archive keeps; an empty file is an archive without entries. -/
def findInArchive (fs : FileSystem) (path : Path) (className : String) :
    Except Failure (Option ClassBytes) :=
  match readArchive fs path with
  | .error failure => .error failure
  | .ok [] => .ok none
  | .ok contents =>
    let entryName := ClassName.classPath className
    match Archive.find? contents entryName with
    | .ok found => .ok (found.map fun bytes => ⟨bytes, some (archiveOrigin path entryName)⟩)
    | .error (.structural fault) => .error (.archive path fault)
    | .error (.data fault) => .error (.access path (.entryData fault))

namespace ByteSource

/-- The source of the classes in a directory. -/
def ofDirectory (fs : FileSystem) (root : Path) : ByteSource :=
  ⟨findInDirectory fs root⟩

/-- The source of the classes in an archive. -/
def ofArchive (fs : FileSystem) (path : Path) : ByteSource :=
  ⟨findInArchive fs path⟩

end ByteSource

end EntryPoint
