import EntryPoint.ByteSource.Stored

/-!
# Class paths

A class path is the output directory and, after it, the elements that were directories or archives
when they were added. The first element that has a class wins.
-/

namespace EntryPoint

/-- An element of a class path. -/
inductive ClassPathElement where
  | directory (path : Path)
  | archive (path : Path)
  deriving DecidableEq

/-- The elements that are asked for a class, in order. -/
structure ClassPath where
  elements : List ClassPathElement
  deriving DecidableEq

/-- The extensions of archives. -/
def archiveExtensions : List String := ["jar", "zip"]

/-- What a path is as an element of a class path: a directory, a file named like an archive, or
nothing. -/
def ClassPathElement.ofPath? (fs : FileSystem) (path : Path) : Option ClassPathElement :=
  if fs.isDirectory path then
    some (.directory path)
  else if fs.isFile path && path.extension?.any archiveExtensions.contains then
    some (.archive path)
  else
    none

/-- The source of the classes of an element. -/
def ClassPathElement.source (fs : FileSystem) : ClassPathElement → ByteSource
  | directory path => .ofDirectory fs path
  | archive path => .ofArchive fs path

namespace ClassPath

/-- The class path of an output directory alone. -/
def ofOutput (output : Path) : ClassPath :=
  ⟨[.directory output]⟩

/-- Adds a path at the end, unless it is neither a directory nor an archive. -/
def add (fs : FileSystem) (classPath : ClassPath) (path : Path) : ClassPath :=
  match ClassPathElement.ofPath? fs path with
  | some element => ⟨classPath.elements ++ [element]⟩
  | none => classPath

/-- The class path of an output directory and further paths. -/
def ofPaths (fs : FileSystem) (output : Path) (paths : List Path) : ClassPath :=
  paths.foldl (add fs) (ofOutput output)

/-- The number of elements, the output directory included. -/
def size (classPath : ClassPath) : Nat :=
  classPath.elements.length

/-- The source of the classes of all elements, as the file system is at look-up. -/
def source (fs : FileSystem) (classPath : ClassPath) : ByteSource :=
  .firstOf (classPath.elements.map (·.source fs))

end ClassPath

end EntryPoint
