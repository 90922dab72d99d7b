/-!
# Paths as they are spelt

A path is a text, and it appears in answers just as it was spelt. It is compared by components: the
names between slashes, where repeated slashes, trailing slashes and the segment `.` count for
nothing, except that a leading `.` and a leading slash anchor the path.
-/

namespace EntryPoint

/-- A path of the file system, as it is spelt. -/
structure Path where
  text : String
  deriving DecidableEq

namespace Path

/-- What a path starts from. -/
inductive Anchor where
  /-- The root of the file system. -/
  | root
  /-- The current directory, spelt out as a leading `.`. -/
  | here
  /-- The current directory, not spelt out. -/
  | free
  deriving DecidableEq

/-- The texts between slashes, empty ones included. -/
def segments (path : Path) : List String :=
  (path.text.toList.splitOn '/').map String.ofList

/-- A segment that names nothing. -/
def isBlank (segment : String) : Bool :=
  segment = "" || segment = "."

/-- The anchor of a path and the segments after it. -/
def anchored (path : Path) : Anchor × List String :=
  match path.segments with
  | "" :: segment :: rest => (.root, segment :: rest)
  | "." :: rest => (.here, rest)
  | segments => (.free, segments)

/-- The anchor of a path. -/
def anchor (path : Path) : Anchor :=
  path.anchored.1

/-- The segments after the anchor. -/
def body (path : Path) : List String :=
  path.anchored.2

/-- The names along a path, `..` among them. -/
def names (path : Path) : List String :=
  path.body.filter fun segment => !isBlank segment

/-- Whether a path starts at the root of the file system. -/
def isAbsolute (path : Path) : Bool :=
  path.anchor = .root

/-- Segments with slashes between them. -/
def spell (segments : List String) : String :=
  String.intercalate "/" segments

/-- A path from its anchor and the segments after it. -/
def ofSegments (anchor : Anchor) (segments : List String) : Path :=
  match anchor with
  | .root => ⟨"/" ++ spell segments⟩
  | .here => ⟨spell ("." :: segments)⟩
  | .free => ⟨spell segments⟩

/-- The segments up to the last one that names something. -/
def trimEnd (segments : List String) : List String :=
  (segments.reverse.dropWhile isBlank).reverse

/-- The segments from the first one that names something to the last one that does. -/
def trim (segments : List String) : List String :=
  trimEnd (segments.dropWhile isBlank)

/-- A path under another one; an absolute path stands for itself. -/
def join (base : Path) (path : Path) : Path :=
  if path.isAbsolute then
    path
  else if base.text = "" || base.text.toList.getLast? = some '/' then
    ⟨base.text ++ path.text⟩
  else
    ⟨base.text ++ "/" ++ path.text⟩

/-- The segments behind given names, which must be the next ones that name something. -/
def dropNames : (names : List String) → (segments : List String) → Option (List String)
  | [], segments => some segments
  | name :: names, segments =>
    match segments.dropWhile isBlank with
    | segment :: rest => if segment = name then dropNames names rest else none
    | [] => none

/-- Whether a path has no component at all. -/
def isTrivial (path : Path) : Bool :=
  path.anchor = .free && path.names.isEmpty

/-- What a path says beyond a base that it starts with, component by component. The remainder keeps
its spelling but for blank segments at its ends; behind a base without components the anchor
stays. -/
def relativeTo? (base path : Path) : Option String :=
  if base.isTrivial then
    some (ofSegments path.anchor (trimEnd path.body)).text
  else if base.anchor = path.anchor then
    (dropNames base.names path.body).map fun rest => spell (trim rest)
  else
    none

/-- The last name of a path, unless that is `..`. -/
def fileName? (path : Path) : Option String :=
  match path.names.getLast? with
  | some name => if name = ".." then none else some name
  | none => none

/-- The text after the last dot of a file name, if that dot is not its first character. -/
def extensionOf? (name : String) : Option String :=
  let afterDot := name.toList.reverse.takeWhile (· != '.')
  if afterDot.length + 1 < name.toList.length then
    some (String.ofList afterDot.reverse)
  else
    none

/-- The extension of the last name of a path. -/
def extension? (path : Path) : Option String :=
  path.fileName?.bind extensionOf?

/-- The path itself and the paths of the directories along it, the innermost first; the current
directory is among them only where a leading `.` spells it out. -/
def lineage (path : Path) : List Path :=
  let body := trimEnd path.body
  let shorter := (List.range body.length).filterMap fun n =>
    match (body.take (n + 1)).getLast? with
    | some last => if isBlank last then none else some (ofSegments path.anchor (body.take (n + 1)))
    | none => none
  match path.anchor with
  | .free => shorter.reverse
  | anchor => shorter.reverse ++ [ofSegments anchor []]

end Path

end EntryPoint
