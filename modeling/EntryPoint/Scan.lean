import EntryPoint.ClassName
import EntryPoint.Failure
import EntryPoint.FileSystem.Lookup
import EntryPoint.NameSet

/-!
# Finding the classes of a build

A walk below a directory delivers every entry at any depth, in no order that matters: the class
files among them are put in order, component by component. Links are not followed, but a link that
is named like a class file is listed.
-/

namespace EntryPoint

/-- The extension of class files. -/
def classExtension : String := "class"

/-- Whether an entry that a walk delivers is a class file: no directory, and named like one. -/
def isClassFile (found : Location × Entry) : Bool :=
  !found.2.isDirectory
    && found.1.getLast?.bind Path.extensionOf? = some classExtension

/-- The order of locations: name by name, and a location before those below it. -/
def Location.precedes : Location → Location → Bool
  | [], _ => true
  | _ :: _, [] => false
  | a :: as, b :: bs => decide (a < b) || (decide (a = b) && precedes as bs)

/-- The class files among delivered entries, in ascending order. -/
def classFilesAmong (found : List (Location × Entry)) : List Location :=
  ((found.filter isClassFile).map Prod.fst).mergeSort Location.precedes

/-- Whether a root is spelt as standard input is by convention. -/
def Path.isStandardInput (path : Path) : Bool :=
  path.anchor = .free && path.names = ["-"]

/-- What a walk from a root, found at a location, delivers. A walk takes the root `-` for standard
input, below which nothing lies. -/
def delivered (fs : FileSystem) (root : Path) (location : Location) : List (Location × Entry) :=
  if root.isStandardInput then [] else fs.below location

/-- The path of what lies below a root along given names. -/
def Path.child (root : Path) (relative : Location) : Path :=
  root.join ⟨Path.spell relative⟩

/-- The paths of all class files below a root, which must be a directory. -/
def scanClassFiles (fs : FileSystem) (root : Path) : Except Failure (List Path) :=
  match fs.locate root with
  | .error fault => .error (.access root (.system fault))
  | .ok location =>
    match fs.get? location with
    | some .directory => .ok ((classFilesAmong (delivered fs root location)).map root.child)
    | _ => .error (.access root .scanOfFile)

/-- The names of the classes below a root that satisfy a predicate. -/
def findClasses (fs : FileSystem) (root : Path) (allows : String → Bool) :
    Except Failure NameSet :=
  match scanClassFiles fs root with
  | .error failure => .error failure
  | .ok paths => .ok (.ofList ((paths.filterMap (ClassName.ofPath? root)).filter allows))

end EntryPoint
