import EntryPoint.ByteSource.ClassPath
import EntryPoint.CommandLine.Invocation

/-!
# Settings

Where the options leave the root or the class path open, two environment variables decide, and then
defaults.
-/

namespace EntryPoint.CommandLine

/-- The environment variables of the program. -/
abbrev Environment := List (String × String)

/-- The variable that names the root. -/
def rootVariable : String := "MAIN_CLASS_FINDER_ROOT"

/-- The variable that holds the elements of the class path, with colons between them. -/
def classPathVariable : String := "MAIN_CLASS_FINDER_CLASSPATH"

/-- The root where nothing names one. -/
def defaultRoot : Path := ⟨"target/classes"⟩

/-- The parts of a text between colons that are not empty. -/
def splitPaths (text : String) : List Path :=
  ((text.toList.splitOn ':').filter fun part => !part.isEmpty).map fun part => ⟨String.ofList part⟩

namespace Options

/-- The root: the option, or else the variable unless it is empty, or else the default. -/
def resolvedRoot (options : Options) (environment : Environment) : Path :=
  match options.root with
  | some root => root
  | none =>
    match environment.lookup rootVariable with
    | some text => if text = "" then defaultRoot else ⟨text⟩
    | none => defaultRoot

/-- The class path behind the output directory: the options, or else the variable. -/
def resolvedClassPath (options : Options) (environment : Environment) : List Path :=
  if options.classPath ≠ [] then
    options.classPath
  else
    match environment.lookup classPathVariable with
    | some text => splitPaths text
    | none => []

/-- The class path from which the bytes of classes are read. -/
def openClassPath (options : Options) (environment : Environment) (fs : FileSystem) : ClassPath :=
  .ofPaths fs (options.resolvedRoot environment) (options.resolvedClassPath environment)

/-- The filter that keeps the classes of the application. -/
def ownership (options : Options) : OwnershipFilter :=
  .ofPackages options.frameworkPackage options.excluded

/-- How the entry point is searched for. -/
def search (options : Options) : SearchOptions where
  marker := options.marker
  policy := if options.allowAmbiguous then .firstMatch else .strict
  parallel := !options.sequential

end Options

end EntryPoint.CommandLine
