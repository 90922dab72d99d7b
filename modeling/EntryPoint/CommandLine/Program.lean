import EntryPoint.CommandLine.Report
import EntryPoint.CommandLine.Settings
import EntryPoint.Emission

/-!
# The program

The program reads its arguments, carries out one command on a file system, and ends with a status
and what it printed. Only `emit` changes the file system.
-/

namespace EntryPoint.CommandLine

/-- How the program ends. -/
structure Outcome where
  status : Nat
  output : String
  errorOutput : String
  deriving DecidableEq

/-- A failure of a command: what went wrong, and the causes behind it. -/
structure CommandFailure where
  message : String
  causes : List String
  deriving DecidableEq

/-- A failure of the search, as a command reports it. -/
def CommandFailure.ofFailure (failure : Failure) : CommandFailure :=
  ⟨failure.message, failure.cause?.toList⟩

/-- Puts what the command was doing before the failure. -/
def CommandFailure.during (activity : String) (failure : CommandFailure) : CommandFailure :=
  ⟨activity, failure.message :: failure.causes⟩

/-- Lists the candidates. -/
def runList (options : Options) (environment : Environment) (fs : FileSystem) :
    Except CommandFailure Report :=
  let root := options.resolvedRoot environment
  match findClasses fs root options.ownership.allows with
  | .ok classes => .ok (.classes root classes.names)
  | .error failure =>
    .error (.during ("Failed to scan " ++ root.text) (.ofFailure failure))

/-- Shows what a class file says about itself. -/
def runInspect (file : Path) (fs : FileSystem) : Except CommandFailure Report :=
  match fs.read file with
  | .error fault => .error ⟨"Failed to read " ++ file.text, [fault.message]⟩
  | .ok contents =>
    match ClassFile.parse contents with
    | .ok summary => .ok (.summary summary)
    | .error fault => .error ⟨"Failed to parse " ++ file.text, [fault.message]⟩

/-- Resolves the entry point; the time that this took is part of the report. -/
def runResolve (options : Options) (environment : Environment) (milliseconds : Nat)
    (fs : FileSystem) : Except CommandFailure Report :=
  let source := (options.openClassPath environment fs).source fs
  match resolve fs (options.resolvedRoot environment) source options.ownership.allows
      options.search with
  | .ok resolution => .ok (.resolved resolution.entryPoint resolution.candidates.size milliseconds)
  | .error failure => .error (.ofFailure failure)

/-- Whether the project being built is the framework itself. -/
def isSkipped (options : Options) (groupId : Option String) : Bool :=
  groupId.any options.ownership.isFrameworkProject

/-- Resolves the entry point and writes the manifest, unless the framework itself is being built. -/
def runEmit (options : Options) (groupId : Option String) (environment : Environment)
    (fs : FileSystem) : Except CommandFailure Report × FileSystem :=
  let root := options.resolvedRoot environment
  if isSkipped options groupId then
    (.ok (.skipped (Manifest.filePath root)), fs)
  else
    let source := (options.openClassPath environment fs).source fs
    match resolveAndEmit fs root source options.ownership.allows options.search with
    | (.ok record, fs) =>
      (.ok (.emitted record.mainClass (Manifest.filePath root) record.digest), fs)
    | (.error failure, fs) => (.error (.ofFailure failure), fs)

/-- Carries out a command. -/
def runCommand (invocation : Invocation) (environment : Environment) (milliseconds : Nat)
    (fs : FileSystem) : Except CommandFailure Report × FileSystem :=
  match invocation.command with
  | .list => (runList invocation.options environment fs, fs)
  | .inspect file => (runInspect file fs, fs)
  | .resolve => (runResolve invocation.options environment milliseconds fs, fs)
  | .emit groupId => runEmit invocation.options groupId environment fs

/-- How the program ends after a command. -/
def Outcome.ofResult (format : OutputFormat) : Except CommandFailure Report → Outcome
  | .ok report => ⟨0, report.render format, ""⟩
  | .error failure => ⟨1, "", renderFailure failure.message failure.causes⟩

/-- How the program ends without doing any work. -/
def Outcome.ofUsageFault (fault : UsageFault) : Outcome :=
  if fault = .displayHelp then
    ⟨fault.status, usageText, ""⟩
  else
    ⟨fault.status, "", "error: " ++ fault.message ++ "\n\n" ++ usageText⟩

/-- Runs the program on its arguments, the environment and a file system; reading that took the
given time. -/
def run (arguments : List String) (environment : Environment) (milliseconds : Nat)
    (fs : FileSystem) : Outcome × FileSystem :=
  match Invocation.parse arguments with
  | .error fault => (.ofUsageFault fault, fs)
  | .ok invocation =>
    let (result, fs) := runCommand invocation environment milliseconds fs
    (.ofResult invocation.options.format result, fs)

end EntryPoint.CommandLine
