import EntryPoint.CommandLine.Program

/-!
# The program on the machine's own files

The outer layer: it takes a picture of the files that a command line names, runs the program on the
picture, prints what it answers, and brings the machine's files in line with the changed picture.
-/

namespace EntryPoint.Machine

/-- The spelling of a location as an absolute path. -/
def spell (location : Location) : String :=
  "/" ++ Path.spell location

/-- The machine's entry at a location; a link is given by the place that it leads to in the end. -/
def entryAt (location : Location) : IO (Option Entry) := do
  let path := (← IO.currentDir) / spell location
  try
    match (← path.symlinkMetadata).type with
    | .dir => return some .directory
    | .symlink =>
      let target ← try pure (← IO.FS.realPath path).toString catch _ => pure ""
      return some (.link target)
    | _ => return some (.file (← IO.FS.readBinFile path).data.toList)
  catch _ => return none

/-- Adds everything below a directory of the machine to a picture. -/
partial def addBelow (directory : Location) (picture : FileSystem) : IO FileSystem := do
  let path := (← IO.currentDir) / spell directory
  (← path.readDir).foldlM (fun picture found => do
    let location := directory ++ [found.fileName]
    match ← entryAt location with
    | none => return picture
    | some .directory => addBelow location (picture.set location .directory)
    | some entry => return picture.set location entry) picture

/-- Adds the machine's entries along a path to a picture, and everything below the place that the
path leads to; links are followed at most `links` times. -/
partial def addPath (links : Nat) (directory : Location) (segments : List String)
    (picture : FileSystem) : IO FileSystem := do
  match segments with
  | [] => addBelow directory picture
  | segment :: rest =>
    if Path.isBlank segment then
      addPath links directory rest picture
    else if segment = ".." then
      addPath links directory.dropLast rest picture
    else
      let location := directory ++ [segment]
      match ← entryAt location with
      | none => return picture
      | some entry =>
        let picture := picture.set location entry
        match entry with
        | .directory => addPath links location rest picture
        | .file _ => return picture
        | .link target =>
          if links = 0 || target = "" then
            return picture
          else
            addPath (links - 1) [] ((⟨target⟩ : Path).segments ++ rest) picture

/-- The paths that an invocation may read. -/
def pathsOf (invocation : CommandLine.Invocation) (environment : CommandLine.Environment) :
    List Path :=
  match invocation.command with
  | .inspect file => [file]
  | _ =>
    invocation.options.resolvedRoot environment
      :: invocation.options.resolvedClassPath environment

/-- The picture of the files that a command line names. -/
def picture (arguments : List String) (environment : CommandLine.Environment) :
    IO FileSystem := do
  let here : Path := ⟨(← IO.currentDir).toString⟩
  let empty := FileSystem.empty here.names
  match CommandLine.Invocation.parse arguments with
  | .error _ => return empty
  | .ok invocation =>
    (pathsOf invocation environment).foldlM (fun picture path =>
      addPath FileSystem.maxLinks (FileSystem.origin here.names path) path.segments picture) empty

/-- Brings the machine's files in line with a changed picture. A file is written beside its path
first and then takes the path over. -/
def apply (before after : FileSystem) : IO Unit := do
  for (location, entry) in after.entries.reverse do
    if before.get? location ≠ some entry then
      match entry with
      | .directory => IO.FS.createDirAll (spell location)
      | .file contents =>
        let beside := spell location ++ ".tmp"
        IO.FS.writeBinFile beside contents.toByteArray
        IO.FS.rename beside (spell location)
      | .link _ => pure ()

/-- The variables of the environment that the program looks at. -/
def environment : IO CommandLine.Environment := do
  let names := [CommandLine.rootVariable, CommandLine.classPathVariable]
  names.filterMapM fun name => do
    return (← IO.getEnv name).map fun value => (name, value)

end EntryPoint.Machine

open EntryPoint in
/-- Runs the program. -/
def main (arguments : List String) : IO UInt32 := do
  let start ← IO.monoMsNow
  let environment ← Machine.environment
  let before ← Machine.picture arguments environment
  let elapsed := (← IO.monoMsNow) - start
  let (outcome, after) := CommandLine.run arguments environment elapsed before
  Machine.apply before after
  IO.print outcome.output
  IO.eprint outcome.errorOutput
  return UInt32.ofNat outcome.status
