import EntryPoint.Failure
import EntryPoint.FileSystem.Change
import EntryPoint.Manifest.Record

/-!
# The manifest in the file system

The manifest of a build lies in `META-INF/MANIFEST.MF` below its root. It is written to a temporary
file beside that path, which then takes the path over, so that a manifest is never half written.
-/

namespace EntryPoint.Manifest

/-- The directory of the manifest. -/
def directoryPath (root : Path) : Path :=
  root.join ⟨"META-INF"⟩

/-- The path of the manifest. -/
def filePath (root : Path) : Path :=
  (directoryPath root).join ⟨"MANIFEST.MF"⟩

/-- The path to which the manifest is written first. -/
def temporaryPath (root : Path) : Path :=
  ⟨(filePath root).text ++ ".tmp"⟩

/-- Moves the temporary file to its final path; where that fails, the temporary file is removed. -/
def publish (fs : FileSystem) (root : Path) : Except Failure Path × FileSystem :=
  match fs.rename (temporaryPath root) (filePath root) with
  | .ok fs => (.ok (filePath root), fs)
  | .error fault =>
    (.error (.access (filePath root) (.system fault)),
      match fs.removeFile (temporaryPath root) with
      | .ok fs => fs
      | .error _ => fs)

/-- Writes the manifest below a root, in place of an earlier one, and gives its path. -/
def Record.write (record : Record) (fs : FileSystem) (root : Path) :
    Except Failure Path × FileSystem :=
  match fs.makeDirectories (directoryPath root) with
  | (.error fault, fs) => (.error (.access (directoryPath root) (.system fault)), fs)
  | (.ok (), fs) =>
    match fs.write (temporaryPath root) (Bytes.ofText record.render) with
    | .error fault => (.error (.access (temporaryPath root) (.system fault)), fs)
    | .ok fs => publish fs root

/-- Reads the manifest below a root; nothing if it lacks a header. -/
def Record.read (fs : FileSystem) (root : Path) : Except Failure (Option Record) :=
  match fs.read (filePath root) with
  | .error fault => .error (.access (filePath root) (.system fault))
  | .ok contents =>
    match contents.text? with
    | some text => .ok (Record.parse? text)
    | none => .error (.access (filePath root) .invalidText)

end EntryPoint.Manifest
