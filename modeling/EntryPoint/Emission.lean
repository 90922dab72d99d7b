import EntryPoint.Manifest.Storage
import EntryPoint.Resolution

/-!
# Emitting the manifest

The entry point below a root is resolved and named in the manifest there. Nothing is written unless
it is found.
-/

namespace EntryPoint

/-- Resolves the entry point below a root and writes the manifest that names it. -/
def resolveAndEmit (fs : FileSystem) (root : Path) (source : ByteSource) (allows : String → Bool)
    (options : SearchOptions) : Except Failure Manifest.Record × FileSystem :=
  match resolve fs root source allows options with
  | .error failure => (.error failure, fs)
  | .ok resolution =>
    let record := Manifest.Record.ofMainClass resolution.entryPoint.className
    match record.write fs root with
    | (.ok _, fs) => (.ok record, fs)
    | (.error failure, fs) => (.error failure, fs)

end EntryPoint
