import EntryPoint.Candidates
import EntryPoint.Scan
import EntryPoint.Selection

/-!
# Resolving the entry point

The classes below a root that belong to the application are read, and the entry point is selected
among them.
-/

namespace EntryPoint

/-- The candidates that were examined and the entry point among them. -/
structure Resolution where
  candidates : NameSet
  entryPoint : ClassFile.Summary

/-- The entry point among given candidates. -/
def resolveCandidates (source : ByteSource) (candidates : NameSet) (options : SearchOptions) :
    Except Failure ClassFile.Summary :=
  match parseCandidates source candidates options.parallel with
  | .ok classes => selectEntryPoint options classes
  | .error failure => .error failure

/-- The entry point below a root; nothing is written. -/
def resolve (fs : FileSystem) (root : Path) (source : ByteSource) (allows : String → Bool)
    (options : SearchOptions) : Except Failure Resolution :=
  match findClasses fs root allows with
  | .error failure => .error failure
  | .ok candidates =>
    match resolveCandidates source candidates options with
    | .ok entryPoint => .ok ⟨candidates, entryPoint⟩
    | .error failure => .error failure

end EntryPoint
