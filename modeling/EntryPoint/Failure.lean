import EntryPoint.Archive.Content
import EntryPoint.ClassFile.Fault
import EntryPoint.FileSystem.Basic
import EntryPoint.Path

/-!
# Why an entry point is not found

Each failure is a cause with the data that it concerns. A failure that wraps a more specific one
repeats the wording of that one at the end of its own.
-/

namespace EntryPoint

/-- A reason for which a file or directory could not be used. -/
inductive AccessFault where
  /-- The file system refused. -/
  | system (fault : SystemFault)
  /-- What should be scanned is no directory. -/
  | scanOfFile
  /-- A file that should hold text is no UTF-8. -/
  | invalidText
  /-- The data of an archive's entry is no content. -/
  | entryData (fault : Archive.DataFault)
  deriving DecidableEq

/-- The wording of the reason. -/
def AccessFault.message : AccessFault → String
  | .system fault => fault.message
  | .scanOfFile => "not a directory"
  | .invalidText => "stream did not contain valid UTF-8"
  | .entryData fault => fault.message

/-- A reason for which the search for an entry point fails. -/
inductive Failure where
  | access (path : Path) (fault : AccessFault)
  | archive (path : Path) (fault : Archive.Fault)
  | classNotFound (className : String)
  /-- The bytes of a class are no class file; the origin is the file or entry that they came
  from. -/
  | malformed (className : String) (origin : Option Path) (fault : ClassFile.Fault)
  | noEntryPoint (marker : String) (examined : Nat)
  | ambiguous (marker : String) (candidates : List String)
  deriving DecidableEq

/-- The coarse category of a failure. -/
inductive FailureKind where
  | access
  | malformed
  | noEntryPoint
  | ambiguous
  deriving DecidableEq

namespace Failure

/-- The category of a failure; a class whose bytes are missing counts as an access failure. -/
def kind : Failure → FailureKind
  | access .. => .access
  | archive .. => .access
  | classNotFound _ => .access
  | malformed .. => .malformed
  | noEntryPoint .. => .noEntryPoint
  | ambiguous .. => .ambiguous

/-- The wording of the failure that a failure wraps, if it wraps one. -/
def cause? : Failure → Option String
  | access _ fault => some fault.message
  | archive _ fault => some fault.message
  | malformed _ _ fault => some fault.message
  | classNotFound _ | noEntryPoint .. | ambiguous .. => none

/-- The wording of a failure. -/
def message : Failure → String
  | access path fault => "I/O error at " ++ path.text ++ ": " ++ fault.message
  | archive path fault => "failed to read archive " ++ path.text ++ ": " ++ fault.message
  | classNotFound className => "class bytes not found on classpath: " ++ className
  | malformed className origin fault =>
    let place := match origin with
      | some path => " (" ++ path.text ++ ")"
      | none => ""
    "malformed class file for " ++ className ++ place ++ ": " ++ fault.message
  | noEntryPoint marker examined =>
    "no class annotated with " ++ marker ++ " found (" ++ toString examined
      ++ " candidates examined)"
  | ambiguous marker candidates =>
    "multiple classes annotated with " ++ marker ++ ": " ++ String.intercalate ", " candidates

end Failure

end EntryPoint
