import EntryPoint.ClassFile.Summary
import EntryPoint.Failure

/-!
# Selecting the entry point

The entry point is the one class that carries the marker annotation. Several such classes are an
error, unless the policy is to take the smallest name.
-/

namespace EntryPoint

/-- The descriptor of the annotation that marks an entry point, where no other is given. -/
def defaultMarker : String := "Lcom/_7aske/grain/core/configuration/GrainApplication;"

/-- What to do about several annotated classes. -/
inductive SelectionPolicy where
  /-- They are an error. -/
  | strict
  /-- The one with the smallest name is taken. -/
  | firstMatch
  deriving DecidableEq

/-- How an entry point is searched for. -/
structure SearchOptions where
  marker : String
  policy : SelectionPolicy
  /-- Whether candidates are loaded all at once. -/
  parallel : Bool
  deriving DecidableEq

/-- The classes that carry a marker, in the order of their names; of equal names the one that comes
first stays first. -/
def markedClasses (marker : String) (classes : List ClassFile.Summary) :
    List ClassFile.Summary :=
  (classes.filter (·.carries marker)).mergeSort fun a b =>
    decide (a.className ≤ b.className)

/-- The entry point among summarised classes. -/
def selectEntryPoint (options : SearchOptions) (classes : List ClassFile.Summary) :
    Except Failure ClassFile.Summary :=
  match markedClasses options.marker classes, options.policy with
  | [], _ => .error (.noEntryPoint options.marker classes.length)
  | [only], _ => .ok only
  | first :: _, .firstMatch => .ok first
  | marked, .strict => .error (.ambiguous options.marker (marked.map (·.className)))

end EntryPoint
