/-!
# Which classes belong to the application

The classes of the framework, and of further packages that a build excludes, are no candidates.
-/

namespace EntryPoint

/-- The framework's package, where no other is given. -/
def defaultFrameworkPackage : String := "com._7aske.grain"

/-- Keeps the classes of the application and drops those of excluded packages, of which the
framework is the first. -/
structure OwnershipFilter where
  frameworkPackage : String
  excluded : List String
  deriving DecidableEq

/-- Whether a class lies inside a package, at whatever depth: its name starts with that of the
package and a dot. -/
def inPackage (package className : String) : Bool :=
  (package.toList ++ ['.']).isPrefixOf className.toList

namespace OwnershipFilter

/-- The filter that excludes the framework alone. -/
def ofFramework (frameworkPackage : String) : OwnershipFilter :=
  ⟨frameworkPackage, [frameworkPackage]⟩

/-- Excludes a further package; an empty name and one that is already excluded change nothing. -/
def exclude (filter : OwnershipFilter) (package : String) : OwnershipFilter :=
  if package = "" ∨ package ∈ filter.excluded then
    filter
  else
    { filter with excluded := filter.excluded ++ [package] }

/-- The filter of a framework and further packages, excluded in order. -/
def ofPackages (frameworkPackage : String) (packages : List String) : OwnershipFilter :=
  packages.foldl exclude (ofFramework frameworkPackage)

/-- Whether a class may be a candidate. -/
def allows (filter : OwnershipFilter) (className : String) : Bool :=
  !filter.excluded.any fun package => inPackage package className

/-- Whether the group of a project is the framework itself, whose build gets no main class. -/
def isFrameworkProject (filter : OwnershipFilter) (groupId : String) : Bool :=
  groupId = filter.frameworkPackage

end OwnershipFilter

end EntryPoint
