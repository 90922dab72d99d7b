import EntryPoint.Path

/-!
# Class names and the paths of class files

The class `a.b.C` is stored as `a/b/C.class` under the root of its class path element.
-/

namespace EntryPoint.ClassName

/-- The ending of the name of a class file. -/
def classSuffix : String := ".class"

/-- The characters without the given ones at their end; the same characters if they end
otherwise. -/
def withoutSuffix (ending cs : List Char) : List Char :=
  if ending.isSuffixOf cs then cs.take (cs.length - ending.length) else cs

/-- The characters without one leading dot. -/
def withoutLeadingDot : List Char → List Char
  | '.' :: cs => cs
  | cs => cs

/-- A dot in place of a slash of either kind. -/
def dotForSlash (c : Char) : Char :=
  if c = '/' ∨ c = '\\' then '.' else c

/-- A slash in place of a dot. -/
def slashForDot (c : Char) : Char :=
  if c = '.' then '/' else c

/-- The class that a path below the root stands for: slashes of either kind become dots, and then
one `.class` ending and one leading dot go. -/
def ofRelativePath (relative : String) : String :=
  let dotted := relative.toList.map dotForSlash
  String.ofList (withoutLeadingDot (withoutSuffix classSuffix.toList dotted))

/-- The path below the root at which a class is stored. -/
def classPath (name : String) : String :=
  String.ofList (name.toList.map slashForDot) ++ classSuffix

/-- The class that a path under a root stands for, if it is under that root. -/
def ofPath? (root path : Path) : Option String :=
  (Path.relativeTo? root path).map ofRelativePath

end EntryPoint.ClassName
