import EntryPoint.ClassFile.Annotation

/-!
# The summary of a class file

What a class file says about itself: the name it declares, its version, and the annotations of the
type. Fields and methods are stepped over without a look into their attributes.
-/

namespace EntryPoint.ClassFile

/-- What a class file says about itself. -/
structure Summary where
  /-- The declared name, with dots between its components. -/
  className : String
  majorVersion : UInt16
  minorVersion : UInt16
  /-- Descriptors of the annotations of the type: those visible at run time first, and each group in
  stored order. -/
  annotations : List String
  deriving DecidableEq

/-- Whether the type carries an annotation with the given descriptor. -/
def Summary.carries (summary : Summary) (descriptor : String) : Bool :=
  summary.annotations.contains descriptor

/-- The first four bytes of every class file. -/
def magic : UInt32 := 0xCAFEBABE

/-- The oldest major version that is read. -/
def minMajorVersion : UInt16 := 45

/-- The newest major version that is read. -/
def maxMajorVersion : UInt16 := 70

/-- The name of the attribute that holds the annotations visible at run time. -/
def visibleTableName : String := "RuntimeVisibleAnnotations"

/-- The name of the attribute that holds the other annotations. -/
def invisibleTableName : String := "RuntimeInvisibleAnnotations"

/-- The annotations of the type found so far, in stored order within each group. -/
structure TypeAnnotations where
  visible : Array String
  invisible : Array String

/-- The name with a dot in place of each slash. -/
def dotted (slashed : String) : String :=
  String.ofList (slashed.toList.map fun c => if c = '/' then '.' else c)

/-- Steps over one attribute of a field or method. -/
def passAttribute : Reading Unit := do
  Reading.pass 2
  let length ← Reading.doubleWord
  Reading.pass length.toNat

/-- Steps over a counted list of fields or methods. -/
def passMembers : Reading Unit := do
  let count ← Reading.word
  Reading.replicate count.toNat do
    Reading.pass 6
    let attributes ← Reading.word
    Reading.replicate attributes.toNat passAttribute

/-- Reads one attribute of the class; only the two annotation tables are looked into. -/
def readAttribute (pool : ConstantPool) (found : TypeAnnotations) : Reading TypeAnnotations := do
  let name ← Reading.word
  let length ← Reading.doubleWord
  Reading.part length.toNat do
    let name ← Reading.settled (pool.text name)
    if name = visibleTableName then
      let visible ← readAnnotationTable pool found.visible
      return { found with visible }
    else if name = invisibleTableName then
      let invisible ← readAnnotationTable pool found.invisible
      return { found with invisible }
    else
      return found

/-- Reads the attributes of the class and collects the annotations of the type. -/
def readTypeAnnotations (pool : ConstantPool) : Reading (List String) := do
  let attributes ← Reading.word
  let found ← Reading.iterate (readAttribute pool) attributes.toNat ⟨#[], #[]⟩
  return (found.visible ++ found.invisible).toList

/-- Steps over the table of interfaces. -/
def passInterfaces : Reading Unit := do
  let interfaces ← Reading.word
  Reading.pass (interfaces.toNat * 2)

/-- What a class file declares behind its constants: the name of the class, with slashes between its
components, and the annotations of the type. -/
structure Declaration where
  slashedName : String
  annotations : List String

/-- Reads all that follows the constants. -/
def readDeclaration (pool : ConstantPool) : Reading Declaration := do
  Reading.pass 2
  let thisClass ← Reading.word
  let slashedName ← Reading.settled (pool.className thisClass)
  Reading.pass 2
  passInterfaces
  passMembers
  passMembers
  let annotations ← readTypeAnnotations pool
  return { slashedName, annotations }

/-- The plan by which a class file is read. -/
def readSummary : Reading Summary := do
  let found ← Reading.doubleWord
  if found ≠ magic then
    Reading.fail (.badMagic found)
  else
    let minorVersion ← Reading.word
    let majorVersion ← Reading.word
    if majorVersion < minMajorVersion ∨ maxMajorVersion < majorVersion then
      Reading.fail (.unsupportedVersion majorVersion minorVersion)
    else
      let pool ← ConstantPool.read
      let declared ← readDeclaration pool
      return {
        className := dotted declared.slashedName
        majorVersion
        minorVersion
        annotations := declared.annotations }

/-- The summary of a class file given by its bytes; bytes behind the end of the file are ignored. -/
def parse (bytes : Bytes) : Except Fault Summary :=
  (readSummary.run (.start bytes)).map Prod.fst

end EntryPoint.ClassFile
