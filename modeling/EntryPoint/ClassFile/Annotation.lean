import EntryPoint.ClassFile.ConstantPool

/-!
# Annotation tables

Of an annotation only the type is kept. Its element values are stepped over, and they may be nested
at most `maxLevels` deep, so that no class file can make the reader descend without a bound.
-/

namespace EntryPoint.ClassFile

/-- How many levels of element values may be nested. -/
def maxLevels : Nat := 64

/-- The shapes of an element value, as far as stepping over it goes. -/
inductive ElementShape where
  /-- A constant or a class: one index. -/
  | single
  /-- An enumeration constant: two indices. -/
  | double
  /-- An annotation: a type and pairs. -/
  | nested
  /-- An array of values. -/
  | array
  deriving DecidableEq

/-- The shape that a tag announces. -/
def ElementShape.ofTag? (tag : UInt8) : Option ElementShape :=
  match Char.ofNat tag.toNat with
  | 'B' | 'C' | 'D' | 'F' | 'I' | 'J' | 'S' | 'Z' | 's' | 'c' => some .single
  | 'e' => some .double
  | '@' => some .nested
  | '[' => some .array
  | _ => none

/-- Steps over a counted list of pairs of an element's name and its value. -/
def passPairs (passValue : Reading Unit) : Reading Unit := do
  let count ← Reading.word
  Reading.replicate count.toNat do
    Reading.pass 2
    passValue

/-- Steps over one element value whose nesting may reach the given number of levels. -/
def passValue : (levels : Nat) → Reading Unit
  | 0 => Reading.fail (.nestingTooDeep maxLevels)
  | levels + 1 => do
    let tag ← Reading.byte
    match ElementShape.ofTag? tag with
    | some .single => Reading.pass 2
    | some .double => Reading.pass 4
    | some .nested =>
      Reading.pass 2
      passPairs (passValue levels)
    | some .array =>
      let count ← Reading.word
      Reading.replicate count.toNat (passValue levels)
    | none => Reading.fail (.badElementTag tag)

/-- Reads a table of annotations and adds the descriptors of their types, in stored order. -/
def readAnnotationTable (pool : ConstantPool) (found : Array String) : Reading (Array String) := do
  let count ← Reading.word
  Reading.iterate
    (fun found => do
      let type ← Reading.word
      let descriptor ← Reading.settled (pool.text type)
      passPairs (passValue maxLevels)
      return found.push descriptor)
    count.toNat found

end EntryPoint.ClassFile
