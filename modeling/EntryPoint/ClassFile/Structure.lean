import EntryPoint.ClassFile.Summary
import Mathlib.Data.List.Forall2

/-!
# The structure of class files

A class file as a value, with the bytes that it is written as and the summary that it has. This is
the grammar that `parse` reads: constants, members and attributes with all their contents, also
those that a summary does not depend on.
-/

namespace EntryPoint.ClassFile

/-- A word of two bytes, the most significant first. -/
def wordBytes (word : UInt16) : Bytes :=
  [UInt8.ofNat (word.toNat / 256), UInt8.ofNat word.toNat]

/-- A number below `65536` in two bytes. -/
def countBytes (count : Nat) : Bytes :=
  wordBytes (UInt16.ofNat count)

/-- A number below `0x100000000` in four bytes. -/
def lengthBytes (length : Nat) : Bytes :=
  countBytes (length / 65536) ++ countBytes (length % 65536)

/-! ## Constants -/

/-- A constant of the pool. -/
inductive Constant where
  | text (stored : Bytes)
  | classRef (name : UInt16)
  /-- A constant of a kind that no summary refers to. -/
  | other (tag : UInt8) (body : Bytes)
  deriving DecidableEq

/-- The tags of the kinds of constant that no summary refers to, each with the length of the
body. -/
def otherKinds : List (UInt8 × Nat) :=
  [(3, 4), (4, 4), (5, 8), (6, 8), (8, 2), (9, 4), (10, 4), (11, 4), (12, 4), (15, 3), (16, 2),
    (17, 4), (18, 4), (19, 2), (20, 2)]

/-- The tags of a `long` and a `double`. -/
def wideTags : List UInt8 := [5, 6]

namespace Constant

/-- Whether a constant takes two slots. -/
def isWide : Constant → Bool
  | text _ => false
  | classRef _ => false
  | other tag _ => wideTags.contains tag

/-- The slots that a constant takes. -/
def slots : Constant → List Slot
  | text stored => [.text stored]
  | classRef name => [.classRef name]
  | other tag body => if isWide (other tag body) then [.other, .unusable] else [.other]

/-- The bytes of a constant. -/
def encode : Constant → Bytes
  | text stored => 1 :: countBytes stored.length ++ stored
  | classRef name => 7 :: wordBytes name
  | other tag body => tag :: body

/-- A constant that can be written: a text is short enough, and a body has the length of its
kind. -/
def WellFormed : Constant → Prop
  | text stored => stored.length < 65536
  | classRef _ => True
  | other tag body => otherKinds.lookup tag = some body.length

end Constant

/-- The slots of a list of constants, behind the unusable slot zero. -/
def slotsOf (constants : List Constant) : List Slot :=
  .unusable :: constants.flatMap Constant.slots

/-- The pool of a list of constants. -/
def ConstantPool.ofConstants (constants : List Constant) : ConstantPool :=
  ⟨(slotsOf constants).toArray⟩

/-- Whether a declared count fits a list of constants: it counts all slots, the slot zero included,
except that the second half of a last two-slot constant may lie beyond it. -/
def DeclaredCount (constants : List Constant) (count : UInt16) : Prop :=
  count.toNat = (slotsOf constants).length
    ∨ constants.getLast?.any Constant.isWide = true ∧ count.toNat + 1 = (slotsOf constants).length

/-! ## Annotations -/

mutual

/-- The value of an annotation's element. -/
inductive ElementValue where
  /-- A constant or a class. -/
  | single (tag : UInt8) (index : UInt16)
  /-- An enumeration constant. -/
  | double (type name : UInt16)
  | nested (type : UInt16) (pairs : List ElementPair)
  | array (values : List ElementValue)

/-- An element of an annotation: its name and its value. -/
inductive ElementPair where
  | mk (name : UInt16) (value : ElementValue)

end

/-- The tags of a constant and of a class: `B C D F I J S Z s c`. -/
def singleTags : List UInt8 := [0x42, 0x43, 0x44, 0x46, 0x49, 0x4A, 0x53, 0x5A, 0x73, 0x63]

/-- The tag of an enumeration constant. -/
def doubleTag : UInt8 := 0x65

/-- The tag of a nested annotation. -/
def nestedTag : UInt8 := 0x40

/-- The tag of an array. -/
def arrayTag : UInt8 := 0x5B

mutual

/-- The bytes of an element value. -/
def ElementValue.encode : ElementValue → Bytes
  | .single tag index => tag :: wordBytes index
  | .double type name => doubleTag :: (wordBytes type ++ wordBytes name)
  | .nested type pairs =>
    nestedTag :: (wordBytes type ++ countBytes pairs.length ++ encodePairs pairs)
  | .array values => arrayTag :: (countBytes values.length ++ encodeValues values)

/-- The bytes of an element. -/
def ElementPair.encode : ElementPair → Bytes
  | .mk name value => wordBytes name ++ value.encode

/-- The bytes of element values, one after the other. -/
def encodeValues : List ElementValue → Bytes
  | [] => []
  | value :: values => value.encode ++ encodeValues values

/-- The bytes of elements, one after the other. -/
def encodePairs : List ElementPair → Bytes
  | [] => []
  | pair :: pairs => pair.encode ++ encodePairs pairs

end

mutual

/-- How many levels of values an element value has. -/
def ElementValue.height : ElementValue → Nat
  | .single .. => 1
  | .double .. => 1
  | .nested _ pairs => heightOfPairs pairs + 1
  | .array values => heightOfValues values + 1

/-- How many levels of values an element has. -/
def ElementPair.height : ElementPair → Nat
  | .mk _ value => value.height

/-- The greatest height of element values. -/
def heightOfValues : List ElementValue → Nat
  | [] => 0
  | value :: values => max value.height (heightOfValues values)

/-- The greatest height of elements. -/
def heightOfPairs : List ElementPair → Nat
  | [] => 0
  | pair :: pairs => max pair.height (heightOfPairs pairs)

end

mutual

/-- An element value that can be written: tags fit their shapes, and lists are short enough. -/
def ElementValue.WellFormed : ElementValue → Prop
  | .single tag _ => tag ∈ singleTags
  | .double .. => True
  | .nested _ pairs => pairs.length < 65536 ∧ WellFormedPairs pairs
  | .array values => values.length < 65536 ∧ WellFormedValues values

/-- An element whose value can be written. -/
def ElementPair.WellFormed : ElementPair → Prop
  | .mk _ value => value.WellFormed

/-- Element values that can be written. -/
def WellFormedValues : List ElementValue → Prop
  | [] => True
  | value :: values => value.WellFormed ∧ WellFormedValues values

/-- Elements that can be written. -/
def WellFormedPairs : List ElementPair → Prop
  | [] => True
  | pair :: pairs => pair.WellFormed ∧ WellFormedPairs pairs

end

/-- An annotation of a table. -/
structure Annotation where
  type : UInt16
  pairs : List ElementPair

/-- The bytes of an annotation. -/
def Annotation.encode (mark : Annotation) : Bytes :=
  wordBytes mark.type ++ countBytes mark.pairs.length ++ encodePairs mark.pairs

/-- An annotation that can be written and read: its values have at most 64 levels. -/
def Annotation.WellFormed (mark : Annotation) : Prop :=
  mark.pairs.length < 65536 ∧ WellFormedPairs mark.pairs ∧ heightOfPairs mark.pairs ≤ 64

/-- The bytes of a table of annotations. -/
def encodeTable (table : List Annotation) : Bytes :=
  countBytes table.length ++ table.flatMap Annotation.encode

/-- The descriptors of the annotations of a table. -/
def descriptorsOf (pool : ConstantPool) (table : List Annotation) : Except Fault (List String) :=
  table.mapM fun mark => pool.text mark.type

/-! ## Members and attributes -/

/-- An attribute of a class, a field or a method. -/
structure Attribute where
  name : UInt16
  body : Bytes
  deriving DecidableEq

/-- The bytes of an attribute. -/
def Attribute.encode (item : Attribute) : Bytes :=
  wordBytes item.name ++ lengthBytes item.body.length ++ item.body

/-- A field or a method. -/
structure Member where
  access : UInt16
  name : UInt16
  descriptor : UInt16
  attributes : List Attribute
  deriving DecidableEq

/-- The bytes of a counted list of attributes. -/
def encodeAttributes (attributes : List Attribute) : Bytes :=
  countBytes attributes.length ++ attributes.flatMap Attribute.encode

/-- Attributes that can be written. -/
def WellFormedAttributes (attributes : List Attribute) : Prop :=
  attributes.length < 65536 ∧ ∀ item ∈ attributes, item.body.length < 0x100000000

/-- The bytes of a field or method. -/
def Member.encode (member : Member) : Bytes :=
  wordBytes member.access ++ wordBytes member.name ++ wordBytes member.descriptor
    ++ encodeAttributes member.attributes

/-- The bytes of a counted list of fields or methods. -/
def encodeMembers (members : List Member) : Bytes :=
  countBytes members.length ++ members.flatMap Member.encode

/-- Fields or methods that can be written. -/
def WellFormedMembers (members : List Member) : Prop :=
  members.length < 65536 ∧ ∀ member ∈ members, WellFormedAttributes member.attributes

/-! ## Class files -/

/-- A class file. -/
structure Structure where
  minorVersion : UInt16
  majorVersion : UInt16
  /-- The number that declares the size of the constant pool. -/
  declaredCount : UInt16
  constants : List Constant
  access : UInt16
  thisClass : UInt16
  superClass : UInt16
  interfaces : List UInt16
  fields : List Member
  methods : List Member
  attributes : List Attribute

namespace Structure

/-- The constant pool of a class file. -/
def pool (file : Structure) : ConstantPool :=
  .ofConstants file.constants

/-- The bytes of a class file. -/
def encode (file : Structure) : Bytes :=
  countBytes 0xCAFE ++ countBytes 0xBABE
    ++ wordBytes file.minorVersion ++ wordBytes file.majorVersion
    ++ wordBytes file.declaredCount ++ file.constants.flatMap Constant.encode
    ++ wordBytes file.access ++ wordBytes file.thisClass ++ wordBytes file.superClass
    ++ countBytes file.interfaces.length ++ file.interfaces.flatMap wordBytes
    ++ encodeMembers file.fields ++ encodeMembers file.methods
    ++ encodeAttributes file.attributes

/-- A class file that can be written: its version is supported, its constants fill the declared
count, and its lists are short enough. -/
structure WellFormed (file : Structure) : Prop where
  version : 45 ≤ file.majorVersion ∧ file.majorVersion ≤ 70
  constants : ∀ constant ∈ file.constants, constant.WellFormed
  declaredCount : DeclaredCount file.constants file.declaredCount
  interfaces : file.interfaces.length < 65536
  fields : WellFormedMembers file.fields
  methods : WellFormedMembers file.methods
  attributes : WellFormedAttributes file.attributes

end Structure

/-! ## Summaries -/

/-- What an attribute of a class adds to the visible and to the invisible annotations of its type: a
table with one of two names adds its descriptors, whatever follows the table in the body, and every
other attribute adds nothing. -/
inductive Attribute.Adds (pool : ConstantPool) : Attribute → List String → List String → Prop where
  | visible {item : Attribute} {table : List Annotation} {trailing : Bytes}
      {descriptors : List String} (name : pool.text item.name = .ok "RuntimeVisibleAnnotations")
      (body : item.body = encodeTable table ++ trailing) (length : table.length < 65536)
      (marks : ∀ mark ∈ table, mark.WellFormed)
      (types : descriptorsOf pool table = .ok descriptors) :
      Adds pool item descriptors []
  | invisible {item : Attribute} {table : List Annotation} {trailing : Bytes}
      {descriptors : List String} (name : pool.text item.name = .ok "RuntimeInvisibleAnnotations")
      (body : item.body = encodeTable table ++ trailing) (length : table.length < 65536)
      (marks : ∀ mark ∈ table, mark.WellFormed)
      (types : descriptorsOf pool table = .ok descriptors) :
      Adds pool item [] descriptors
  | other {item : Attribute} {found : String} (name : pool.text item.name = .ok found)
      (visible : found ≠ "RuntimeVisibleAnnotations")
      (invisible : found ≠ "RuntimeInvisibleAnnotations") :
      Adds pool item [] []

/-- What a list of attributes adds, in stored order. -/
inductive AddedBy (pool : ConstantPool) : List Attribute → List String → List String → Prop where
  | nil : AddedBy pool [] [] []
  | cons {item : Attribute} {rest : List Attribute} {visible visible' : List String}
      {invisible invisible' : List String} (head : item.Adds pool visible invisible)
      (tail : AddedBy pool rest visible' invisible') :
      AddedBy pool (item :: rest) (visible ++ visible') (invisible ++ invisible')

/-- How a character of a stored class name stands in the declared name: a slash as a dot, and every
other character as itself. -/
inductive StandsFor : Char → Char → Prop where
  | slash : StandsFor '/' '.'
  | other {c : Char} (h : c ≠ '/') : StandsFor c c

/-- A declared name against the name that is stored for it, character by character. -/
def IsDottedForm (stored declared : String) : Prop :=
  List.Forall₂ StandsFor stored.toList declared.toList

/-- What a class file says about itself: the declared form of the name that is stored for its class,
its version, and the annotations of the type, the visible ones first. -/
inductive Structure.Says (file : Structure) : Summary → Prop where
  | intro {stored declared : String} {visible invisible : List String}
      (name : file.pool.className file.thisClass = .ok stored)
      (dots : IsDottedForm stored declared)
      (annotations : AddedBy file.pool file.attributes visible invisible) :
      Says file ⟨declared, file.majorVersion, file.minorVersion, visible ++ invisible⟩

end EntryPoint.ClassFile
