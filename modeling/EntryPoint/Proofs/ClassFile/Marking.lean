import EntryPoint.Proofs.ClassFile.Grammar
import EntryPoint.Proofs.ClassFile.Inspection

/-!
# The bytes of a class file that matter

Of a class file the reader looks at texts and class references, at the tags of the other constants,
at the index of the class, at all counts and lengths, at the names of the attributes of the class,
and in tables of annotations at the types and the tags. Everything else is passed over.
`Structure.Marks` says so for each part of the grammar, and the plan by which a class file is read
respects these marks (`respects_readSummary`), also where it ends with a fault.

The conclusion is that what is passed over cannot be told from the answer, and that it comprises all
bytes that the marks declare unimportant.
-/

namespace EntryPoint.ClassFile

/-! ## Marks -/

/-- The bytes of a constant. Of a constant that no summary refers to, only the tag matters. -/
def Constant.marked : Constant → MarkedBytes
  | .text stored => seen (Constant.text stored).encode
  | .classRef name => seen (Constant.classRef name).encode
  | .other tag body => seen [tag] ++ unseen body

mutual

/-- The bytes of an element value. Indices do not matter. -/
def ElementValue.marked : ElementValue → MarkedBytes
  | .single tag index => seen [tag] ++ unseen (wordBytes index)
  | .double type name => seen [doubleTag] ++ unseen (wordBytes type ++ wordBytes name)
  | .nested type pairs =>
    seen [nestedTag] ++ unseen (wordBytes type) ++ seen (countBytes pairs.length)
      ++ markedPairs pairs
  | .array values => seen (arrayTag :: countBytes values.length) ++ markedValues values

/-- The bytes of an element. Its name does not matter. -/
def ElementPair.marked : ElementPair → MarkedBytes
  | .mk name value => unseen (wordBytes name) ++ value.marked

/-- The bytes of element values, one after the other. -/
def markedValues : List ElementValue → MarkedBytes
  | [] => []
  | value :: values => value.marked ++ markedValues values

/-- The bytes of elements, one after the other. -/
def markedPairs : List ElementPair → MarkedBytes
  | [] => []
  | pair :: pairs => pair.marked ++ markedPairs pairs

end

/-- The bytes of an annotation. -/
def Annotation.marked (mark : Annotation) : MarkedBytes :=
  seen (wordBytes mark.type ++ countBytes mark.pairs.length) ++ markedPairs mark.pairs

/-- The bytes of a table of annotations. -/
def markedTable (table : List Annotation) : MarkedBytes :=
  seen (countBytes table.length) ++ table.flatMap Annotation.marked

/-- The bytes of an attribute of a field or method, of which only the length matters. -/
def Attribute.passed (item : Attribute) : MarkedBytes :=
  unseen (wordBytes item.name) ++ seen (lengthBytes item.body.length) ++ unseen item.body

/-- The bytes of a field or method. -/
def Member.marked (member : Member) : MarkedBytes :=
  unseen (wordBytes member.access ++ wordBytes member.name ++ wordBytes member.descriptor)
    ++ seen (countBytes member.attributes.length) ++ member.attributes.flatMap Attribute.passed

/-- The bytes of a counted list of fields or methods. -/
def markedMembers (members : List Member) : MarkedBytes :=
  seen (countBytes members.length) ++ members.flatMap Member.marked

/-- The body of an attribute of the class. An annotation table may be nested to any depth, unread
bytes may follow it, and it may be broken off by the end of the body. The body of every other
attribute does not matter. -/
inductive Attribute.MarksBody (pool : ConstantPool) (item : Attribute) : MarkedBytes → Prop where
  | table {table : List Annotation} {unread : Bytes} {body : MarkedBytes}
      (name : pool.text item.name = .ok visibleTableName
        ∨ pool.text item.name = .ok invisibleTableName)
      (length : table.length < 65536)
      (marks : ∀ mark ∈ table, mark.pairs.length < 65536 ∧ WellFormedPairs mark.pairs)
      (start : body <+: markedTable table ++ unseen unread) (bytes : bytesOf body = item.body) :
      MarksBody pool item body
  | other (visible : pool.text item.name ≠ .ok visibleTableName)
      (invisible : pool.text item.name ≠ .ok invisibleTableName) :
      MarksBody pool item (unseen item.body)

/-- The bytes of an attribute of the class. -/
def Attribute.Marks (pool : ConstantPool) (item : Attribute) (marked : MarkedBytes) : Prop :=
  ∃ body, item.MarksBody pool body ∧
    marked = seen (wordBytes item.name ++ lengthBytes item.body.length) ++ body

/-- The bytes of a class file. -/
def Structure.Marks (file : Structure) (marked : MarkedBytes) : Prop :=
  ∃ attributes, List.Forall₂ (Attribute.Marks file.pool) file.attributes attributes ∧
    marked = seen (countBytes 0xCAFE ++ countBytes 0xBABE
        ++ wordBytes file.minorVersion ++ wordBytes file.majorVersion
        ++ wordBytes file.declaredCount)
      ++ file.constants.flatMap Constant.marked
      ++ unseen (wordBytes file.access) ++ seen (wordBytes file.thisClass)
      ++ unseen (wordBytes file.superClass)
      ++ seen (countBytes file.interfaces.length) ++ unseen (file.interfaces.flatMap wordBytes)
      ++ markedMembers file.fields ++ markedMembers file.methods
      ++ seen (countBytes file.attributes.length) ++ attributes.flatten

/-! ## The marked bytes are those of the class file -/

/-- Items that are written as the bytes they are marked in are so one after the other. -/
lemma bytesOf_flatMap {α : Type} {mark : α → MarkedBytes} {encode : α → Bytes} {items : List α}
    (h : ∀ item ∈ items, bytesOf (mark item) = encode item) :
    bytesOf (items.flatMap mark) = items.flatMap encode := by
  induction items with
  | nil => rfl
  | cons item items ih =>
    rw [List.forall_mem_cons] at h
    rw [List.flatMap_cons, List.flatMap_cons, bytesOf_append, h.1, ih h.2]

@[simp] lemma Constant.bytesOf_marked (constant : Constant) :
    bytesOf constant.marked = constant.encode := by
  cases constant <;> simp [Constant.marked, Constant.encode]

mutual

@[simp] lemma ElementValue.bytesOf_marked : ∀ value : ElementValue,
    bytesOf value.marked = value.encode
  | .single tag index => by simp [ElementValue.marked, ElementValue.encode]
  | .double type name => by simp [ElementValue.marked, ElementValue.encode]
  | .nested type pairs => by
    simp [ElementValue.marked, ElementValue.encode, bytesOf_markedPairs pairs]
  | .array values => by
    simp [ElementValue.marked, ElementValue.encode, bytesOf_markedValues values]

@[simp] lemma ElementPair.bytesOf_marked : ∀ pair : ElementPair,
    bytesOf pair.marked = pair.encode
  | .mk name value => by
    simp [ElementPair.marked, ElementPair.encode, ElementValue.bytesOf_marked value]

@[simp] lemma bytesOf_markedValues : ∀ values : List ElementValue,
    bytesOf (markedValues values) = encodeValues values
  | [] => rfl
  | value :: values => by
    simp [markedValues, encodeValues, ElementValue.bytesOf_marked value,
      bytesOf_markedValues values]

@[simp] lemma bytesOf_markedPairs : ∀ pairs : List ElementPair,
    bytesOf (markedPairs pairs) = encodePairs pairs
  | [] => rfl
  | pair :: pairs => by
    simp [markedPairs, encodePairs, ElementPair.bytesOf_marked pair, bytesOf_markedPairs pairs]

end

@[simp] lemma Attribute.bytesOf_passed (item : Attribute) :
    bytesOf item.passed = item.encode := by
  simp [Attribute.passed, Attribute.encode]

@[simp] lemma Member.bytesOf_marked (member : Member) : bytesOf member.marked = member.encode := by
  have hattributes : bytesOf (member.attributes.flatMap Attribute.passed)
      = member.attributes.flatMap Attribute.encode :=
    bytesOf_flatMap fun item _ => item.bytesOf_passed
  simp [Member.marked, Member.encode, encodeAttributes, hattributes]

@[simp] lemma bytesOf_markedMembers (members : List Member) :
    bytesOf (markedMembers members) = encodeMembers members := by
  rw [markedMembers, encodeMembers, bytesOf_append, bytesOf_seen,
    bytesOf_flatMap fun member _ => member.bytesOf_marked]

lemma Attribute.MarksBody.bytesOf_eq {pool : ConstantPool} {item : Attribute} {body : MarkedBytes}
    (h : item.MarksBody pool body) : bytesOf body = item.body := by
  cases h with
  | table _ _ _ _ bytes => exact bytes
  | other => exact bytesOf_unseen item.body

/-- Marked attributes of the class are the bytes of the attributes. -/
lemma bytesOf_flatten {pool : ConstantPool} {attributes : List Attribute}
    {marked : List MarkedBytes} (h : List.Forall₂ (Attribute.Marks pool) attributes marked) :
    bytesOf marked.flatten = attributes.flatMap Attribute.encode := by
  induction h with
  | nil => rfl
  | cons hitem _ ih =>
    obtain ⟨body, hbody, rfl⟩ := hitem
    rw [List.flatten_cons, List.flatMap_cons, bytesOf_append, ih, bytesOf_append, bytesOf_seen,
      hbody.bytesOf_eq, Attribute.encode]

/-- The marked bytes of a class file are what it is written as. -/
lemma Structure.Marks.bytesOf_eq {file : Structure} {marked : MarkedBytes} (h : file.Marks marked) :
    bytesOf marked = file.encode := by
  obtain ⟨attributes, hattributes, rfl⟩ := h
  have hconstants : bytesOf (file.constants.flatMap Constant.marked)
      = file.constants.flatMap Constant.encode :=
    bytesOf_flatMap fun constant _ => constant.bytesOf_marked
  simp [Structure.encode, encodeAttributes, hconstants, bytesOf_flatten hattributes]

open Reading

/-! ## The constants -/

/-- Of a constant that is no text and no class reference, the reader takes the tag. -/
lemma respects_readConstant {index : ℕ} {constant : Constant} (h : constant.WellFormed) :
    (readConstant index).Respects constant.marked := by
  unfold readConstant
  cases constant with
  | text stored =>
    have hmarked : (Constant.text stored).marked
        = seen [1] ++ (seen (countBytes stored.length) ++ (seen stored ++ [])) := by
      simp [Constant.marked, Constant.encode, seen]
    have hlength : (UInt16.ofNat stored.length).toNat = stored.length := by
      rw [UInt16.toNat_ofNat', Nat.mod_eq_of_lt h]
    rw [hmarked]
    exact respects_byte_bind (respects_word_bind ⟨stored, [], rfl, hlength.symm, rfl⟩)
  | classRef name =>
    have hmarked : (Constant.classRef name).marked = seen [7] ++ (seen (wordBytes name) ++ []) := by
      simp [Constant.marked, Constant.encode, seen]
    rw [hmarked]
    exact respects_byte_bind (respects_word_bind rfl)
  | other tag body =>
    have hkind : otherKinds.lookup tag = some body.length := h
    have hkept : tag ≠ 1 ∧ tag ≠ 7 := by
      constructor <;> rintro rfl <;> cases hkind
    refine respects_byte_bind ?_
    rw [if_neg hkept.1, if_neg hkept.2, opaqueBody?_eq_lookup, hkind]
    exact (respects_pass (length_unseen body)).map _

/-- Filling slots takes of each constant what matters. -/
lemma respects_readSlots {remaining index : ℕ} {slots : Array Slot} {constants : List Constant}
    (hconstants : ∀ constant ∈ constants, constant.WellFormed) (hfills : Fills constants remaining) :
    (ConstantPool.readSlots remaining index slots).Respects
      (constants.flatMap Constant.marked) := by
  induction constants generalizing remaining index slots with
  | nil =>
    obtain rfl := fills_nil.1 hfills
    rfl
  | cons constant constants ih =>
    rw [List.forall_mem_cons] at hconstants
    cases remaining with
    | zero => cases fills_zero_iff.1 hfills
    | succ remaining =>
      rw [readSlots_succ, List.flatMap_cons]
      refine (respects_readConstant hconstants.1).bind fun found hreads => ?_
      rw [Constant.bytesOf_marked] at hreads
      obtain rfl := Reads.unique
        (reads_readConstant_iff.2 ⟨constant, hconstants.1, rfl, rfl⟩) hreads
      rw [readSlots_pooled]
      exact ih hconstants.2 (fills_cons_iff.1 hfills)

/-- A declared count counts the slots that the constants fill. -/
lemma fills_of_declaredCount {constants : List Constant} {count : UInt16}
    (h : DeclaredCount constants count) : Fills constants (count.toNat - 1) := by
  cases constants with
  | nil =>
    rcases h with hcount | ⟨hwide, -⟩
    · simp [hcount, slotsOf]
    · cases hwide
  | cons constant constants => exact (declaredCount_iff_fills (List.cons_ne_nil _ _)).1 h

/-- Reading the pool takes the count and of each constant what matters. -/
lemma respects_read_pool {constants : List Constant} {count : UInt16}
    (hconstants : ∀ constant ∈ constants, constant.WellFormed)
    (hcount : DeclaredCount constants count) :
    ConstantPool.read.Respects
      (seen (wordBytes count) ++ constants.flatMap Constant.marked) :=
  respects_word_bind ((respects_readSlots hconstants (fills_of_declaredCount hcount)).map _)

/-! ## Annotation tables -/

lemma markedValues_eq_flatMap (values : List ElementValue) :
    markedValues values = values.flatMap ElementValue.marked := by
  induction values with
  | nil => rfl
  | cons value values ih => rw [markedValues, ih, List.flatMap_cons]

lemma markedPairs_eq_flatMap (pairs : List ElementPair) :
    markedPairs pairs = pairs.flatMap ElementPair.marked := by
  induction pairs with
  | nil => rfl
  | cons pair pairs ih => rw [markedPairs, ih, List.flatMap_cons]

/-- A plan that steps over values takes of counted elements what matters. -/
lemma respects_passPairs {step : Reading Unit} {pairs : List ElementPair}
    (hlength : pairs.length < 65536)
    (hvalue : ∀ value : ElementValue, value.WellFormed → step.Respects value.marked)
    (hpairs : WellFormedPairs pairs) :
    (passPairs step).Respects (seen (countBytes pairs.length) ++ markedPairs pairs) := by
  rw [markedPairs_eq_flatMap]
  refine respects_counted_replicate hlength fun pair hpair => ?_
  obtain ⟨name, value⟩ := pair
  have hformed : (ElementPair.mk name value).WellFormed := wellFormedPairs_iff.1 hpairs _ hpair
  rw [ElementPair.marked]
  exact respects_pass_bind (length_unseen _) (hvalue value hformed)

/-- Stepping over a value takes the tags and counts in it. This holds for values that are nested too
deep as well, since what lies behind that fault does not matter. -/
lemma respects_passValue {levels : ℕ} {value : ElementValue} (h : value.WellFormed) :
    (passValue levels).Respects value.marked := by
  induction levels generalizing value with
  | zero => trivial
  | succ levels ih =>
    unfold passValue
    cases value with
    | single tag index =>
      have hsingle : tag ∈ singleTags := h
      rw [ElementValue.marked]
      refine respects_byte_bind ?_
      rw [ofTag?_eq, if_pos hsingle]
      exact respects_pass (length_unseen _)
    | double type name =>
      rw [ElementValue.marked]
      exact respects_byte_bind (respects_pass (length_unseen _))
    | nested type pairs =>
      rw [ElementValue.marked, List.append_assoc, List.append_assoc]
      exact respects_byte_bind
        (respects_pass_bind (length_unseen _) (respects_passPairs h.1 (fun _ => ih) h.2))
    | array values =>
      have hmarked : (ElementValue.array values).marked = seen [arrayTag]
          ++ (seen (countBytes values.length) ++ values.flatMap ElementValue.marked) := by
        rw [ElementValue.marked, ← markedValues_eq_flatMap]
        simp [seen]
      rw [hmarked]
      refine respects_byte_bind (respects_counted_replicate h.1 fun value hvalue => ?_)
      exact ih (wellFormedValues_iff.1 h.2 value hvalue)

/-- Reading a table takes the types of the annotations and the tags and counts in their values. -/
lemma respects_readAnnotationTable {pool : ConstantPool} {found : Array String}
    {table : List Annotation} (hlength : table.length < 65536)
    (hmarks : ∀ mark ∈ table, mark.pairs.length < 65536 ∧ WellFormedPairs mark.pairs) :
    (readAnnotationTable pool found).Respects (markedTable table) := by
  rw [markedTable, List.flatMap_def]
  refine respects_counted_iterate (List.length_map _) hlength (fun item hitem found => ?_) found
  obtain ⟨mark, hmark, rfl⟩ := List.mem_map.1 hitem
  obtain ⟨hpairs, hformed⟩ := hmarks mark hmark
  unfold Annotation.marked
  rw [seen_append, List.append_assoc]
  refine respects_word_bind (respects_settled_bind fun descriptor _ => ?_)
  exact (respects_passPairs hpairs (fun _ => respects_passValue) hformed).map _

/-! ## Members and attributes -/

/-- Stepping over an attribute takes its length. -/
lemma respects_passAttribute {item : Attribute} (h : item.body.length < 0x100000000) :
    passAttribute.Respects item.passed := by
  unfold passAttribute
  rw [Attribute.passed, List.append_assoc]
  refine respects_pass_bind (length_unseen _) (respects_doubleWord_bind (fun length hlength => ?_) h)
  exact respects_pass (by rw [length_unseen, hlength])

/-- Stepping over fields or methods takes counts and the lengths of attributes. -/
lemma respects_passMembers {members : List Member} (h : WellFormedMembers members) :
    passMembers.Respects (markedMembers members) := by
  refine respects_counted_replicate h.1 fun member hmember => ?_
  obtain ⟨hlength, hbodies⟩ := h.2 member hmember
  rw [Member.marked, List.append_assoc]
  refine respects_pass_bind (length_unseen _) ?_
  exact respects_counted_replicate hlength fun item hitem =>
    respects_passAttribute (hbodies item hitem)

/-- Reading an attribute of the class takes its name and length, and of its body what matters. -/
lemma respects_readAttribute {pool : ConstantPool} {found : TypeAnnotations} {item : Attribute}
    {marked : MarkedBytes} (hlength : item.body.length < 0x100000000)
    (hmarked : item.Marks pool marked) : (readAttribute pool found).Respects marked := by
  obtain ⟨body, hbody, rfl⟩ := hmarked
  have hbodyLength : body.length = item.body.length := by
    rw [← hbody.bytesOf_eq, length_bytesOf]
  rw [seen_append, List.append_assoc]
  refine respects_word_bind (respects_doubleWord_bind (fun length hfound => ?_) hlength)
  -- The plan for the body goes by the name; what it does not use up is the rest of the body.
  suffices hplan : ∃ whole unread, Reading.Respects (do
      let name ← settled (pool.text item.name)
      if name = visibleTableName then
        let visible ← readAnnotationTable pool found.visible
        return { found with visible }
      else if name = invisibleTableName then
        let invisible ← readAnnotationTable pool found.invisible
        return { found with invisible }
      else
        return found : Reading TypeAnnotations) whole ∧ body <+: whole ++ unread by
    exact ⟨body, [], (List.append_nil body).symm, by rw [hbodyLength, hfound], hplan,
      fun _ _ _ _ _ => rfl⟩
  cases hbody with
  | @table table unread _ hname htable hmarks hstart hbytes =>
    refine ⟨markedTable table, unseen unread, respects_settled_bind fun name hfound => ?_, hstart⟩
    split
    · exact (respects_readAnnotationTable htable hmarks).map _
    · split
      · exact (respects_readAnnotationTable htable hmarks).map _
      · rename_i hvisible hinvisible
        rw [hfound, Except.ok.injEq, Except.ok.injEq] at hname
        exact (hname.elim hvisible hinvisible).elim
  | other hvisible hinvisible =>
    refine ⟨[], unseen item.body, respects_settled_bind fun name hfound => ?_, List.prefix_refl _⟩
    rw [hfound] at hvisible hinvisible
    rw [if_neg fun h => hvisible (congrArg _ h), if_neg fun h => hinvisible (congrArg _ h)]
    rfl

/-- Reading the annotations of the type takes of each attribute of the class what matters. -/
lemma respects_readTypeAnnotations {pool : ConstantPool} {attributes : List Attribute}
    {marked : List MarkedBytes} (h : WellFormedAttributes attributes)
    (hmarked : List.Forall₂ (Attribute.Marks pool) attributes marked) :
    (readTypeAnnotations pool).Respects
      (seen (countBytes attributes.length) ++ marked.flatten) := by
  have hitems : ∀ item ∈ marked, ∀ found, (readAttribute pool found).Respects item := by
    intro item hitem found
    obtain ⟨i, hi, rfl⟩ := List.getElem_of_mem hitem
    have hlt : i < attributes.length := hmarked.length_eq ▸ hi
    exact respects_readAttribute (h.2 _ (List.getElem_mem hlt)) (hmarked.get hlt hi)
  refine respects_word_bind ?_
  rw [UInt16.toNat_ofNat', Nat.mod_eq_of_lt h.1, hmarked.length_eq]
  exact (respects_iterate hitems _).map _

/-- Stepping over the interfaces takes their number. -/
lemma respects_passInterfaces {interfaces : List UInt16} (h : interfaces.length < 65536) :
    passInterfaces.Respects
      (seen (countBytes interfaces.length) ++ unseen (interfaces.flatMap wordBytes)) := by
  refine respects_word_bind (respects_pass ?_)
  rw [UInt16.toNat_ofNat', Nat.mod_eq_of_lt h, length_unseen]
  exact length_eq_mul_two_iff.2 ⟨interfaces, rfl, rfl⟩

/-! ## Class files -/

/-- The plan for what follows the constants takes only bytes that matter. -/
lemma respects_readDeclaration {pool : ConstantPool} (access thisClass superClass : UInt16)
    {interfaces : List UInt16} {fields methods : List Member} {attributes : List Attribute}
    {marked : List MarkedBytes} (hinterfaces : interfaces.length < 65536)
    (hfields : WellFormedMembers fields) (hmethods : WellFormedMembers methods)
    (hattributes : WellFormedAttributes attributes)
    (hmarked : List.Forall₂ (Attribute.Marks pool) attributes marked) :
    (readDeclaration pool).Respects
      (unseen (wordBytes access) ++ (seen (wordBytes thisClass) ++ (unseen (wordBytes superClass)
        ++ ((seen (countBytes interfaces.length) ++ unseen (interfaces.flatMap wordBytes))
          ++ (markedMembers fields ++ (markedMembers methods
            ++ (seen (countBytes attributes.length) ++ marked.flatten))))))) := by
  refine respects_pass_bind (length_unseen _) (respects_word_bind
    (respects_settled_bind fun slashedName _ => respects_pass_bind (length_unseen _) ?_))
  refine (respects_passInterfaces hinterfaces).bind fun _ _ => ?_
  refine (respects_passMembers hfields).bind fun _ _ => ?_
  refine (respects_passMembers hmethods).bind fun _ _ => ?_
  exact (respects_readTypeAnnotations hattributes hmarked).map _

/-- The plan for a class file takes only bytes that matter. -/
theorem respects_readSummary {file : Structure} {marked : MarkedBytes} (h : file.WellFormed)
    (hmarked : file.Marks marked) : readSummary.Respects marked := by
  obtain ⟨attributes, hattributes, rfl⟩ := hmarked
  have hmagic : ∀ found : UInt32, found.toNat = magic.toNat → found = magic :=
    fun found => UInt32.toNat_inj.1
  have hsupported :
      ¬(file.majorVersion < minMajorVersion ∨ maxMajorVersion < file.majorVersion) := by
    rw [not_or, UInt16.not_lt, UInt16.not_lt]
    exact h.version
  rw [← lengthBytes_magic]
  simp only [seen_append, List.append_assoc]
  refine respects_doubleWord_bind (fun found hfound => ?_) (by decide)
  rw [hmagic found hfound, if_neg (not_not.2 rfl)]
  refine respects_word_bind (respects_word_bind ?_)
  rw [if_neg hsupported, ← List.append_assoc]
  refine (respects_read_pool h.constants h.declaredCount).bind fun pool hpool => ?_
  have hbytes : bytesOf (seen (wordBytes file.declaredCount)
      ++ file.constants.flatMap Constant.marked)
      = wordBytes file.declaredCount ++ file.constants.flatMap Constant.encode := by
    rw [bytesOf_append, bytesOf_seen,
      bytesOf_flatMap fun constant _ => constant.bytesOf_marked]
  rw [hbytes] at hpool
  obtain rfl : pool = file.pool := Reads.unique (reads_pool_iff.2 ⟨file.declaredCount,
    file.constants, h.constants, fills_of_declaredCount h.declaredCount, rfl, rfl⟩) hpool
  have hdeclaration := (respects_readDeclaration file.access file.thisClass file.superClass
    h.interfaces h.fields h.methods h.attributes hattributes).map fun declared =>
      (⟨dotted declared.slashedName, file.majorVersion, file.minorVersion, declared.annotations⟩ :
        Summary)
  simpa only [List.append_assoc] using hdeclaration

/-- The positions of a byte string that are passed over when it is read as a class file: bytes that
are stepped over, and bytes that are not reached, behind the end of the class file or behind a
fault. -/
def passedOver (bytes : Bytes) : Set ℕ :=
  {i | (readSummary.inspected bytes)[i]? = some false}

/-- What is passed over cannot be told from the answer, whether it is a summary or a fault: a byte
string of the same length that agrees in all other positions gives the same answer, and the same
positions are passed over in it. All bytes that the grammar marks as unimportant are passed over,
and so are those behind the class file. This holds of every byte string as far as it goes together
with some class file, so that it covers all that is read before a fault. -/
theorem parse_of_eq_off_passedOver :
    (∀ bytes other : Bytes, other.length = bytes.length →
      (∀ i, i ∉ passedOver bytes → other[i]? = bytes[i]?) →
        parse other = parse bytes ∧ passedOver other = passedOver bytes) ∧
    ∀ (file : Structure) (marked : MarkedBytes), file.WellFormed → file.Marks marked →
      bytesOf marked = file.encode ∧
      ∀ (bytes trailing : Bytes) (n : ℕ), bytes.take n = (file.encode ++ trailing).take n →
        ∀ i < n, i < bytes.length → (∀ byte, marked[i]? ≠ some (byte, true)) →
          i ∈ passedOver bytes := by
  constructor
  · intro bytes other hsameLength hsame
    have hagree : Agree (readSummary.inspected bytes) bytes other := by
      refine ⟨hsameLength, fun i hi => hsame i fun hpassed => ?_⟩
      have hfalse : (readSummary.inspected bytes)[i]? = some false := hpassed
      rw [hi] at hfalse
      cases hfalse
    obtain ⟨hrun, hinspected⟩ := run_of_agree hagree 0
    exact ⟨hrun, by rw [passedOver, passedOver, hinspected]⟩
  · intro file marked hformed hmarked
    refine ⟨hmarked.bytesOf_eq, fun bytes trailing n hbytes i hi hlt hunmarked => ?_⟩
    rw [← length_inspected readSummary bytes] at hlt
    cases hinspected : (readSummary.inspected bytes)[i] with
    | false => exact List.getElem?_eq_some_iff.2 ⟨hlt, hinspected⟩
    | true =>
      have hinspected := List.getElem?_eq_some_iff.2 ⟨hlt, hinspected⟩
      rw [← hmarked.bytesOf_eq] at hbytes
      obtain ⟨byte, hbyte⟩ := marked_of_inspected (respects_readSummary hformed hmarked) hbytes hi
        hinspected
      exact absurd hbyte (hunmarked byte)

/-- The start of a class file, up to an element value of no known kind. The given byte stands in a
number constant, the access flags, the superclass, an interface, the head of a field, the name and
the body of its attribute, the name of the element and behind its tag. -/
def brokenClass (byte : UInt8) : Bytes :=
  [0xCA, 0xFE, 0xBA, 0xBE, 0, 0, 0, 52]
    ++ [0, 6, 1, 0, 1, 65, 7, 0, 1, 1, 0, 25] ++ Bytes.ofText "RuntimeVisibleAnnotations"
    ++ [1, 0, 3] ++ Bytes.ofText "LM;" ++ [3, byte, byte, byte, byte]
    ++ [byte, byte, 0, 2, byte, byte, 0, 1, byte, byte]
    ++ [0, 1, byte, byte, byte, byte, byte, byte, 0, 1, byte, byte, 0, 0, 0, 1, byte, 0, 0]
    ++ [0, 1, 0, 3, 0, 0, 0, 10, 0, 1, 0, 4, 0, 1, byte, byte, 42, byte]

/-- The fault of the broken class file does not depend on the bytes that are passed over. -/
theorem parse_brokenClass :
    parse (brokenClass 7) = parse (brokenClass 0) ∧
      parse (brokenClass 0) = .error (.badElementTag 42) := by
  have hlength : (brokenClass 7).length = (brokenClass 0).length := by
    decide +kernel
  have hsame : ∀ i < (brokenClass 0).length,
      (readSummary.inspected (brokenClass 0))[i]? = some false ∨
        (brokenClass 7)[i]? = (brokenClass 0)[i]? := by
    decide +kernel
  have hparse := parse_of_eq_off_passedOver.1 (brokenClass 0) (brokenClass 7) hlength fun i hi => by
    rcases Nat.lt_or_ge i (brokenClass 0).length with hlt | hge
    · exact (hsame i hlt).resolve_left hi
    · exact (List.getElem?_eq_none (hlength ▸ hge)).trans (List.getElem?_eq_none hge).symm
  exact ⟨hparse.1, by decide +kernel⟩

end EntryPoint.ClassFile
