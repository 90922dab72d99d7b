import EntryPoint.Proofs.ClassFile.Annotations
import EntryPoint.Proofs.Splitting

/-!
# The grammar of class files

The plan by which a class file is read denotes exactly the grammar of `Structure`: what it reads is
what some well-formed class file is written as, and it ends with the summary of that class file.

The file goes through the format from the inside out, first the members and attributes, which are
stepped over, then the attributes of the class, of which the two annotation tables are looked into,
and then the whole.  `parse_eq_ok_iff` is the conclusion for `parse`, which ignores what follows
the file.
-/

namespace EntryPoint.ClassFile

open Reading

/-! ## Members -/

/-- One attribute is stepped over by its declared length. -/
lemma reads_passAttribute_iff {bytes : Bytes} :
    passAttribute.Reads bytes () ↔
      ∃ item : Attribute, item.body.length < 0x100000000 ∧ bytes = item.encode := by
  unfold passAttribute
  simp only [reads_pass_bind, reads_doubleWord_bind]
  constructor
  · rintro ⟨name, _, rfl, hname, length, _, rfl, body, _, rfl, hbody, rfl, -⟩
    refine ⟨⟨word16 name, body⟩, hbody ▸ length.toNat_lt, ?_⟩
    simp [Attribute.encode, wordBytes_word16 hname, hbody]
  · rintro ⟨⟨name, body⟩, hlength, rfl⟩
    have hread : (word32 (lengthBytes body.length)).toNat = body.length :=
      toNat_word32_lengthBytes hlength
    refine ⟨wordBytes name, _, by rw [Attribute.encode, List.append_assoc], rfl,
      word32 (lengthBytes body.length), body, by rw [hread], ?_⟩
    rw [hread]
    exact ⟨body, [], (List.append_nil _).symm, rfl, rfl, rfl⟩

/-- One member is stepped over by its counted attributes. -/
lemma reads_member_iff {bytes : Bytes} :
    (do
      pass 6
      let attributes ← word
      replicate attributes.toNat passAttribute : Reading Unit).Reads bytes () ↔
      ∃ member : Member, WellFormedAttributes member.attributes ∧ bytes = member.encode := by
  simp only [reads_pass_bind,
    reads_counted_replicate_iff fun _ => reads_passAttribute_iff]
  constructor
  · rintro ⟨head, _, rfl, hhead, attributes, hcount, hformed, rfl⟩
    obtain ⟨a, b, c, d, e, f, rfl⟩ : ∃ a b c d e f, head = [a, b, c, d, e, f] := by
      match head, hhead with
      | [a, b, c, d, e, f], _ => exact ⟨a, b, c, d, e, f, rfl⟩
    refine ⟨⟨word16 [a, b], word16 [c, d], word16 [e, f], attributes⟩, ⟨hcount, hformed⟩, ?_⟩
    rw [Member.encode, wordBytes_word16 rfl, wordBytes_word16 rfl, wordBytes_word16 rfl]
    rfl
  · rintro ⟨member, ⟨hcount, hformed⟩, rfl⟩
    exact ⟨wordBytes member.access ++ wordBytes member.name ++ wordBytes member.descriptor, _, rfl,
      rfl, member.attributes, hcount, hformed, rfl⟩

/-- The fields, and the methods, are stepped over as counted members. -/
lemma reads_passMembers_iff {bytes : Bytes} :
    passMembers.Reads bytes () ↔
      ∃ members : List Member, WellFormedMembers members ∧ bytes = encodeMembers members := by
  rw [passMembers, reads_counted_replicate_iff fun _ => reads_member_iff]
  simp only [WellFormedMembers, encodeMembers, and_assoc]

/-! ## Attributes of the class -/

/-- What one attribute of the class adds to the annotations that are found before it. -/
def Attribute.Extends (pool : ConstantPool) (found : TypeAnnotations) (item : Attribute)
    (found' : TypeAnnotations) : Prop :=
  item.body.length < 0x100000000 ∧ ∃ visible invisible, item.Adds pool visible invisible ∧
    found' = ⟨found.visible ++ visible, found.invisible ++ invisible⟩

/-- A table is read into the annotations of its kind. -/
lemma reads_tableInto_iff {pool : ConstantPool} {found : Array String}
    {into : Array String → TypeAnnotations} {found' : TypeAnnotations} {bytes : Bytes} :
    (do
      let marks ← readAnnotationTable pool found
      return into marks : Reading TypeAnnotations).Reads bytes found' ↔
      ∃ table : List Annotation, table.length < 65536 ∧ (∀ mark ∈ table, mark.WellFormed) ∧
        bytes = encodeTable table ∧ ∃ descriptors, descriptorsOf pool table = .ok descriptors ∧
          found' = into (found ++ descriptors) := by
  constructor
  · intro h
    obtain ⟨_, _, _, rfl, htable, rfl, rfl⟩ := reads_bind.1 h
    obtain ⟨table, hcount, hmarks, rfl, descriptors, htypes, rfl⟩ :=
      reads_readAnnotationTable_iff.1 htable
    exact ⟨table, hcount, hmarks, List.append_nil _, descriptors, htypes, rfl⟩
  · rintro ⟨table, hcount, hmarks, rfl, descriptors, htypes, rfl⟩
    have htable : (readAnnotationTable pool found).Reads (encodeTable table)
        (found ++ descriptors) :=
      reads_readAnnotationTable_iff.2 ⟨table, hcount, hmarks, rfl, descriptors, htypes, rfl⟩
    exact reads_bind.2 ⟨_, [], _, (List.append_nil _).symm, htable, rfl, rfl⟩

/-- The body of an attribute is read by its name, and what the body does not use is ignored. -/
lemma reads_attributeBody_iff {pool : ConstantPool} {found found' : TypeAnnotations} {name : UInt16}
    {body : Bytes} :
    (∃ used unused, body = used ++ unused ∧
      (do
        let name ← settled (pool.text name)
        if name = visibleTableName then
          let visible ← readAnnotationTable pool found.visible
          return { found with visible }
        else if name = invisibleTableName then
          let invisible ← readAnnotationTable pool found.invisible
          return { found with invisible }
        else
          return found : Reading TypeAnnotations).Reads used found') ↔
      ∃ visible invisible, (⟨name, body⟩ : Attribute).Adds pool visible invisible ∧
        found' = ⟨found.visible ++ visible, found.invisible ++ invisible⟩ := by
  simp only [reads_settled_bind]
  constructor
  · rintro ⟨used, unused, rfl, text, hname, h⟩
    split_ifs at h with hvisible hinvisible
    · obtain ⟨table, hcount, hmarks, rfl, descriptors, htypes, rfl⟩ := reads_tableInto_iff.1 h
      rw [hvisible] at hname
      exact ⟨descriptors, [], .visible hname rfl hcount hmarks htypes, by simp⟩
    · obtain ⟨table, hcount, hmarks, rfl, descriptors, htypes, rfl⟩ := reads_tableInto_iff.1 h
      rw [hinvisible] at hname
      exact ⟨[], descriptors, .invisible hname rfl hcount hmarks htypes, by simp⟩
    · obtain ⟨rfl, rfl⟩ := h
      exact ⟨[], [], .other hname hvisible hinvisible, by simp⟩
  · rintro ⟨visible, invisible, hadds, rfl⟩
    have hdistinct : invisibleTableName ≠ visibleTableName := by decide
    cases hadds with
    | @visible table trailing _ hname hbody hcount hmarks htypes =>
      refine ⟨encodeTable table, trailing, hbody, visibleTableName, hname, ?_⟩
      rw [if_pos rfl]
      exact reads_tableInto_iff.2 ⟨table, hcount, hmarks, rfl, _, htypes, by simp⟩
    | @invisible table trailing _ hname hbody hcount hmarks htypes =>
      refine ⟨encodeTable table, trailing, hbody, invisibleTableName, hname, ?_⟩
      rw [if_neg hdistinct, if_pos rfl]
      exact reads_tableInto_iff.2 ⟨table, hcount, hmarks, rfl, _, htypes, by simp⟩
    | @other text hname hvisible hinvisible =>
      refine ⟨[], body, rfl, text, hname, ?_⟩
      rw [if_neg (show text ≠ visibleTableName from hvisible),
        if_neg (show text ≠ invisibleTableName from hinvisible)]
      exact ⟨rfl, by simp⟩

/-- An attribute of the class is read by its declared length, and its body by its name. -/
lemma reads_readAttribute_iff {pool : ConstantPool} {found found' : TypeAnnotations}
    {bytes : Bytes} :
    (readAttribute pool found).Reads bytes found' ↔
      ∃ item : Attribute, item.Extends pool found found' ∧ bytes = item.encode := by
  unfold readAttribute
  simp only [reads_word_bind, reads_doubleWord_bind, reads_part, reads_attributeBody_iff]
  constructor
  · rintro ⟨name, _, rfl, length, body, rfl, hlength, hadds⟩
    refine ⟨⟨name, body⟩, ⟨hlength ▸ length.toNat_lt, hadds⟩, ?_⟩
    rw [Attribute.encode, hlength, List.append_assoc]
  · rintro ⟨⟨name, body⟩, ⟨hlength, hadds⟩, rfl⟩
    have hread : (word32 (lengthBytes body.length)).toNat = body.length :=
      toNat_word32_lengthBytes hlength
    exact ⟨name, _, by rw [Attribute.encode, List.append_assoc], word32 (lengthBytes body.length),
      body, by rw [hread], hread.symm, hadds⟩

/-- A list of attributes adds what its members add, in stored order. -/
lemma linked_attributes_iff {pool : ConstantPool} {found found' : TypeAnnotations}
    {attributes : List Attribute} :
    Linked (Attribute.Extends pool) found attributes found' ↔
      (∀ item ∈ attributes, item.body.length < 0x100000000) ∧
        ∃ visible invisible, AddedBy pool attributes visible invisible ∧
          found' = ⟨found.visible ++ visible, found.invisible ++ invisible⟩ := by
  induction attributes generalizing found with
  | nil =>
    constructor
    · rintro rfl
      exact ⟨by simp, [], [], .nil, by simp⟩
    · rintro ⟨-, visible, invisible, hadded, rfl⟩
      cases hadded
      simp [Linked]
  | cons item attributes ih =>
    simp only [Linked, ih, List.forall_mem_cons]
    constructor
    · rintro ⟨_, ⟨hlength, visible, invisible, hadds, rfl⟩, hlengths, visible', invisible', hadded,
        rfl⟩
      exact ⟨⟨hlength, hlengths⟩, _, _, .cons hadds hadded, by rw [collect_append, collect_append]⟩
    · rintro ⟨⟨hlength, hlengths⟩, _, _, hadded, rfl⟩
      cases hadded with
      | @cons _ _ visible visible' invisible invisible' hadds hadded =>
        exact ⟨_, ⟨hlength, visible, invisible, hadds, rfl⟩, hlengths, visible', invisible', hadded,
          by rw [collect_append, collect_append]⟩

/-! ## Class files -/

/-- The annotations of the type are read from the attributes of the class. -/
lemma reads_readTypeAnnotations_iff {pool : ConstantPool} {bytes : Bytes}
    {annotations : List String} :
    (readTypeAnnotations pool).Reads bytes annotations ↔
      ∃ (attributes : List Attribute) (visible invisible : List String),
        WellFormedAttributes attributes ∧ bytes = encodeAttributes attributes ∧
          AddedBy pool attributes visible invisible ∧ annotations = visible ++ invisible := by
  unfold readTypeAnnotations
  simp only [reads_word_bind]
  constructor
  · rintro ⟨count, _, rfl, h⟩
    obtain ⟨_, _, found, rfl, hiterate, rfl, rfl⟩ := reads_bind.1 h
    obtain ⟨attributes, hlength, hlinked, rfl⟩ := (reads_iterate_iff
      fun _ _ _ => reads_readAttribute_iff).1 hiterate
    obtain ⟨hlengths, visible, invisible, hadded, rfl⟩ := linked_attributes_iff.1 hlinked
    refine ⟨attributes, visible, invisible, ⟨hlength ▸ count.toNat_lt, hlengths⟩, ?_, hadded,
      by simp⟩
    rw [encodeAttributes, hlength, countBytes_toNat, List.append_nil]
  · rintro ⟨attributes, visible, invisible, ⟨hlength, hlengths⟩, rfl, hadded, rfl⟩
    refine ⟨UInt16.ofNat attributes.length, _, rfl, reads_bind.2 ⟨_, [], _,
      (List.append_nil _).symm, (reads_iterate_iff fun _ _ _ => reads_readAttribute_iff).2
        ⟨attributes, ?_, linked_attributes_iff.2 ⟨hlengths, visible, invisible, hadded, rfl⟩, rfl⟩,
      rfl, by simp⟩⟩
    rw [UInt16.toNat_ofNat', Nat.mod_eq_of_lt hlength]

/-- The interface table is stepped over as counted words. -/
lemma reads_passInterfaces_iff {bytes : Bytes} :
    passInterfaces.Reads bytes () ↔
      ∃ interfaces : List UInt16, interfaces.length < 65536 ∧
        bytes = countBytes interfaces.length ++ interfaces.flatMap wordBytes := by
  have hplan : ∀ (times : ℕ) (bytes : Bytes) (value : Unit),
      (pass (times * 2)).Reads bytes value ↔
        ∃ interfaces : List UInt16, interfaces.length = times ∧ True ∧
          bytes = interfaces.flatMap wordBytes := by
    intro times bytes value
    simp only [true_and, ← length_eq_mul_two_iff]
    constructor
    · rintro ⟨_, _, rfl, hlength, rfl, -⟩
      rw [List.append_nil, hlength]
    · exact fun hlength => ⟨bytes, [], (List.append_nil _).symm, hlength, rfl, rfl⟩
  rw [passInterfaces, reads_counted_iff hplan]
  simp only [true_and]

/-- All that follows the constants is read from the rest of a class file with these constants. -/
lemma reads_readDeclaration_iff {pool : ConstantPool} {bytes : Bytes} {declared : Declaration} :
    (readDeclaration pool).Reads bytes declared ↔
      ∃ (access thisClass superClass : UInt16) (interfaces : List UInt16)
        (fields methods : List Member) (attributes : List Attribute)
        (visible invisible : List String),
        pool.className thisClass = .ok declared.slashedName ∧ interfaces.length < 65536 ∧
          WellFormedMembers fields ∧ WellFormedMembers methods ∧ WellFormedAttributes attributes ∧
            AddedBy pool attributes visible invisible ∧
              declared.annotations = visible ++ invisible ∧
                bytes = wordBytes access ++ wordBytes thisClass ++ wordBytes superClass
                  ++ countBytes interfaces.length ++ interfaces.flatMap wordBytes
                  ++ encodeMembers fields ++ encodeMembers methods
                  ++ encodeAttributes attributes := by
  unfold readDeclaration
  simp only [reads_pass_bind, reads_word_bind, reads_settled_bind]
  simp only [reads_unit_bind, reads_passInterfaces_iff, reads_passMembers_iff]
  constructor
  · rintro ⟨access, _, rfl, haccess, thisClass, _, rfl, slashed, hname, superClass, _, rfl, hsuper,
      _, _, rfl, ⟨interfaces, hinterfaces, rfl⟩, _, _, rfl, ⟨fields, hfields, rfl⟩,
      _, _, rfl, ⟨methods, hmethods, rfl⟩, h⟩
    obtain ⟨_, _, annotations, rfl, hannotations, rfl, rfl⟩ := reads_bind.1 h
    obtain ⟨attributes, visible, invisible, hattributes, rfl, hadded, rfl⟩ :=
      reads_readTypeAnnotations_iff.1 hannotations
    refine ⟨word16 access, thisClass, word16 superClass, interfaces, fields, methods, attributes,
      visible, invisible, hname, hinterfaces, hfields, hmethods, hattributes, hadded, rfl, ?_⟩
    rw [wordBytes_word16 haccess, wordBytes_word16 hsuper]
    simp only [List.append_assoc, List.append_nil]
  · rintro ⟨access, thisClass, superClass, interfaces, fields, methods, attributes, visible,
      invisible, hname, hinterfaces, hfields, hmethods, hattributes, hadded, hdeclared, rfl⟩
    simp only [List.append_assoc]
    refine ⟨wordBytes access, _, rfl, rfl, thisClass, _, rfl, _, hname, wordBytes superClass, _, rfl,
      rfl, _, _, (List.append_assoc _ _ _).symm, ⟨interfaces, hinterfaces, rfl⟩, _, _, rfl,
      ⟨fields, hfields, rfl⟩, _, _, rfl, ⟨methods, hmethods, rfl⟩, ?_⟩
    refine reads_bind.2 ⟨_, [], _, (List.append_nil _).symm, reads_readTypeAnnotations_iff.2
      ⟨attributes, visible, invisible, hattributes, rfl, hadded, hdeclared⟩, rfl, rfl⟩

/-- A pool without constants names no class. -/
lemma ne_nil_of_className_eq_ok {constants : List Constant} {index : UInt16} {name : String}
    (h : (ConstantPool.ofConstants constants).className index = .ok name) : constants ≠ [] := by
  rintro rfl
  have hslots : ∀ slot, (ConstantPool.ofConstants []).slots[index.toNat]? = some slot →
      slot = .unusable := by
    intro slot hslot
    have hmem := Array.mem_of_getElem? hslot
    simpa [ConstantPool.ofConstants, slotsOf] using hmem
  unfold ConstantPool.className at h
  split at h
  · rename_i hslot
    cases hslots _ hslot
  · cases h

/-- The first four bytes of a class file are the two halves of its mark. -/
lemma lengthBytes_magic : lengthBytes magic.toNat = countBytes 0xCAFE ++ countBytes 0xBABE := by
  decide

/-- What stands for a character is the dot if it is a slash, and else the character itself. -/
lemma standsFor_iff {c d : Char} : StandsFor c d ↔ (if c = '/' then '.' else c) = d := by
  constructor
  · intro h
    cases h with
    | slash => rfl
    | other h => rw [if_neg h]
  · rintro rfl
    split_ifs with h
    · rw [h]
      exact .slash
    · exact .other h

/-- The declared name is the stored one with a dot in place of each slash. -/
lemma isDottedForm_iff {stored declared : String} :
    IsDottedForm stored declared ↔ dotted stored = declared := by
  have hchars : IsDottedForm stored declared ↔
      (stored.toList.map fun c => if c = '/' then '.' else c) = declared.toList :=
    forall₂_iff_map_eq fun _ _ => standsFor_iff
  rw [hchars, dotted, ← String.toList_inj, String.toList_ofList]

/-- The plan for a class file reads what a well-formed class file is written as, and ends with what
that class file says about itself. -/
lemma reads_readSummary_iff {bytes : Bytes} {summary : Summary} :
    readSummary.Reads bytes summary ↔
      ∃ file : Structure, file.WellFormed ∧ bytes = file.encode ∧ file.Says summary := by
  unfold readSummary
  rw [reads_doubleWord_bind]
  constructor
  · rintro ⟨found, _, rfl, h⟩
    split_ifs at h with hmagic
    · exact h.elim
    simp only [reads_word_bind] at h
    obtain ⟨minor, _, rfl, major, _, rfl, h⟩ := h
    split_ifs at h with hversion
    · exact h.elim
    obtain ⟨_, _, pool, rfl, hpool, h⟩ := reads_bind.1 h
    obtain ⟨count, constants, hconstants, hfills, rfl, rfl⟩ := reads_pool_iff.1 hpool
    obtain ⟨_, _, declared, rfl, hdeclared, rfl, rfl⟩ := reads_bind.1 h
    obtain ⟨access, thisClass, superClass, interfaces, fields, methods, attributes, visible,
      invisible, hname, hinterfaces, hfields, hmethods, hattributes, hadded, hannotations, rfl⟩ :=
      reads_readDeclaration_iff.1 hdeclared
    have hmark : found = magic := not_not.1 hmagic
    have hsupported : minMajorVersion ≤ major ∧ major ≤ maxMajorVersion := by
      rw [not_or, UInt16.not_lt, UInt16.not_lt] at hversion
      exact hversion
    have hcount := (declaredCount_iff_fills (ne_nil_of_className_eq_ok hname)).2 hfills
    refine ⟨⟨minor, major, count, constants, access, thisClass, superClass, interfaces, fields,
      methods, attributes⟩, ⟨hsupported, hconstants, hcount, hinterfaces, hfields, hmethods,
        hattributes⟩, ?_, ?_⟩
    · simp only [Structure.encode, hmark, lengthBytes_magic, List.append_assoc, List.append_nil]
    · rw [hannotations]
      exact .intro hname (isDottedForm_iff.2 rfl) hadded
  · rintro ⟨file, hformed, rfl, hsays⟩
    cases hsays with
    | @intro stored declared visible invisible hname hdots hadded =>
    cases isDottedForm_iff.1 hdots
    have hbytes : file.encode = lengthBytes magic.toNat ++ (wordBytes file.minorVersion ++
        (wordBytes file.majorVersion ++
          ((wordBytes file.declaredCount ++ file.constants.flatMap Constant.encode) ++
            (wordBytes file.access ++ wordBytes file.thisClass ++ wordBytes file.superClass
              ++ countBytes file.interfaces.length ++ file.interfaces.flatMap wordBytes
              ++ encodeMembers file.fields ++ encodeMembers file.methods
              ++ encodeAttributes file.attributes)))) := by
      simp only [Structure.encode, lengthBytes_magic, List.append_assoc]
    have hsupported :
        ¬(file.majorVersion < minMajorVersion ∨ maxMajorVersion < file.majorVersion) := by
      rw [not_or, UInt16.not_lt, UInt16.not_lt]
      exact hformed.version
    have hfills := (declaredCount_iff_fills (ne_nil_of_className_eq_ok hname)).1
      hformed.declaredCount
    refine ⟨magic, _, hbytes, ?_⟩
    rw [if_neg (not_not.2 rfl)]
    simp only [reads_word_bind]
    refine ⟨file.minorVersion, _, rfl, file.majorVersion, _, rfl, ?_⟩
    rw [if_neg hsupported]
    refine reads_bind.2 ⟨_, _, file.pool, rfl, reads_pool_iff.2 ⟨file.declaredCount, file.constants,
      hformed.constants, hfills, rfl, rfl⟩, ?_⟩
    refine reads_bind.2 ⟨_, [], ⟨stored, visible ++ invisible⟩, (List.append_nil _).symm,
      reads_readDeclaration_iff.2 ⟨file.access, file.thisClass, file.superClass, file.interfaces,
        file.fields, file.methods, file.attributes, visible, invisible, hname, hformed.interfaces,
        hformed.fields, hformed.methods, hformed.attributes, hadded, rfl, rfl⟩, rfl, rfl⟩

/-- A byte string is accepted as a class file exactly if some well-formed class file is written as
its first bytes, and the answer is then what that class file says about itself. -/
theorem parse_eq_ok_iff (bytes : Bytes) (summary : Summary) :
    parse bytes = .ok summary ↔
      ∃ (file : Structure) (trailing : Bytes), file.WellFormed ∧
        bytes = file.encode ++ trailing ∧ file.Says summary := by
  have hparse : parse bytes = .ok summary ↔
      ∃ behind, readSummary.run (.start bytes) = .ok (summary, behind) := by
    unfold parse
    cases readSummary.run (.start bytes) with
    | error fault => simp [Except.map]
    | ok outcome =>
      obtain ⟨found, behind⟩ := outcome
      simp [Except.map]
  simp only [hparse, run_eq_ok_iff, reads_readSummary_iff]
  constructor
  · rintro ⟨behind, _, hmoves, file, hformed, rfl, hsays⟩
    exact ⟨file, behind.rest, hformed, hmoves.1, hsays⟩
  · rintro ⟨file, trailing, hformed, rfl, hsays⟩
    exact ⟨⟨file.encode.length, trailing⟩, file.encode, ⟨rfl, (Nat.zero_add _).symm⟩, file, hformed,
      rfl, hsays⟩

end EntryPoint.ClassFile
