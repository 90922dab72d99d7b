import EntryPoint.Proofs.ClassFile.Constants

/-!
# What annotation tables are read from

Stepping over an element value reads exactly the bytes of a value that is nested within the allowed
number of levels (`reads_passValue_iff`).  The induction is on that number: a value holds values of
one level less, and a counted list of them is a repeated step.  A table of annotations is read from
the bytes of its annotations, and what is read adds their descriptors in stored order.
-/

namespace EntryPoint.ClassFile

/-! ## Lists of values -/

lemma encodeValues_eq_flatMap (values : List ElementValue) :
    encodeValues values = values.flatMap ElementValue.encode := by
  induction values with
  | nil => rfl
  | cons value values ih => rw [encodeValues, ih, List.flatMap_cons]

lemma encodePairs_eq_flatMap (pairs : List ElementPair) :
    encodePairs pairs = pairs.flatMap ElementPair.encode := by
  induction pairs with
  | nil => rfl
  | cons pair pairs ih => rw [encodePairs, ih, List.flatMap_cons]

lemma wellFormedValues_iff {values : List ElementValue} :
    WellFormedValues values ↔ ∀ value ∈ values, value.WellFormed := by
  induction values with
  | nil => simp [WellFormedValues]
  | cons value values ih => simp [WellFormedValues, ih]

lemma wellFormedPairs_iff {pairs : List ElementPair} :
    WellFormedPairs pairs ↔ ∀ pair ∈ pairs, pair.WellFormed := by
  induction pairs with
  | nil => simp [WellFormedPairs]
  | cons pair pairs ih => simp [WellFormedPairs, ih]

lemma heightOfValues_le_iff {values : List ElementValue} {levels : ℕ} :
    heightOfValues values ≤ levels ↔ ∀ value ∈ values, value.height ≤ levels := by
  induction values with
  | nil => simp [heightOfValues]
  | cons value values ih => simp [heightOfValues, ih]

lemma heightOfPairs_le_iff {pairs : List ElementPair} {levels : ℕ} :
    heightOfPairs pairs ≤ levels ↔ ∀ pair ∈ pairs, pair.height ≤ levels := by
  induction pairs with
  | nil => simp [heightOfPairs]
  | cons pair pairs ih => simp [heightOfPairs, ih]

/-! ## Element values -/

/-- The tags of the reader and those of the grammar agree. -/
lemma ofTag?_eq :
    ∀ tag, ElementShape.ofTag? tag =
      if tag ∈ singleTags then some .single
      else if tag = doubleTag then some .double
      else if tag = nestedTag then some .nested
      else if tag = arrayTag then some .array
      else none := by
  decide +kernel

lemma ElementValue.height_pos (value : ElementValue) : 0 < value.height := by
  cases value <;> simp [ElementValue.height]

/-- The values that can be written and are nested within a number of levels. -/
def ElementValue.Within (levels : ℕ) (value : ElementValue) : Prop :=
  value.WellFormed ∧ value.height ≤ levels

/-- The elements whose values can be written and are nested within a number of levels. -/
def ElementPair.Within (levels : ℕ) (pair : ElementPair) : Prop :=
  pair.WellFormed ∧ pair.height ≤ levels

lemma forall_within_iff {levels : ℕ} {values : List ElementValue} :
    (∀ value ∈ values, value.Within levels) ↔
      WellFormedValues values ∧ heightOfValues values ≤ levels := by
  rw [wellFormedValues_iff, heightOfValues_le_iff]
  exact forall₂_and

lemma forall_pair_within_iff {levels : ℕ} {pairs : List ElementPair} :
    (∀ pair ∈ pairs, pair.Within levels) ↔
      WellFormedPairs pairs ∧ heightOfPairs pairs ≤ levels := by
  rw [wellFormedPairs_iff, heightOfPairs_le_iff]
  exact forall₂_and

/-- If a plan steps over values within some levels, it steps over counted elements with such
values. -/
lemma reads_passPairs_iff {levels : ℕ}
    (hvalue : ∀ bytes, (passValue levels).Reads bytes () ↔
      ∃ value : ElementValue, value.Within levels ∧ bytes = value.encode) {bytes : Bytes} :
    (passPairs (passValue levels)).Reads bytes () ↔
      ∃ pairs : List ElementPair, pairs.length < 65536 ∧ (∀ pair ∈ pairs, pair.Within levels) ∧
        bytes = countBytes pairs.length ++ encodePairs pairs := by
  have hpair : ∀ bytes : Bytes,
      (do Reading.pass 2; passValue levels : Reading Unit).Reads bytes () ↔
        ∃ pair : ElementPair, pair.Within levels ∧ bytes = pair.encode := by
    intro bytes
    simp only [Reading.reads_pass_bind, hvalue]
    constructor
    · rintro ⟨name, _, rfl, hlength, value, hwithin, rfl⟩
      exact ⟨.mk (word16 name) value, hwithin, by rw [ElementPair.encode, wordBytes_word16 hlength]⟩
    · rintro ⟨⟨name, value⟩, hwithin, rfl⟩
      exact ⟨wordBytes name, value.encode, by rw [ElementPair.encode], rfl, value, hwithin, rfl⟩
  simp only [encodePairs_eq_flatMap]
  exact Reading.reads_counted_replicate_iff hpair

/-- Stepping over a value reads the bytes of a value that is nested within the allowed levels. -/
theorem reads_passValue_iff {levels : ℕ} {bytes : Bytes} :
    (passValue levels).Reads bytes () ↔
      ∃ value : ElementValue, value.Within levels ∧ bytes = value.encode := by
  induction levels generalizing bytes with
  | zero =>
    constructor
    · exact False.elim
    · rintro ⟨value, ⟨-, hheight⟩, -⟩
      have := value.height_pos
      omega
  | succ levels ih =>
    unfold passValue
    rw [Reading.reads_byte_bind]
    constructor
    · rintro ⟨tag, rest, rfl, h⟩
      rw [ofTag?_eq] at h
      split_ifs at h with hsingle hdouble hnested harray
      · obtain ⟨index, _, rfl, hlength, rfl, -⟩ := h
        refine ⟨.single tag (word16 index), ⟨hsingle, by simp [ElementValue.height]⟩, ?_⟩
        rw [ElementValue.encode, wordBytes_word16 hlength, List.append_nil]
      · subst hdouble
        obtain ⟨indices, _, rfl, hlength, rfl, -⟩ := h
        obtain ⟨a, b, c, d, rfl⟩ := List.length_eq_four.1 hlength
        refine ⟨.double (word16 [a, b]) (word16 [c, d]),
          ⟨trivial, by simp [ElementValue.height]⟩, ?_⟩
        rw [ElementValue.encode, wordBytes_word16 rfl, wordBytes_word16 rfl]
        rfl
      · subst hnested
        obtain ⟨type, _, rfl, hlength, hpairs⟩ := h
        obtain ⟨pairs, hcount, hwithin, rfl⟩ := (reads_passPairs_iff fun _ => ih).1 hpairs
        have hforall := forall_pair_within_iff.1 hwithin
        refine ⟨.nested (word16 type) pairs, ⟨⟨hcount, hforall.1⟩, ?_⟩, ?_⟩
        · rw [ElementValue.height]
          exact Nat.succ_le_succ hforall.2
        · rw [ElementValue.encode, wordBytes_word16 hlength, List.append_assoc]
      · subst harray
        obtain ⟨values, hcount, hwithin, rfl⟩ :=
          (Reading.reads_counted_replicate_iff fun _ => ih).1 h
        have hforall := forall_within_iff.1 hwithin
        refine ⟨.array values, ⟨⟨hcount, hforall.1⟩, ?_⟩, ?_⟩
        · rw [ElementValue.height]
          exact Nat.succ_le_succ hforall.2
        · rw [ElementValue.encode, encodeValues_eq_flatMap]
      · exact h.elim
    · rintro ⟨value, ⟨hformed, hheight⟩, rfl⟩
      cases value with
      | single tag index =>
        have hsingle : tag ∈ singleTags := hformed
        refine ⟨tag, wordBytes index, rfl, ?_⟩
        rw [ofTag?_eq, if_pos hsingle]
        exact ⟨wordBytes index, [], by simp, rfl, rfl, rfl⟩
      | double type name =>
        exact ⟨doubleTag, _, rfl, wordBytes type ++ wordBytes name, [], by simp, rfl, rfl, rfl⟩
      | nested type pairs =>
        rw [ElementValue.height] at hheight
        have hwithin := forall_pair_within_iff.2 ⟨hformed.2, Nat.le_of_succ_le_succ hheight⟩
        refine ⟨nestedTag, _, by rw [ElementValue.encode], wordBytes type, _, by
          rw [List.append_assoc], rfl, ?_⟩
        exact (reads_passPairs_iff fun _ => ih).2 ⟨pairs, hformed.1, hwithin, rfl⟩
      | array values =>
        rw [ElementValue.height] at hheight
        have hwithin := forall_within_iff.2 ⟨hformed.2, Nat.le_of_succ_le_succ hheight⟩
        refine ⟨arrayTag, _, by rw [ElementValue.encode], ?_⟩
        refine (Reading.reads_counted_replicate_iff fun _ => ih).2 ⟨values, hformed.1, hwithin, ?_⟩
        rw [encodeValues_eq_flatMap]

/-! ## Tables -/

/-- What one annotation adds to the descriptors that are found before it. -/
def Annotation.Extends (pool : ConstantPool) (found : Array String) (mark : Annotation)
    (found' : Array String) : Prop :=
  mark.WellFormed ∧ ∃ descriptor, pool.text mark.type = .ok descriptor ∧
    found' = found.push descriptor

/-- The descriptors of a table are those of its first annotation and of the others. -/
lemma descriptorsOf_cons {pool : ConstantPool} {mark : Annotation} {table : List Annotation}
    {descriptors : List String} :
    descriptorsOf pool (mark :: table) = .ok descriptors ↔
      ∃ first others, pool.text mark.type = .ok first ∧ descriptorsOf pool table = .ok others ∧
        descriptors = first :: others := by
  rw [descriptorsOf, List.mapM_cons]
  change ((pool.text mark.type).bind fun first =>
    (descriptorsOf pool table).bind fun others => .ok (first :: others)) = _ ↔ _
  cases pool.text mark.type <;> cases descriptorsOf pool table <;> simp [Except.bind, eq_comm]

/-- A list of annotations adds its descriptors, in stored order. -/
lemma linked_extends_iff {pool : ConstantPool} {found found' : Array String}
    {table : List Annotation} :
    Reading.Linked (fun found mark => mark.Extends pool found) found table found' ↔
      (∀ mark ∈ table, mark.WellFormed) ∧
        ∃ descriptors, descriptorsOf pool table = .ok descriptors ∧
          found' = found ++ descriptors := by
  induction table generalizing found with
  | nil =>
    constructor
    · rintro rfl
      exact ⟨by simp, [], rfl, by simp⟩
    · rintro ⟨-, descriptors, hdescriptors, rfl⟩
      cases hdescriptors
      simp [Reading.Linked]
  | cons mark table ih =>
    have hpush : ∀ (first : String) (others : List String),
        found.push first ++ others = found ++ (first :: others) :=
      fun first others => collect_append found [first] others
    simp only [Reading.Linked, ih, descriptorsOf_cons, List.forall_mem_cons]
    constructor
    · rintro ⟨_, ⟨hformed, first, hfirst, rfl⟩, htable, others, hothers, rfl⟩
      exact ⟨⟨hformed, htable⟩, _, ⟨first, others, hfirst, hothers, rfl⟩, hpush first others⟩
    · rintro ⟨⟨hformed, htable⟩, _, ⟨first, others, hfirst, hothers, rfl⟩, rfl⟩
      exact ⟨_, ⟨hformed, first, hfirst, rfl⟩, htable, others, hothers, (hpush first others).symm⟩

/-- One annotation is read from its bytes, and its descriptor is added to those found. -/
lemma reads_mark_iff {pool : ConstantPool} {found found' : Array String} {bytes : Bytes} :
    (do
      let type ← Reading.word
      let descriptor ← Reading.settled (pool.text type)
      passPairs (passValue maxLevels)
      return found.push descriptor : Reading (Array String)).Reads bytes found' ↔
      ∃ mark : Annotation, mark.Extends pool found found' ∧ bytes = mark.encode := by
  simp only [Reading.reads_word_bind, Reading.reads_settled_bind]
  constructor
  · rintro ⟨type, _, rfl, descriptor, htype, h⟩
    obtain ⟨_, _, _, rfl, hpairs, rfl, rfl⟩ := Reading.reads_bind.1 h
    obtain ⟨pairs, hcount, hwithin, rfl⟩ :=
      (reads_passPairs_iff fun _ => reads_passValue_iff).1 hpairs
    have hforall := forall_pair_within_iff.1 hwithin
    refine ⟨⟨type, pairs⟩, ⟨⟨hcount, hforall⟩, descriptor, htype, rfl⟩, ?_⟩
    unfold Annotation.encode
    rw [List.append_nil, List.append_assoc]
  · rintro ⟨⟨type, pairs⟩, ⟨⟨hcount, hforall⟩, descriptor, htype, rfl⟩, rfl⟩
    refine ⟨type, _, List.append_assoc _ _ _, descriptor, htype, ?_⟩
    refine Reading.reads_bind.2 ⟨_, [], (), (List.append_nil _).symm, ?_, rfl, rfl⟩
    exact (reads_passPairs_iff fun _ => reads_passValue_iff).2
      ⟨pairs, hcount, forall_pair_within_iff.2 hforall, rfl⟩

/-- A table is read from a count and annotations, whose descriptors are added to those found. -/
theorem reads_readAnnotationTable_iff {pool : ConstantPool} {found found' : Array String}
    {bytes : Bytes} :
    (readAnnotationTable pool found).Reads bytes found' ↔
      ∃ table : List Annotation, table.length < 65536 ∧ (∀ mark ∈ table, mark.WellFormed) ∧
        bytes = encodeTable table ∧
          ∃ descriptors, descriptorsOf pool table = .ok descriptors ∧
            found' = found ++ descriptors := by
  rw [readAnnotationTable, Reading.reads_counted_iterate_iff fun _ _ _ => reads_mark_iff]
  simp only [linked_extends_iff, encodeTable]
  refine exists_congr fun table => and_congr_right fun _ => ?_
  tauto

end EntryPoint.ClassFile
