import EntryPoint.Proofs.ClassFile.Annotations
import EntryPoint.Proofs.ClassFile.Safety

/-!
# How deep element values may be nested

Stepping over an element value stops right behind it if its levels fit those that are left at the
depth where it stands. A value with more levels is refused for its depth as soon as the first level
too many is reached, before the tag there is read, so that neither the bytes of that level nor what
follows the value can be at fault (`refuses_passValue`).

The induction is on the levels left, as for values that fit. A list that holds a value with too many
levels is refused at the first such value, because those before it are stepped over.
-/

namespace EntryPoint.ClassFile

/-! ## What a plan refuses -/

namespace Reading

variable {α β γ : Type}

/-- The plan ends with the given fault on everything that starts with the given bytes. -/
def Refuses (plan : Reading α) (bytes : Bytes) (fault : Fault) : Prop :=
  ∀ offset rest, plan.run ⟨offset, bytes ++ rest⟩ = .error fault

/-- A plan that reads the given bytes does so whatever follows them. -/
lemma Reads.run_append {plan : Reading α} {bytes : Bytes} {value : α} (h : plan.Reads bytes value)
    (offset : ℕ) (rest : Bytes) :
    plan.run ⟨offset, bytes ++ rest⟩ = .ok (value, ⟨offset + bytes.length, rest⟩) :=
  run_eq_ok_iff.2 ⟨bytes, ⟨rfl, rfl⟩, h⟩

/-- What a first plan refuses is refused before a second one starts. -/
lemma Refuses.bind {plan : Reading α} {bytes : Bytes} {fault : Fault} (h : plan.Refuses bytes fault)
    (after : α → Reading β) (more : Bytes) : (plan >>= after).Refuses (bytes ++ more) fault := by
  intro offset rest
  change (plan.bind after).run _ = _
  rw [run_bind, List.append_assoc, h]

/-- What a second plan refuses behind the bytes of a first one is refused by both in a row. -/
lemma Reads.refuses_bind {plan : Reading α} {after : α → Reading β} {bytes more : Bytes} {value : α}
    {fault : Fault} (h : plan.Reads bytes value) (hafter : (after value).Refuses more fault) :
    (plan >>= after).Refuses (bytes ++ more) fault := by
  intro offset rest
  change (plan.bind after).run _ = _
  rw [run_bind, List.append_assoc, h.run_append]
  exact hafter _ rest

/-- A repeated step refuses a list at the first item that the step refuses, if the step reads the
items before it. -/
lemma refuses_replicate {step : Reading Unit} {encode : γ → Bytes} {fault : Fault} {items : List γ}
    (hstep : ∀ item ∈ items, step.Reads (encode item) () ∨ step.Refuses (encode item) fault)
    (hrefused : ∃ item ∈ items, step.Refuses (encode item) fault) :
    (replicate items.length step).Refuses (items.flatMap encode) fault := by
  induction items with
  | nil => simp at hrefused
  | cons item items ih =>
    rw [List.forall_mem_cons] at hstep
    rw [List.flatMap_cons]
    change (step >>= fun _ => replicate items.length step).Refuses _ fault
    rcases hstep.1 with hreads | hrefuses
    · refine hreads.refuses_bind ?_
      obtain ⟨other, hmem, hother⟩ := hrefused
      rcases List.mem_cons.1 hmem with rfl | hmem
      · -- a step that reads an item does not refuse it
        have hrun := hreads.run_append 0 []
        rw [hother] at hrun
        cases hrun
      · exact ih hstep.2 ⟨other, hmem, hother⟩
    · exact hrefuses.bind _ _

/-- A word is read from the two bytes that it is written as. -/
lemma reads_word (value : UInt16) : word.Reads (wordBytes value) value :=
  ⟨wordBytes value, [], (List.append_nil _).symm, rfl, rfl, (word16_wordBytes value).symm⟩

/-- A byte is read from itself. -/
lemma reads_byte (value : UInt8) : byte.Reads [value] value :=
  ⟨[value], [], rfl, rfl, rfl, by simp [Bytes.bigEndian]⟩

/-- A word that nothing depends on is passed over. -/
lemma reads_pass_word (value : UInt16) : (pass 2).Reads (wordBytes value) () :=
  ⟨wordBytes value, [], (List.append_nil _).symm, rfl, rfl, rfl⟩

/-- A repeated step behind a count refuses counted items as it refuses the items. -/
lemma refuses_counted_replicate {step : Reading Unit} {encode : γ → Bytes} {fault : Fault}
    {items : List γ} (hlength : items.length < 65536)
    (hstep : ∀ item ∈ items, step.Reads (encode item) () ∨ step.Refuses (encode item) fault)
    (hrefused : ∃ item ∈ items, step.Refuses (encode item) fault) :
    (word >>= fun count => replicate count.toNat step).Refuses
      (countBytes items.length ++ items.flatMap encode) fault := by
  refine (reads_word (UInt16.ofNat items.length)).refuses_bind ?_
  rw [UInt16.toNat_ofNat', Nat.mod_eq_of_lt hlength]
  exact refuses_replicate hstep hrefused

end Reading

/-! ## Values with too many levels -/

lemma exists_lt_height_of_values {values : List ElementValue} {levels : ℕ}
    (h : levels < heightOfValues values) : ∃ value ∈ values, levels < value.height := by
  by_contra hnone
  push Not at hnone
  exact absurd (heightOfValues_le_iff.2 hnone) (by omega)

lemma exists_lt_height_of_pairs {pairs : List ElementPair} {levels : ℕ}
    (h : levels < heightOfPairs pairs) : ∃ pair ∈ pairs, levels < pair.height := by
  by_contra hnone
  push Not at hnone
  exact absurd (heightOfPairs_le_iff.2 hnone) (by omega)

/-- If values with too many levels are refused, every value is read or refused. -/
lemma reads_or_refuses {levels : ℕ} {value : ElementValue} (hformed : value.WellFormed)
    (hdeep : levels < value.height →
      (passValue levels).Refuses value.encode (.nestingTooDeep maxLevels)) :
    (passValue levels).Reads value.encode () ∨
      (passValue levels).Refuses value.encode (.nestingTooDeep maxLevels) := by
  rcases Nat.lt_or_ge levels value.height with hheight | hheight
  · exact .inr (hdeep hheight)
  · exact .inl (reads_passValue_iff.2 ⟨value, ⟨hformed, hheight⟩, rfl⟩)

/-- If values with too many levels are refused, counted elements with such a value are. -/
lemma refuses_passPairs {levels : ℕ} {pairs : List ElementPair}
    (hdeep : ∀ value : ElementValue, value.WellFormed → levels < value.height →
      (passValue levels).Refuses value.encode (.nestingTooDeep maxLevels))
    (hlength : pairs.length < 65536) (hformed : WellFormedPairs pairs)
    (hheight : levels < heightOfPairs pairs) :
    (passPairs (passValue levels)).Refuses (countBytes pairs.length ++ encodePairs pairs)
      (.nestingTooDeep maxLevels) := by
  rw [wellFormedPairs_iff] at hformed
  rw [encodePairs_eq_flatMap]
  refine Reading.refuses_counted_replicate hlength ?_ ?_
  · rintro ⟨name, value⟩ hmem
    have hvalue : value.WellFormed := hformed _ hmem
    rw [ElementPair.encode]
    rcases reads_or_refuses hvalue (hdeep value hvalue) with hreads | hrefuses
    · exact .inl (Reading.reads_pass_bind.2 ⟨wordBytes name, value.encode, rfl, rfl, hreads⟩)
    · exact .inr ((Reading.reads_pass_word name).refuses_bind hrefuses)
  · obtain ⟨⟨name, value⟩, hmem, hlt⟩ := exists_lt_height_of_pairs hheight
    refine ⟨.mk name value, hmem, ?_⟩
    rw [ElementPair.encode]
    exact (Reading.reads_pass_word name).refuses_bind (hdeep value (hformed _ hmem) hlt)

/-- A value with more levels than are left is refused for its depth. -/
theorem refuses_passValue {levels : ℕ} {value : ElementValue} (hformed : value.WellFormed)
    (hheight : levels < value.height) :
    (passValue levels).Refuses value.encode (.nestingTooDeep maxLevels) := by
  induction levels generalizing value with
  | zero => exact fun _ _ => rfl
  | succ levels ih =>
    cases value with
    | single tag index =>
      rw [ElementValue.height] at hheight
      omega
    | double type name =>
      rw [ElementValue.height] at hheight
      omega
    | nested type pairs =>
      rw [ElementValue.height] at hheight
      rw [ElementValue.encode, List.append_assoc]
      refine (Reading.reads_byte nestedTag).refuses_bind ?_
      refine (Reading.reads_pass_word type).refuses_bind ?_
      exact refuses_passPairs (fun _ => ih) hformed.1 hformed.2 (by omega)
    | array values =>
      rw [ElementValue.height] at hheight
      rw [ElementValue.encode, encodeValues_eq_flatMap]
      have hvalues := wellFormedValues_iff.1 hformed.2
      refine (Reading.reads_byte arrayTag).refuses_bind ?_
      refine Reading.refuses_counted_replicate hformed.1 ?_ ?_
      · exact fun value hmem => reads_or_refuses (hvalues value hmem) (ih (hvalues value hmem))
      · have hlevels : levels < heightOfValues values := by omega
        obtain ⟨value, hmem, hlt⟩ := exists_lt_height_of_values hlevels
        exact ⟨value, hmem, ih (hvalues value hmem) hlt⟩

/-- Stepping over a value where some levels are left ends right behind it, or it is refused for its
depth. -/
lemma run_passValue_encode {levels : ℕ} {value : ElementValue} (hformed : value.WellFormed)
    (offset : ℕ) (rest : Bytes) :
    (passValue levels).run ⟨offset, value.encode ++ rest⟩ =
      if value.height ≤ levels then .ok ((), ⟨offset + value.encode.length, rest⟩)
      else .error (.nestingTooDeep maxLevels) := by
  split_ifs with hheight
  · have hreads : (passValue levels).Reads value.encode () :=
      reads_passValue_iff.2 ⟨value, ⟨hformed, hheight⟩, rfl⟩
    exact hreads.run_append offset rest
  · exact refuses_passValue hformed (Nat.lt_of_not_le hheight) offset rest

/-! ## Values at a depth -/

namespace Indexed

variable {α : Type}

/-- The reader that counts the depth follows the plan that counts the levels left. -/
lemma follows_passValue_at (depth : ℕ) :
    Follows (passValue maxFrames depth) (ClassFile.passValue (maxLevels - depth)) := by
  rcases Nat.le_total depth maxLevels with hdepth | hdepth
  · have hframes : maxLevels < maxFrames + depth :=
      Nat.lt_of_lt_of_le (by decide) (Nat.le_add_right _ _)
    exact follows_passValue hdepth hframes
  · rw [maxFrames, passValue, if_pos hdepth, Nat.sub_eq_zero_of_le hdepth]
    exact follows_fail _

/-- Where a plan ends, a reader that follows it ends. -/
lemma Follows.eq_of_run {reader : Reader α} {plan : Reading α} (h : Follows reader plan)
    (before ahead : Bytes) :
    reader (before ++ ahead) before.length =
      match plan.run ⟨before.length, ahead⟩ with
      | .ok (found, behind) => .value (found, behind.offset)
      | .error reason => .fault reason := by
  have hends := h (before ++ ahead) before.length (by simp)
  rw [List.drop_left] at hends
  generalize reader _ _ = outcome at hends ⊢
  generalize plan.run _ = result at hends ⊢
  rcases hends with ⟨found, -⟩ | reason
  · rfl
  · rfl

/-- At a depth, a value is stepped over exactly if its levels and those above it are no more than
there may be, whatever follows it. Otherwise it is refused for its depth, and nothing else is
stepped over. This holds of the plan, which is given the levels left, and of the reader by position,
which is given the depth. -/
theorem passValue_at_depth (depth : ℕ) :
    (∀ (value : ElementValue) (before rest : Bytes), value.WellFormed →
      (ClassFile.passValue (maxLevels - depth)).run ⟨before.length, value.encode ++ rest⟩ =
          (if depth + value.height ≤ maxLevels then
            .ok ((), ⟨before.length + value.encode.length, rest⟩)
          else
            .error (.nestingTooDeep maxLevels)) ∧
        passValue maxFrames depth (before ++ (value.encode ++ rest)) before.length =
          (if depth + value.height ≤ maxLevels then
            .value ((), before.length + value.encode.length)
          else
            .fault (.nestingTooDeep maxLevels))) ∧
      ∀ before ahead : Bytes,
        (∀ behind, (ClassFile.passValue (maxLevels - depth)).run ⟨before.length, ahead⟩ =
            .ok ((), behind) →
          ∃ value : ElementValue, value.WellFormed ∧ depth + value.height ≤ maxLevels ∧
            ahead = value.encode ++ behind.rest ∧
            behind.offset = before.length + value.encode.length) ∧
        ∀ behind, passValue maxFrames depth (before ++ ahead) before.length =
            .value ((), behind) →
          ∃ (value : ElementValue) (rest : Bytes), value.WellFormed ∧
            depth + value.height ≤ maxLevels ∧ ahead = value.encode ++ rest ∧
            behind = before.length + value.encode.length := by
  have hfits : ∀ value : ElementValue,
      depth + value.height ≤ maxLevels ↔ value.height ≤ maxLevels - depth := by
    intro value
    have hpos := value.height_pos
    omega
  have hpassed : ∀ (before ahead : Bytes) behind,
      (ClassFile.passValue (maxLevels - depth)).run ⟨before.length, ahead⟩ = .ok ((), behind) →
        ∃ value : ElementValue, value.WellFormed ∧ depth + value.height ≤ maxLevels ∧
          ahead = value.encode ++ behind.rest ∧
          behind.offset = before.length + value.encode.length := by
    intro before ahead behind hrun
    obtain ⟨_, ⟨hrest, hoffset⟩, hreads⟩ := Reading.run_eq_ok_iff.1 hrun
    obtain ⟨value, ⟨hformed, hheight⟩, rfl⟩ := reads_passValue_iff.1 hreads
    exact ⟨value, hformed, (hfits value).2 hheight, hrest, hoffset⟩
  refine ⟨fun value before rest hformed => ⟨?_, ?_⟩, fun before ahead => ⟨hpassed before ahead, ?_⟩⟩
  · simp only [run_passValue_encode hformed, hfits value]
  · simp only [(follows_passValue_at depth).eq_of_run, run_passValue_encode hformed, hfits value]
    split_ifs
    · rfl
    · rfl
  · intro behind hrun
    rw [(follows_passValue_at depth).eq_of_run] at hrun
    split at hrun
    · rename_i found reached hplan
      obtain ⟨value, hformed, hheight, hahead, hoffset⟩ := hpassed before ahead reached hplan
      cases hrun
      exact ⟨value, reached.rest, hformed, hheight, hahead, hoffset⟩
    · cases hrun

/-- An annotation of an array of one constant: three levels. -/
def markedArray : ElementValue :=
  .nested 1 [.mk 2 (.array [.single 0x42 3])]

/-- Three levels fit at the depth 61 and do not fit at the depth 62, and what was stepped over is a
value. -/
theorem passValue_at_depth_markedArray :
    markedArray.WellFormed ∧
      passValue maxFrames 61 (markedArray.encode ++ [0xFF]) 0 = .value ((), 13) ∧
      passValue maxFrames 62 (markedArray.encode ++ [0xFF]) 0 = .fault (.nestingTooDeep 64) ∧
      ∃ (value : ElementValue) (rest : Bytes), value.WellFormed ∧ 61 + value.height ≤ maxLevels ∧
        markedArray.encode ++ [0xFF] = value.encode ++ rest ∧ 13 = 0 + value.encode.length := by
  have hformed : markedArray.WellFormed :=
    ⟨by decide, ⟨by decide, show (0x42 : UInt8) ∈ singleTags by decide, trivial⟩, trivial⟩
  have hpassed : passValue maxFrames 61 (markedArray.encode ++ [0xFF]) 0 = .value ((), 13) :=
    ((passValue_at_depth 61).1 markedArray [] [0xFF] hformed).2
  refine ⟨hformed, hpassed, ((passValue_at_depth 62).1 markedArray [] [0xFF] hformed).2, ?_⟩
  exact ((passValue_at_depth 61).2 [] (markedArray.encode ++ [0xFF])).2 13 hpassed

end Indexed

end EntryPoint.ClassFile
