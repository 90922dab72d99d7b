import EntryPoint.ClassFile.Indexed
import EntryPoint.Proofs.ClassFile.Constants

/-!
# No class file makes the reader crash

Reading by position follows the plan of reads: from a position within its buffer it ends with the
value of the plan, again at a position within the buffer, or with the fault of the plan (`Follows`).
A crash is neither, so there is none. Three bounds carry this through the loops. The index of a slot
stays at or below the declared count, unless a wide constant has taken it past the count; a value at
a depth has a frame for each level that is left; and the position in a text is at most its length.
-/

namespace EntryPoint.ClassFile.Indexed

variable {α β : Type}

/-! ## Following a plan -/

/-- Whether an outcome at a position in a buffer is that of a plan at the cursor there. -/
inductive Ends (buffer : Bytes) : Outcome (α × ℕ) → Except Fault (α × Cursor) → Prop where
  | value (found : α) {position : ℕ} (h : position ≤ buffer.length) :
    Ends buffer (.value (found, position)) (.ok (found, ⟨position, buffer.drop position⟩))
  | fault (reason : Fault) : Ends buffer (.fault reason) (.error reason)

/-- Whether a reader ends as a plan does, from each position within a buffer. -/
def Follows (reader : Reader α) (plan : Reading α) : Prop :=
  ∀ buffer position, position ≤ buffer.length →
    Ends buffer (reader buffer position) (plan.run ⟨position, buffer.drop position⟩)

lemma follows_done (found : α) : Follows (pure found) (pure found) :=
  fun _ _ h => .value found h

lemma follows_fail (reason : Fault) :
    Follows (Reader.fail reason : Reader α) (Reading.fail reason) :=
  fun _ _ _ => .fault reason

/-- What is settled is neither read nor does it crash. -/
lemma follows_lift (settlement : Except Fault α) :
    Follows (Reader.lift (.ofExcept settlement)) (Reading.settled settlement) := by
  rcases settlement with reason | found
  · exact follows_fail reason
  · exact follows_done found

/-- Readers in a row follow plans in a row. -/
lemma Follows.bind {reader : Reader α} {plan : Reading α} {next : α → Reader β}
    {after : α → Reading β} (h : Follows reader plan)
    (hnext : ∀ found, Follows (next found) (after found)) :
    Follows (reader >>= next) (plan >>= after) := by
  intro buffer position hposition
  change Ends buffer (Outcome.bind (reader buffer position) _) ((plan.bind after).run _)
  rw [Reading.run_bind]
  have hends := h buffer position hposition
  generalize reader buffer position = outcome at hends ⊢
  generalize plan.run _ = result at hends ⊢
  rcases hends with ⟨found, hbehind⟩ | reason
  · exact hnext found buffer _ hbehind
  · exact .fault reason

/-- Bytes are taken if enough of them are left, and then there are as many as were asked for. -/
lemma follows_take_bind {n : ℕ} {next : Bytes → Reader β} {after : Bytes → Reading β}
    (hnext : ∀ bytes : Bytes, bytes.length = n → Follows (next bytes) (after bytes)) :
    Follows (Reader.take n >>= next) (Reading.bytes n >>= after) := by
  intro buffer position hposition
  have hrest : (buffer.drop position).length = buffer.length - position := List.length_drop
  change Ends buffer (Outcome.bind (Reader.take n buffer position) _)
    ((Reading.take n after).run _)
  rw [Reading.run]
  by_cases hshort : (buffer.drop position).length < n
  · have htake : Reader.take n buffer position
        = .fault (.truncated position (n - (buffer.drop position).length)) := by
      simp only [Reader.take, Outcome.sliceFrom, hposition, if_true, Outcome.difference,
        Bind.bind, Outcome.bind, hshort, hshort.le]
    rw [htake, Cursor.cut_eq_error hshort]
    exact .fault _
  · have henough : n ≤ (buffer.drop position).length := by omega
    have hbehind : position + n ≤ buffer.length := by omega
    have htake : Reader.take n buffer position
        = .value ((buffer.drop position).take n, position + n) := by
      simp only [Reader.take, Outcome.sliceFrom, hposition, if_true, Outcome.advance, hbehind,
        Outcome.sliceTo, henough, Bind.bind, Outcome.bind, hshort, if_false]
      rfl
    rw [htake, Cursor.cut_eq_ok henough, List.drop_drop]
    exact hnext _ (by rw [List.length_take]; omega) buffer _ hbehind

/-- Bytes are passed over as they are taken. -/
lemma follows_pass (n : ℕ) : Follows (Reader.pass n) (Reading.pass n) := by
  intro buffer position hposition
  rw [Reading.pass, Reading.run_skip]
  exact follows_take_bind (fun _ _ => follows_done ()) buffer position hposition

lemma follows_byte : Follows Reader.byte Reading.byte := by
  change Follows (Reader.take 1 >>= _)
    (Reading.bytes 1 >>= fun bytes => pure (UInt8.ofNat bytes.bigEndian))
  refine follows_take_bind fun bytes hlength => ?_
  obtain ⟨found, rfl⟩ := List.length_eq_one_iff.1 hlength
  rw [show UInt8.ofNat (Bytes.bigEndian [found]) = found by simp [Bytes.bigEndian]]
  exact follows_done found

lemma follows_word : Follows Reader.word Reading.word := by
  change Follows (Reader.take 2 >>= _) (Reading.bytes 2 >>= fun bytes => pure (word16 bytes))
  refine follows_take_bind fun bytes hlength => ?_
  obtain ⟨high, low, rfl⟩ := List.length_eq_two.1 hlength
  exact follows_done (word16 [high, low])

lemma follows_doubleWord : Follows Reader.doubleWord Reading.doubleWord := by
  change Follows (Reader.take 4 >>= _) (Reading.bytes 4 >>= fun bytes => pure (word32 bytes))
  refine follows_take_bind fun bytes hlength => ?_
  obtain ⟨first, second, third, fourth, rfl⟩ := List.length_eq_four.1 hlength
  exact follows_done (word32 [first, second, third, fourth])

/-- A part is read as a buffer of its own. -/
lemma follows_part {n : ℕ} {reader : Reader α} {plan : Reading α} (h : Follows reader plan) :
    Follows (Reader.take n >>= fun body => Reader.inside body reader) (Reading.part n plan) := by
  have hinside : ∀ body : Bytes, Follows (Reader.inside body reader)
      (Reading.settled ((plan.run (.start body)).map Prod.fst)) := by
    intro body buffer position hposition
    have hends := h body 0 (Nat.zero_le _)
    rw [List.drop_zero] at hends
    change Ends buffer (Outcome.bind (reader body 0) _) _
    rw [Cursor.start]
    generalize reader body 0 = outcome at hends ⊢
    generalize plan.run _ = result at hends ⊢
    rcases hends with ⟨found, -⟩ | reason
    · exact .value found hposition
    · exact .fault reason
  have hpart : ∀ cursor, (Reading.part n plan).run cursor
      = (Reading.bytes n >>= fun body =>
          Reading.settled ((plan.run (.start body)).map Prod.fst)).run cursor := by
    intro cursor
    change (Reading.within n plan .done).run cursor = (Reading.take n _).run cursor
    rw [Reading.run, Reading.run]
    rcases cursor.cut n with _ | ⟨body, behind⟩
    · rfl
    · change _ = (Reading.settled ((plan.run (.start body)).map Prod.fst)).run behind
      simp only
      rcases plan.run (.start body) with _ | ⟨found, _⟩
      · rfl
      · rfl
  intro buffer position hposition
  rw [hpart]
  exact follows_take_bind (fun body _ => hinside body) buffer position hposition

lemma follows_iterate {step : α → Reader α} {plan : α → Reading α}
    (h : ∀ value, Follows (step value) (plan value)) (times : ℕ) (value : α) :
    Follows (Reader.iterate step times value) (Reading.iterate plan times value) := by
  induction times generalizing value with
  | zero => exact follows_done value
  | succ times ih => exact (h value).bind fun next => ih next

lemma follows_replicate {step : Reader Unit} {plan : Reading Unit} (h : Follows step plan)
    (times : ℕ) : Follows (Reader.replicate times step) (Reading.replicate times plan) :=
  follows_iterate (fun _ => h) times ()

/-! ## Texts -/

/-- No text takes more turns than it has bytes. -/
lemma unitsFrom_eq {bytes : Bytes} {turns i : ℕ} (found : List UInt16)
    (h : bytes.length ≤ i + turns) :
    unitsFrom bytes turns i found = .value (ModifiedUtf8.unitsOnto found (bytes.drop i)) := by
  induction turns generalizing i found with
  | zero =>
    rw [unitsFrom, if_neg (by omega), List.drop_of_length_le (by simpa using h),
      ModifiedUtf8.unitsOnto]
  | succ turns ih =>
    rw [unitsFrom]
    split_ifs with hi
    · have hlead : Outcome.element bytes i = .value bytes[i] := by
        rw [Outcome.element, List.getElem?_eq_getElem hi]
      have hsecond : continuationAt? bytes (i + 1)
          = (bytes.drop (i + 1)).head?.bind ModifiedUtf8.continuation? := by
        rw [continuationAt?, List.head?_drop]
      have hthird : continuationAt? bytes (i + 2)
          = (bytes.drop (i + 1)).tail.head?.bind ModifiedUtf8.continuation? := by
        rw [continuationAt?, List.tail_drop, List.head?_drop]
      have hone := fun found => ih found (show bytes.length ≤ i + 1 + turns by omega)
      have htwo := fun found => ih found (show bytes.length ≤ i + 2 + turns by omega)
      have hthree := fun found => ih found (show bytes.length ≤ i + 3 + turns by omega)
      rw [show bytes.drop (i + 2) = (bytes.drop (i + 1)).tail by rw [List.tail_drop]] at htwo
      rw [show bytes.drop (i + 3) = (bytes.drop (i + 1)).tail.tail by
        rw [List.tail_drop, List.tail_drop]] at hthree
      rw [List.drop_eq_getElem_cons hi, hlead]
      simp only [Bind.bind, Outcome.bind, hsecond, hthird, hone, htwo, hthree]
      generalize bytes.drop (i + 1) = rest
      generalize bytes[i] = lead
      rw [ModifiedUtf8.unitsOnto.eq_def found (lead :: rest)]
      simp only
      split_ifs
      · rfl
      · rcases rest with _ | ⟨second, rest⟩
        · rfl
        · simp only [List.head?_cons, Option.bind_some]
          rcases ModifiedUtf8.continuation? second with _ | low
          · rfl
          · rfl
      · rcases rest with _ | ⟨second, _ | ⟨third, rest⟩⟩
        · rfl
        · simp only [List.head?_cons, Option.bind_some]
          rcases ModifiedUtf8.continuation? second with _ | middle
          · rfl
          · rfl
        · simp only [List.head?_cons, Option.bind_some, List.tail_cons]
          rcases ModifiedUtf8.continuation? second with _ | middle
          · rfl
          · rcases ModifiedUtf8.continuation? third with _ | low
            · rfl
            · rfl
      · rfl
    · rw [List.drop_of_length_le (by omega), ModifiedUtf8.unitsOnto]
      rfl

lemma decode_eq (stored : Bytes) : decode stored = .value (ModifiedUtf8.decode stored) := by
  rw [decode, ModifiedUtf8.decode]
  rcases stored.text? with _ | text
  · rw [unitsFrom_eq [] (Nat.zero_add _).ge, List.drop_zero]
    simp only [ModifiedUtf8.decodeUnits, ModifiedUtf8.units]
    rcases ModifiedUtf8.unitsOnto [] stored with _ | units
    · rfl
    · rfl
  · rfl

/-- The slot of an index is looked up in the pool alone. -/
lemma slot?_eq (pool : ConstantPool) (index : UInt16) :
    slot? pool index = .value pool.slots[index.toNat]? := by
  rw [slot?]
  split_ifs with hindex
  · rw [Array.getElem?_eq_getElem hindex]
  · rw [Array.getElem?_eq_none (by omega)]

lemma value_bind {α β : Type} (found : α) (next : α → Outcome β) :
    (Outcome.value found >>= next) = next found :=
  rfl

lemma text_eq (pool : ConstantPool) (index : UInt16) :
    text pool index = .ofExcept (pool.text index) := by
  rw [text, ConstantPool.text, slot?_eq]
  rcases pool.slots[index.toNat]? with _ | _ | stored | _ | _
  · rfl
  · rfl
  · simp only [value_bind, decode_eq]
    rcases ModifiedUtf8.decode stored with _ | text
    · rfl
    · rfl
  · rfl
  · rfl

lemma className_eq (pool : ConstantPool) (index : UInt16) :
    className pool index = .ofExcept (pool.className index) := by
  rw [className, ConstantPool.className, slot?_eq]
  rcases pool.slots[index.toNat]? with _ | _ | _ | name | _
  · rfl
  · rfl
  · rfl
  · exact text_eq pool name
  · rfl

/-! ## The constant pool -/

lemma follows_readConstant (index : UInt16) :
    Follows (readConstant index) (ClassFile.readConstant index.toNat) := by
  refine follows_byte.bind fun tag => ?_
  split_ifs
  · refine follows_word.bind fun length => follows_take_bind fun stored _ => ?_
    exact follows_done _
  · exact follows_word.bind fun name => follows_done _
  · rcases opaqueBody? tag with _ | ⟨length, wide⟩
    · exact follows_fail _
    · exact (follows_pass _).bind fun _ => follows_done _

/-- Two more than an index is that number, or the greatest one. -/
lemma toNat_saturatingAdd_two (index : UInt16) :
    (saturatingAdd index 2).toNat = min (index.toNat + 2) 0xFFFF := by
  have hindex : index.toNat < 0x10000 := index.toNat_lt
  have htwo : (2 : UInt16).toNat = 2 := rfl
  rw [saturatingAdd, htwo]
  split_ifs with hbelow
  · rw [UInt16.toNat_add, htwo, Nat.mod_eq_of_lt hbelow]
    omega
  · rw [show (0xFFFF : UInt16).toNat = 0xFFFF from rfl]
    omega

/-- A wide constant in the last slot that can be declared leaves the counter at the greatest
index. -/
example : saturatingAdd 65534 2 = 65535 := by
  decide

/-- The loop over the slots ends within its turns, and its index does not overflow. -/
theorem follows_readSlots (count : UInt16) {turns : ℕ} {index : UInt16} (slots : Array Slot)
    (h : count.toNat ≤ index.toNat + turns) :
    Follows (readSlots count turns index slots)
      (ConstantPool.readSlots (count.toNat - index.toNat) index.toNat slots) := by
  have hcount : count.toNat < 0x10000 := count.toNat_lt
  induction turns generalizing index slots with
  | zero =>
    have hbehind : ¬index < count := by
      rw [UInt16.lt_iff_toNat_lt]
      omega
    rw [readSlots, if_neg hbehind, show count.toNat - index.toNat = 0 by omega]
    exact follows_done slots
  | succ turns ih =>
    rw [readSlots]
    split_ifs with hbelow
    · rw [UInt16.lt_iff_toNat_lt] at hbelow
      rw [show count.toNat - index.toNat = count.toNat - index.toNat - 1 + 1 by omega,
        readSlots_succ]
      refine (follows_readConstant index).bind fun constant => ?_
      split_ifs with hwide
      · have hnext := toNat_saturatingAdd_two index
        have hrest := @ih (saturatingAdd index 2)
          ((slots.push constant.slot).push .unusable) (by omega)
        rw [show count.toNat - index.toNat - 1 - 1
          = count.toNat - (saturatingAdd index 2).toNat by omega]
        -- the counter stops at the greatest index only when no slot is left
        rcases hleft : count.toNat - (saturatingAdd index 2).toNat with _ | left
        · rw [hleft] at hrest
          exact hrest
        · rw [hleft, show (saturatingAdd index 2).toNat = index.toNat + 2 by omega] at hrest
          exact hrest
      · have hincrement : Outcome.increment index = .value (index + 1) := by
          rw [Outcome.increment, if_pos (by omega)]
        have hnext : (index + 1).toNat = index.toNat + 1 := by
          rw [UInt16.toNat_add]
          exact Nat.mod_eq_of_lt (by simpa using (by omega : index.toNat + 1 < 0x10000))
        have hrest := @ih (index + 1) (slots.push constant.slot) (by omega)
        rw [hnext] at hrest
        rw [hincrement]
        rwa [show count.toNat - index.toNat - 1 = count.toNat - (index.toNat + 1) by omega]
    · rw [UInt16.lt_iff_toNat_lt] at hbelow
      rw [show count.toNat - index.toNat = 0 by omega]
      exact follows_done slots

lemma follows_readPool : Follows readPool ConstantPool.read := by
  refine follows_word.bind fun count => ?_
  have hcount : count.toNat < 0x10000 := count.toNat_lt
  have hturns : count.toNat ≤ (1 : UInt16).toNat + 0xFFFF := by
    simp
    omega
  exact (follows_readSlots count #[.unusable] hturns).bind fun slots => follows_done _

/-! ## Annotations -/

lemma follows_passPairs {value : Reader Unit} {plan : Reading Unit} (h : Follows value plan) :
    Follows (passPairs value) (ClassFile.passPairs plan) :=
  follows_word.bind fun _ => follows_replicate ((follows_pass 2).bind fun _ => h) _

/-- An element value takes no more frames than there are levels left, and one. -/
theorem follows_passValue {frames depth : ℕ} (hdepth : depth ≤ maxLevels)
    (h : maxLevels < frames + depth) :
    Follows (passValue frames depth) (ClassFile.passValue (maxLevels - depth)) := by
  induction frames generalizing depth with
  | zero => omega
  | succ frames ih =>
    rw [passValue]
    split_ifs with hdeep
    · rw [show maxLevels - depth = 0 by omega]
      exact follows_fail _
    have hless : depth + 1 ≤ maxLevels := by omega
    have hnext := ih hless (by omega)
    rw [show maxLevels - depth = maxLevels - (depth + 1) + 1 by omega]
    refine follows_byte.bind fun tag => ?_
    rcases ElementShape.ofTag? tag with _ | _ | _ | _ | _
    · exact follows_fail _
    · exact follows_pass 2
    · exact follows_pass 4
    · exact (follows_pass 2).bind fun _ => follows_passPairs hnext
    · exact follows_word.bind fun _ => follows_replicate hnext _

lemma follows_readAnnotationTable (pool : ConstantPool) (found : Array String) :
    Follows (readAnnotationTable pool found) (ClassFile.readAnnotationTable pool found) := by
  refine follows_word.bind fun count => follows_iterate (fun found => ?_) _ _
  refine follows_word.bind fun type => ?_
  rw [text_eq]
  refine (follows_lift _).bind fun descriptor => ?_
  refine (follows_passPairs ?_).bind fun _ => follows_done _
  exact follows_passValue (Nat.zero_le _) (by decide)

/-! ## The class file -/

lemma follows_passMembers : Follows passMembers ClassFile.passMembers := by
  have hattribute : Follows passAttribute ClassFile.passAttribute :=
    (follows_pass 2).bind fun _ => follows_doubleWord.bind fun _ => follows_pass _
  exact follows_word.bind fun _ => follows_replicate ((follows_pass 6).bind fun _ =>
    follows_word.bind fun _ => follows_replicate hattribute _) _

lemma follows_readAttribute (pool : ConstantPool) (found : TypeAnnotations) :
    Follows (readAttribute pool found) (ClassFile.readAttribute pool found) := by
  refine follows_word.bind fun name => follows_doubleWord.bind fun length => follows_part ?_
  rw [text_eq]
  refine (follows_lift _).bind fun name => ?_
  split_ifs
  · exact (follows_readAnnotationTable pool _).bind fun _ => follows_done _
  · exact (follows_readAnnotationTable pool _).bind fun _ => follows_done _
  · exact follows_done _

lemma follows_readDeclaration (pool : ConstantPool) :
    Follows (readDeclaration pool) (ClassFile.readDeclaration pool) := by
  have hannotations : Follows (readTypeAnnotations pool) (ClassFile.readTypeAnnotations pool) :=
    follows_word.bind fun _ => (follows_iterate (follows_readAttribute pool) _ _).bind
      fun _ => follows_done _
  have hinterfaces : Follows passInterfaces ClassFile.passInterfaces :=
    follows_word.bind fun _ => follows_pass _
  refine (follows_pass 2).bind fun _ => follows_word.bind fun thisClass => ?_
  rw [className_eq]
  refine (follows_lift _).bind fun slashedName => (follows_pass 2).bind fun _ => ?_
  refine hinterfaces.bind fun _ => follows_passMembers.bind fun _ => ?_
  exact follows_passMembers.bind fun _ => hannotations.bind fun _ => follows_done _

lemma follows_readSummary : Follows readSummary ClassFile.readSummary := by
  refine follows_doubleWord.bind fun found => ?_
  split_ifs
  · exact follows_fail _
  refine follows_word.bind fun minorVersion => follows_word.bind fun majorVersion => ?_
  split_ifs
  · exact follows_fail _
  exact follows_readPool.bind fun pool => (follows_readDeclaration pool).bind fun _ =>
    follows_done _

/-! ## No crash -/

/-- Whether a reader does not crash from any position within its buffer, and moves to none behind
its end. -/
def IsSafe (reader : Reader α) : Prop :=
  ∀ buffer position, position ≤ buffer.length →
    (∀ reason, reader buffer position ≠ .crash reason) ∧
    ∀ found behind, reader buffer position = .value (found, behind) → behind ≤ buffer.length

/-- A reader that follows a plan is safe. -/
lemma Follows.isSafe {reader : Reader α} {plan : Reading α} (h : Follows reader plan) :
    IsSafe reader := by
  intro buffer position hposition
  have hends := h buffer position hposition
  generalize reader buffer position = outcome at hends ⊢
  generalize plan.run _ = result at hends
  rcases hends with ⟨found, hbehind⟩ | reason
  · refine ⟨by simp, fun other behind heq => ?_⟩
    cases heq
    exact hbehind
  · exact ⟨by simp, by simp⟩

/-- Whatever bytes it is given, the reader by position ends as the plan does, with a summary or a
fault of the class file, and never with a crash. Its position stays within the buffer, also where
the loop over the slots starts anywhere in any buffer and for any declared count. -/
theorem parse_never_crashes :
    (∀ bytes, parse bytes = .ofExcept (ClassFile.parse bytes)) ∧ IsSafe readSummary ∧
      ∀ count, IsSafe (readSlots count 0xFFFF 1 #[.unusable]) := by
  refine ⟨fun bytes => ?_, follows_readSummary.isSafe, fun count => ?_⟩
  · have hends := follows_readSummary bytes 0 (Nat.zero_le _)
    rw [List.drop_zero] at hends
    rw [parse, ClassFile.parse, Cursor.start]
    generalize readSummary bytes 0 = outcome at hends ⊢
    generalize ClassFile.readSummary.run _ = result at hends ⊢
    rcases hends with ⟨found, -⟩ | reason
    · rfl
    · rfl
  · have hcount : count.toNat < 0x10000 := count.toNat_lt
    refine (follows_readSlots count #[.unusable] ?_).isSafe
    simp
    omega

end EntryPoint.ClassFile.Indexed
