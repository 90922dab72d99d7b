import EntryPoint.Proofs.ClassFile.Slots

/-!
# Counting slots

The reader by position keeps the slots that are filled and the number of the next one apart, and
this number stops at the greatest that sixteen bits hold. That the two agree is carried from turn to
turn of its loop (`HasRead.turn`): the slots are always those of the constants that have been read,
and the number is that of the slot behind them or the greatest one.

With the numbers of the plan this gives what slots are called by, in results and in faults
(`slots_are_numbered`).
-/

namespace EntryPoint.ClassFile.Indexed

/-! ## Turns of the loop -/

/-- One turn of the loop over the slots: a constant is read and fills its slots, and the index moves
behind them. -/
def turn (index : UInt16) (slots : Array Slot) : Reader (UInt16 × Array Slot) := do
  let constant ← readConstant index
  if constant.wide then
    return (saturatingAdd index 2, (slots.push constant.slot).push .unusable)
  else
    let next ← Reader.lift (Outcome.increment index)
    return (next, slots.push constant.slot)

/-- The states in which the loop over the slots stands: how many turns it may still take, the index
of the next slot, the slots filled so far and the position. -/
inductive Reaches (count : UInt16) (buffer : Bytes) (start : ℕ) :
    ℕ → UInt16 → Array Slot → ℕ → Prop where
  | start : Reaches count buffer start 0xFFFF 1 #[.unusable] start
  | turn {left position position' : ℕ} {index index' : UInt16} {slots slots' : Array Slot}
      (h : Reaches count buffer start (left + 1) index slots position) (below : index < count)
      (next : Indexed.turn index slots buffer position = .value ((index', slots'), position')) :
      Reaches count buffer start left index' slots' position'

/-- A counter that does not overflow moves by one. -/
lemma toNat_of_increment {counter next : UInt16} (h : Outcome.increment counter = .value next) :
    next.toNat = counter.toNat + 1 := by
  rw [Outcome.increment] at h
  split_ifs at h with hbelow
  cases h
  rw [UInt16.toNat_add]
  exact Nat.mod_eq_of_lt hbelow

/-- What a turn does: it moves the index by two, but not beyond the greatest one, if the constant is
wide, and else by one. -/
lemma turn_cases {index index' : UInt16} {slots slots' : Array Slot} {buffer : Bytes}
    {position position' : ℕ}
    (h : turn index slots buffer position = .value ((index', slots'), position')) :
    ∃ found, readConstant index buffer position = .value (found, position') ∧
      ((found.wide = true ∧ index' = saturatingAdd index 2 ∧
          slots' = (slots.push found.slot).push .unusable) ∨
        (found.wide = false ∧ Outcome.increment index = .value index' ∧
          slots' = slots.push found.slot)) := by
  change Outcome.bind (readConstant index buffer position) _ = _ at h
  cases hconstant : readConstant index buffer position with
  | fault reason =>
    rw [hconstant] at h
    cases h
  | crash reason =>
    rw [hconstant] at h
    cases h
  | value outcome =>
    obtain ⟨found, between⟩ := outcome
    rw [hconstant] at h
    simp only [Outcome.bind] at h
    cases hwide : found.wide with
    | true =>
      rw [if_pos hwide] at h
      cases h
      exact ⟨found, rfl, .inl ⟨hwide, rfl, rfl⟩⟩
    | false =>
      rw [if_neg (by simp [hwide])] at h
      cases hincrement : Outcome.increment index with
      | value next =>
        simp only [hincrement] at h
        cases h
        exact ⟨found, rfl, .inr ⟨hwide, rfl, rfl⟩⟩
      | fault reason =>
        simp only [hincrement] at h
        cases h
      | crash reason =>
        simp only [hincrement] at h
        cases h

/-- The loop over the slots takes turns while the index is below the declared count. -/
lemma readSlots_turn (count : UInt16) (left : ℕ) (index : UInt16) (slots : Array Slot) :
    readSlots count (left + 1) index slots =
      if index < count then
        turn index slots >>= fun (index, slots) => readSlots count left index slots
      else
        pure slots := by
  rw [readSlots]
  split_ifs
  · funext buffer position
    change Outcome.bind (readConstant index buffer position) _
      = Outcome.bind (Outcome.bind (readConstant index buffer position) _) _
    cases readConstant index buffer position with
    | fault reason => rfl
    | crash reason => rfl
    | value outcome =>
      simp only [Outcome.bind]
      split_ifs
      · rfl
      · change Outcome.bind (Outcome.bind (Outcome.increment index) _) _
          = Outcome.bind (Outcome.bind (Outcome.bind (Outcome.increment index) _) _) _
        cases Outcome.increment index with
        | value next => rfl
        | fault reason => rfl
        | crash reason => rfl
  · rfl

/-- The loop over the slots goes on from every state that it reaches. -/
lemma Reaches.readSlots_eq {count index : UInt16} {buffer : Bytes} {start left position : ℕ}
    {slots : Array Slot} (h : Reaches count buffer start left index slots position) :
    readSlots count 0xFFFF 1 #[.unusable] buffer start
      = readSlots count left index slots buffer position := by
  induction h with
  | start => rfl
  | @turn left position position' index index' slots slots' _ below next ih =>
    rw [ih, readSlots_turn, if_pos below]
    change Outcome.bind (Indexed.turn index slots buffer position) _ = _
    rw [next]
    rfl

/-- A turn reads one constant, fills the slots that it takes and moves the index behind them, but
not beyond the greatest one. -/
lemma exists_constant_of_turn {index index' : UInt16} {slots slots' : Array Slot} {buffer : Bytes}
    {position position' : ℕ} (hposition : position ≤ buffer.length)
    (h : turn index slots buffer position = .value ((index', slots'), position')) :
    ∃ constant : Constant, constant.WellFormed ∧ position' ≤ buffer.length ∧
      buffer.drop position = constant.encode ++ buffer.drop position' ∧
        slots' = slots ++ constant.slots ∧
          index'.toNat = min (index.toNat + constant.slots.length) 0xFFFF := by
  obtain ⟨found, hfound, hcases⟩ := turn_cases h
  have hends := follows_readConstant index buffer position hposition
  rw [hfound] at hends
  generalize hplan : (ClassFile.readConstant index.toNat).run _ = result at hends
  cases hends with
  | value _ hposition' =>
    obtain ⟨_, ⟨hrest, -⟩, hreads⟩ := Reading.run_eq_ok_iff.1 hplan
    obtain ⟨constant, hformed, rfl, rfl⟩ := reads_readConstant_iff.1 hreads
    rw [constant.wide_pooled] at hcases
    refine ⟨constant, hformed, hposition', hrest, ?_⟩
    rw [constant.length_slots, constant.slots_eq]
    rcases hcases with ⟨hwide, rfl, rfl⟩ | ⟨hwide, hincrement, rfl⟩
    · rw [if_pos hwide, if_pos hwide]
      exact ⟨by simp, toNat_saturatingAdd_two index⟩
    · have hlast := index'.toNat_lt
      rw [toNat_of_increment hincrement] at hlast ⊢
      rw [hwide]
      exact ⟨by simp, by simp; omega⟩

/-- What the loop over the slots has done where it stands: it has read constants up to a position,
filled their slots, and counted them up to the greatest index. -/
structure HasRead (buffer : Bytes) (start : ℕ) (constants : List Constant) (index : UInt16)
    (slots : Array Slot) (position : ℕ) : Prop where
  wellFormed : ∀ constant ∈ constants, constant.WellFormed
  position_le : position ≤ buffer.length
  bytes_eq : buffer.drop start = constants.flatMap Constant.encode ++ buffer.drop position
  slots_eq : slots = (slotsOf constants).toArray
  index_eq : index.toNat = min (firstSlot constants) 0xFFFF

/-- One turn adds one constant to those that have been read. -/
lemma HasRead.turn {buffer : Bytes} {start position position' : ℕ} {constants : List Constant}
    {index index' : UInt16} {slots slots' : Array Slot}
    (h : HasRead buffer start constants index slots position)
    (hturn : turn index slots buffer position = .value ((index', slots'), position')) :
    ∃ constant, HasRead buffer start (constants ++ [constant]) index' slots' position' := by
  obtain ⟨constant, hformed, hposition, hbytes, hslots, hindex⟩ :=
    exists_constant_of_turn h.position_le hturn
  refine ⟨constant, ?_, hposition, ?_, ?_, ?_⟩
  · simpa [or_imp, forall_and] using And.intro h.wellFormed hformed
  · rw [h.bytes_eq, hbytes, List.flatMap_append, List.flatMap_singleton, List.append_assoc]
  · rw [hslots, h.slots_eq, slotsOf_append_singleton]
    simp
  · have hcounted := h.index_eq
    rw [firstSlot_append_singleton]
    omega

/-- In every state of the loop, it has read some constants. -/
theorem Reaches.hasRead {count index : UInt16} {buffer : Bytes} {start left position : ℕ}
    {slots : Array Slot} (hstart : start ≤ buffer.length)
    (h : Reaches count buffer start left index slots position) :
    ∃ constants, HasRead buffer start constants index slots position := by
  induction h with
  | start => exact ⟨[], by simp, hstart, rfl, rfl, rfl⟩
  | turn _ _ next ih =>
    obtain ⟨constants, hread⟩ := ih
    obtain ⟨constant, hread'⟩ := hread.turn next
    exact ⟨constants ++ [constant], hread'⟩

/-- Whenever the loop continues, as many slots are filled as its index says. -/
theorem Reaches.size_eq {count index : UInt16} {buffer : Bytes} {start left position : ℕ}
    {slots : Array Slot} (hstart : start ≤ buffer.length)
    (h : Reaches count buffer start left index slots position) (hbelow : index < count) :
    slots.size = index.toNat := by
  obtain ⟨constants, hread⟩ := h.hasRead hstart
  have hindex := hread.index_eq
  have hcount : count.toNat < 0x10000 := count.toNat_lt
  rw [UInt16.lt_iff_toNat_lt] at hbelow
  rw [hread.slots_eq, List.size_toArray, length_slotsOf]
  omega

/-! ## Exact numbers -/

/-- The slots of a pool are numbered exactly, by the plan and by the reader by position alike. A
pool that is read answers for each index from the constant that occupies its slot, among any
constants that lie ahead and behind which the read has not gone, and it is read without going behind
them exactly if they reach the declared count; reading stops for a tag exactly where constants are
followed by one of no kind, with the number of the slot in which that one starts; and whenever the
loop over the slots continues, its index is the number of slots filled. -/
theorem slots_are_numbered (before ahead : Bytes) :
    (∀ pool behind, ConstantPool.read.run ⟨before.length, ahead⟩ = .ok (pool, behind) →
      readPool (before ++ ahead) before.length = .value (pool, behind.offset) ∧
        (∃ count constants, Declares ahead count constants behind.rest) ∧
          ∀ count constants rest, Declares ahead count constants rest →
            rest.length ≤ behind.rest.length → pool.Answers constants count.toNat) ∧
    (∀ count constants rest, Declares ahead count constants rest →
      ((∃ pool behind, ConstantPool.read.run ⟨before.length, ahead⟩ = .ok (pool, behind) ∧
        rest.length ≤ behind.rest.length) ↔ count.toNat ≤ firstSlot constants)) ∧
    (∀ tag index,
      (ConstantPool.read.run ⟨before.length, ahead⟩ = .error (.badConstantTag tag index) ↔
          StopsAt ahead tag index) ∧
        (readPool (before ++ ahead) before.length = .fault (.badConstantTag tag index) ↔
          StopsAt ahead tag index)) ∧
    ∀ count left index slots position,
      Reaches count (before ++ ahead) before.length left index slots position →
        readSlots count 0xFFFF 1 #[.unusable] (before ++ ahead) before.length
            = readSlots count left index slots (before ++ ahead) position ∧
          (index < count → slots.size = index.toNat) := by
  have hreader := follows_readPool.eq_of_run before ahead
  refine ⟨fun pool behind hrun => ⟨?_, answers_of_run_read hrun⟩,
    fun count constants rest hdeclares => exists_run_read_iff hdeclares,
    fun tag index => ⟨?_, ?_⟩,
    fun count left index slots position hreaches => ⟨hreaches.readSlots_eq, ?_⟩⟩
  · rw [hreader, hrun]
  · exact run_read_eq_badConstantTag_iff
  · have hplan := @run_read_eq_badConstantTag_iff ⟨before.length, ahead⟩ tag index
    rw [hreader, ← hplan]
    cases ConstantPool.read.run ⟨before.length, ahead⟩ with
    | ok outcome => simp
    | error fault => simp
  · exact hreaches.size_eq (by simp)

/-- A `long`. -/
def fortyTwo : Constant :=
  .other 5 [0, 0, 0, 0, 0, 0, 0, 42]

/-- A `long`, a text and a class that the text names. -/
def longTextClass : List Constant :=
  [fortyTwo, .text [0x41], .classRef 3]

/-- The `long` takes the slots 1 and 2, so that the text stands in slot 3 and the class in slot 4,
and a constant of no kind behind them starts in slot 5. -/
theorem slots_are_numbered_longTextClass :
    (∃ pool behind, ConstantPool.read.run
          ⟨0, wordBytes 5 ++ (longTextClass.flatMap Constant.encode ++ [])⟩ = .ok (pool, behind) ∧
        pool.text 3 = .ok "A" ∧ pool.className 4 = pool.text 3 ∧
          pool.text 2 = .error (.badConstantIndex 2 .utf8) ∧
            pool.className 5 = .error (.badConstantIndex 5 .classRef)) ∧
      readPool (wordBytes 6 ++ (longTextClass.flatMap Constant.encode ++ [2, 0, 0])) 0
          = .fault (.badConstantTag 2 5) ∧
        ∃ slots, Reaches 6 (wordBytes 6 ++ (longTextClass.flatMap Constant.encode ++ [2, 0, 0])) 2
            0xFFFC 5 slots 18 ∧ slots.size = 5 := by
  have hformed : ∀ constant ∈ longTextClass, constant.WellFormed := by
    intro constant hmem
    simp only [longTextClass, List.mem_cons, List.not_mem_nil, or_false] at hmem
    rcases hmem with rfl | rfl | rfl
    · rfl
    · exact (by decide : 1 < 65536)
    · trivial
  refine ⟨?_, ?_, ?_⟩
  · obtain ⟨pool, behind, hrun, -⟩ :=
      ((slots_are_numbered [] _).2.1 5 longTextClass [] ⟨hformed, rfl⟩).2 (by decide)
    obtain ⟨-, -, hlists⟩ := (slots_are_numbered [] _).1 pool behind hrun
    have hanswers := hlists 5 longTextClass [] ⟨hformed, rfl⟩ (Nat.zero_le _)
    have htext : Occupies longTextClass 5 (firstSlot [fortyTwo]) (some (.text [0x41])) :=
      .starts rfl (by decide)
    have hclass : Occupies longTextClass 5 (firstSlot [fortyTwo, .text [0x41]])
        (some (.classRef 3)) :=
      .starts rfl (by decide)
    have hlong : Occupies longTextClass 5 (firstSlot [] + 1) none :=
      .secondHalf (show longTextClass = [] ++ fortyTwo :: _ from rfl) rfl (by decide)
    exact ⟨pool, behind, hrun, hanswers.text 3 htext, hanswers.className 4 hclass,
      hanswers.text 2 hlong, hanswers.className 5 (.beyond (by decide))⟩
  · exact ((slots_are_numbered [] _).2.2.1 2 5).2.2
      ⟨6, longTextClass, [0, 0], ⟨hformed, rfl⟩, by decide, rfl, by decide⟩
  · have hreaches : Reaches 6
        (wordBytes 6 ++ (longTextClass.flatMap Constant.encode ++ [2, 0, 0])) 2 0xFFFC 5 _ 18 :=
      .turn (.turn (.turn .start (by decide) rfl) (by decide) rfl) (by decide) rfl
    exact ⟨_, hreaches,
      ((slots_are_numbered (wordBytes 6) _).2.2.2 6 0xFFFC 5 _ 18 hreaches).2 (by decide)⟩

end EntryPoint.ClassFile.Indexed
