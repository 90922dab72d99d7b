import EntryPoint.Proofs.ClassFile.Nesting
import EntryPoint.Proofs.ClassFile.Truncation

/-!
# Which slot a constant stands in

Slots are numbered from one, and a constant starts in the slot behind those that the constants
before it take (`firstSlot`). `Occupies` says from these numbers alone what stands in each slot of a
pool with a declared count, and the pool that is read answers for each index from what stands there
(`answers_ofConstants`). A tag of no kind is reported with the slot in which its constant would
start (`run_read_eq_badConstantTag_iff`).
-/

namespace EntryPoint.ClassFile

/-! ## Numbers of slots -/

/-- The number of the slot in which the constant behind some others starts: each of them takes one
slot, and each wide one takes one more. -/
def firstSlot (constants : List Constant) : ℕ :=
  1 + constants.length + constants.countP Constant.isWide

/-- What occupies a slot of a pool with a declared count: the constant that starts there, if one
does, and nothing in the slot zero, in the second slot of a wide constant and beyond the count. -/
inductive Occupies (constants : List Constant) (count : ℕ) : ℕ → Option Constant → Prop where
  | zero : Occupies constants count 0 none
  | starts {before after : List Constant} {constant : Constant}
      (split : constants = before ++ constant :: after) (below : firstSlot before < count) :
      Occupies constants count (firstSlot before) (some constant)
  | secondHalf {before after : List Constant} {constant : Constant}
      (split : constants = before ++ constant :: after) (wide : constant.isWide = true)
      (below : firstSlot before + 1 < count) :
      Occupies constants count (firstSlot before + 1) none
  | beyond {index : ℕ} (h : count ≤ index) : Occupies constants count index none

lemma firstSlot_eq (constants : List Constant) :
    firstSlot constants = 1 + (constants.flatMap Constant.slots).length := by
  unfold firstSlot
  induction constants with
  | nil => rfl
  | cons constant constants ih =>
    rw [List.flatMap_cons, List.length_append, List.length_cons, List.countP_cons,
      constant.length_slots]
    split <;> omega

lemma firstSlot_append_singleton (constants : List Constant) (constant : Constant) :
    firstSlot (constants ++ [constant]) = firstSlot constants + constant.slots.length := by
  simp [firstSlot_eq, Nat.add_assoc]

/-- The slots that constants take, the slot zero included, are those before the next constant. -/
lemma length_slotsOf (constants : List Constant) :
    (slotsOf constants).length = firstSlot constants := by
  rw [slotsOf, List.length_cons, firstSlot_eq, Nat.add_comm]

lemma slotsOf_append_singleton (constants : List Constant) (constant : Constant) :
    slotsOf (constants ++ [constant]) = slotsOf constants ++ constant.slots := by
  simp [slotsOf]

/-! ## Occupants in order -/

/-- What occupies the slots that a constant takes. -/
def Constant.occupants (constant : Constant) : List (Option Constant) :=
  some constant :: if constant.isWide then [none] else []

/-- What occupies the slots, from the slot zero on. -/
def occupantsOf (constants : List Constant) : List (Option Constant) :=
  none :: constants.flatMap Constant.occupants

/-- What is kept of an occupant. -/
def slotOf : Option Constant → Slot
  | none => .unusable
  | some constant => constant.pooled.slot

lemma Constant.occupants_zero (constant : Constant) :
    constant.occupants[0]? = some (some constant) :=
  rfl

lemma Constant.occupants_one {constant : Constant} (h : constant.isWide = true) :
    constant.occupants[1]? = some none := by
  rw [Constant.occupants, if_pos h]
  rfl

lemma Constant.map_occupants (constant : Constant) :
    constant.occupants.map slotOf = constant.slots := by
  cases constant with
  | text stored => rfl
  | classRef name => rfl
  | other tag body =>
    rw [Constant.occupants, Constant.slots]
    split <;> rfl

/-- A constant fills a slot, and if it is wide, a second one with nothing. -/
lemma Constant.slots_eq (constant : Constant) :
    constant.slots = constant.pooled.slot :: if constant.isWide then [.unusable] else [] := by
  rw [← constant.map_occupants, Constant.occupants]
  split <;> rfl

/-- The slots of a pool are what is kept of their occupants. -/
lemma map_occupantsOf (constants : List Constant) :
    (occupantsOf constants).map slotOf = slotsOf constants := by
  simp [occupantsOf, slotsOf, slotOf, List.map_flatMap, Constant.map_occupants]

lemma length_occupantsOf (constants : List Constant) :
    (occupantsOf constants).length = firstSlot constants := by
  rw [← length_slotsOf, ← map_occupantsOf, List.length_map]

lemma occupantsOf_append (constants others : List Constant) :
    occupantsOf (constants ++ others)
      = occupantsOf constants ++ others.flatMap Constant.occupants := by
  simp [occupantsOf]

/-- A slot that is taken is the slot zero, one in which a constant starts, or the second of a wide
constant. -/
lemma getElem?_occupantsOf_cases {constants : List Constant} {index : ℕ}
    {occupant : Option Constant} (h : (occupantsOf constants)[index]? = some occupant) :
    (index = 0 ∧ occupant = none) ∨
      ∃ before constant after, constants = before ++ constant :: after ∧
        ((index = firstSlot before ∧ occupant = some constant) ∨
          (constant.isWide = true ∧ index = firstSlot before + 1 ∧ occupant = none)) := by
  induction constants using List.reverseRecOn with
  | nil =>
    obtain ⟨hindex, hoccupant⟩ := List.getElem?_eq_some_iff.1 h
    have hzero : index = 0 := by simpa [occupantsOf] using hindex
    subst hzero
    exact .inl ⟨rfl, hoccupant.symm⟩
  | append_singleton earlier last ih =>
    rw [occupantsOf_append, List.flatMap_singleton] at h
    rcases Nat.lt_or_ge index (occupantsOf earlier).length with hearlier | hlast
    · rw [List.getElem?_append_left hearlier] at h
      rcases ih h with hzero | ⟨before, constant, after, rfl, hcases⟩
      · exact .inl hzero
      · exact .inr ⟨before, constant, after ++ [last], by simp, hcases⟩
    · rw [List.getElem?_append_right hlast, length_occupantsOf] at h
      rw [length_occupantsOf] at hlast
      refine .inr ⟨earlier, last, [], rfl, ?_⟩
      obtain ⟨slot, rfl⟩ := Nat.exists_eq_add_of_le hlast
      rw [Nat.add_sub_cancel_left, Constant.occupants] at h
      cases slot with
      | zero => exact .inl ⟨rfl, (Option.some.inj h).symm⟩
      | succ slot =>
        split at h
        · rename_i hwide
          cases slot with
          | zero => exact .inr ⟨hwide, rfl, (Option.some.inj h).symm⟩
          | succ slot => cases h
        · cases h

/-- The slots behind some constants are occupied as those of the next constant. -/
lemma getElem?_occupantsOf_append {constant : Constant} {i : ℕ} {occupant : Option Constant}
    (h : constant.occupants[i]? = some occupant) (before after : List Constant) :
    (occupantsOf (before ++ constant :: after))[firstSlot before + i]? = some occupant := by
  obtain ⟨hi, -⟩ := List.getElem?_eq_some_iff.1 h
  rw [occupantsOf_append, List.flatMap_cons, ← length_occupantsOf before,
    List.getElem?_append_right (Nat.le_add_right _ _), Nat.add_sub_cancel_left,
    List.getElem?_append_left hi, h]

/-- Below the declared count, the occupants stand in order. -/
lemma occupies_iff_of_lt {constants : List Constant} {count index : ℕ} {occupant : Option Constant}
    (h : index < count) :
    Occupies constants count index occupant ↔ (occupantsOf constants)[index]? = some occupant := by
  constructor
  · intro hoccupies
    cases hoccupies with
    | zero => rfl
    | starts split =>
      subst split
      exact getElem?_occupantsOf_append (Constant.occupants_zero _) _ _
    | secondHalf split wide =>
      subst split
      exact getElem?_occupantsOf_append (Constant.occupants_one wide) _ _
    | beyond hbeyond => omega
  · intro hget
    rcases getElem?_occupantsOf_cases hget with
      ⟨rfl, rfl⟩ | ⟨before, constant, after, hsplit, ⟨rfl, rfl⟩ | ⟨hwide, rfl, rfl⟩⟩
    · exact .zero
    · exact .starts hsplit h
    · exact .secondHalf hsplit hwide h

/-- Nothing stands at or beyond the declared count. -/
lemma occupies_iff_of_le {constants : List Constant} {count index : ℕ} {occupant : Option Constant}
    (h : count ≤ index) : Occupies constants count index occupant ↔ occupant = none := by
  constructor
  · intro hoccupies
    cases hoccupies with
    | zero => rfl
    | starts _ below => omega
    | secondHalf => rfl
    | beyond => rfl
  · rintro rfl
    exact .beyond h

/-- If the constants reach the declared count, it is settled for each index what occupies its
slot. -/
lemma existsUnique_occupies {constants : List Constant} {count : ℕ}
    (h : count ≤ firstSlot constants) (index : ℕ) :
    ∃! occupant, Occupies constants count index occupant := by
  rcases Nat.lt_or_ge index count with hbelow | hbeyond
  · have hlength : index < (occupantsOf constants).length := by
      rw [length_occupantsOf]
      omega
    simp only [occupies_iff_of_lt hbelow, List.getElem?_eq_getElem hlength, Option.some.injEq]
    exact existsUnique_eq'
  · simp only [occupies_iff_of_le hbeyond]
    exact existsUnique_eq

/-! ## Answers of a pool -/

/-- The text of a slot, given its index and what occupies it. -/
def textOf (index : UInt16) : Option Constant → Except Fault String
  | some (.text stored) =>
    match ModifiedUtf8.decode stored with
    | some text => .ok text
    | none => .error (.invalidText index)
  | _ => .error (.badConstantIndex index .utf8)

/-- Whether a pool answers for each index from what occupies its slot. -/
structure ConstantPool.Answers (pool : ConstantPool) (constants : List Constant) (count : ℕ) :
    Prop where
  occupied (index : UInt16) : ∃! occupant, Occupies constants count index.toNat occupant
  text (index : UInt16) {occupant : Option Constant}
    (h : Occupies constants count index.toNat occupant) : pool.text index = textOf index occupant
  className (index : UInt16) {occupant : Option Constant}
    (h : Occupies constants count index.toNat occupant) :
    pool.className index =
      match occupant with
      | some (.classRef name) => pool.text name
      | _ => .error (.badConstantIndex index .classRef)

/-- Constants that fill the slots below a declared count reach it. -/
lemma Fills.le_firstSlot {constants : List Constant} {count : ℕ} (h : Fills constants (count - 1)) :
    count ≤ firstSlot constants := by
  rw [firstSlot_eq]
  rcases h with hfills | ⟨-, hfills⟩
  · omega
  · omega

/-- What a pool holds at or beyond the declared count cannot be referred to. -/
lemma Fills.unusable_of_le {constants : List Constant} {count index : ℕ}
    (h : Fills constants (count - 1)) (hbeyond : count ≤ index) {slot : Slot}
    (hslot : (slotsOf constants)[index]? = some slot) : slot = .unusable := by
  obtain ⟨hindex, -⟩ := List.getElem?_eq_some_iff.1 hslot
  have hlength := firstSlot_eq constants
  rw [length_slotsOf] at hindex
  rcases h with hfills | ⟨hwide, hfills⟩
  · -- only a declared count of zero leaves a slot beyond it: the slot zero
    obtain rfl : index = 0 := by omega
    exact (Option.some.inj hslot).symm
  · cases hlast : constants.getLast? with
    | none =>
      rw [hlast] at hwide
      cases hwide
    | some last =>
      have hlastWide : last.isWide = true := by
        rw [hlast] at hwide
        exact hwide
      have htwo := two_le_length_slots hwide
      obtain ⟨earlier, rfl⟩ := List.getLast?_eq_some_iff.1 hlast
      have hsecond : (occupantsOf (earlier ++ [last]))[firstSlot earlier + 1]? = some none :=
        getElem?_occupantsOf_append (Constant.occupants_one hlastWide) _ _
      -- no constants fill no slots, so the count is positive and the last slot is the only one left
      have hfirst := firstSlot_append_singleton earlier last
      rw [last.length_slots, if_pos hlastWide] at hfirst
      obtain rfl : index = firstSlot earlier + 1 := by omega
      rw [← map_occupantsOf, List.getElem?_map, hsecond] at hslot
      exact (Option.some.inj hslot).symm

/-- In each slot a pool holds what is kept of its occupant, or it ends before a slot that has
none. -/
lemma getElem?_ofConstants {used unused : List Constant} {count index : ℕ}
    {occupant : Option Constant} (h : Fills used (count - 1))
    (hoccupies : Occupies (used ++ unused) count index occupant) :
    (ConstantPool.ofConstants used).slots[index]? = some (slotOf occupant) ∨
      occupant = none ∧ (ConstantPool.ofConstants used).slots[index]? = none := by
  rw [ConstantPool.ofConstants, List.getElem?_toArray]
  rcases Nat.lt_or_ge index count with hbelow | hbeyond
  · have hused : index < (occupantsOf used).length := by
      have hreached := h.le_firstSlot
      rw [length_occupantsOf]
      omega
    rw [occupies_iff_of_lt hbelow, occupantsOf_append, List.getElem?_append_left hused] at hoccupies
    left
    rw [← map_occupantsOf, List.getElem?_map, hoccupies]
    rfl
  · obtain rfl := (occupies_iff_of_le hbeyond).1 hoccupies
    cases hslot : (slotsOf used)[index]? with
    | none => exact .inr ⟨rfl, rfl⟩
    | some slot => exact .inl (congrArg some (h.unusable_of_le hbeyond hslot))

/-- The pool of constants that fill the slots below a declared count answers from them, whatever
constants follow. -/
theorem answers_ofConstants {used : List Constant} {count : ℕ} (h : Fills used (count - 1))
    (unused : List Constant) : (ConstantPool.ofConstants used).Answers (used ++ unused) count where
  occupied index := by
    refine existsUnique_occupies (h.le_firstSlot.trans ?_) index.toNat
    rw [firstSlot_eq, firstSlot_eq, List.flatMap_append, List.length_append]
    omega
  text index occupant hoccupies := by
    rw [ConstantPool.text]
    rcases getElem?_ofConstants h hoccupies with hslot | ⟨rfl, hslot⟩
    · rw [hslot]
      rcases occupant with _ | _ | _ | _
      · rfl
      · rfl
      · rfl
      · rfl
    · rw [hslot]
      rfl
  className index occupant hoccupies := by
    rw [ConstantPool.className]
    rcases getElem?_ofConstants h hoccupies with hslot | ⟨rfl, hslot⟩
    · rw [hslot]
      rcases occupant with _ | _ | _ | _
      · rfl
      · rfl
      · rfl
      · rfl
    · rw [hslot]

/-! ## Constants in a row -/

/-- Bytes that start with a declared count and constants. -/
structure Declares (bytes : Bytes) (count : UInt16) (constants : List Constant) (rest : Bytes) :
    Prop where
  wellFormed : ∀ constant ∈ constants, constant.WellFormed
  bytes_eq : bytes = wordBytes count ++ (constants.flatMap Constant.encode ++ rest)

/-- No constant is written as the start of another one. -/
lemma Constant.encode_append_inj {first second : Constant} {behind rest : Bytes}
    (hfirst : first.WellFormed) (hsecond : second.WellFormed)
    (h : first.encode ++ behind = second.encode ++ rest) : first = second ∧ behind = rest := by
  have hreads : ∀ constant : Constant, constant.WellFormed →
      (readConstant 0).Reads constant.encode constant.pooled := fun constant hformed =>
    reads_readConstant_iff.2 ⟨constant, hformed, rfl, rfl⟩
  have hrun := (hreads first hfirst).run_append 0 behind
  rw [h, (hreads second hsecond).run_append 0 rest] at hrun
  simp only [Except.ok.injEq, Prod.mk.injEq, Cursor.mk.injEq] at hrun
  obtain ⟨hpooled, -, rfl⟩ := hrun
  refine ⟨?_, rfl⟩
  have hencode : first.encode = second.encode := List.append_cancel_right h
  -- a text and a reference are kept as they are, and all others are told by their bytes
  cases first <;> cases second <;> simp_all [Constant.pooled, Constant.encode]

/-- Constants that are read are the first of those that lie ahead, unless the read goes on behind
all of them. -/
lemma isPrefix_of_flatMap_encode {used constants : List Constant} {behind rest : Bytes}
    (hused : ∀ constant ∈ used, constant.WellFormed)
    (hconstants : ∀ constant ∈ constants, constant.WellFormed)
    (h : used.flatMap Constant.encode ++ behind = constants.flatMap Constant.encode ++ rest)
    (hlength : rest.length ≤ behind.length) : used <+: constants := by
  induction used generalizing constants with
  | nil => exact List.nil_prefix
  | cons first used ih =>
    rw [List.forall_mem_cons] at hused
    cases constants with
    | nil =>
      have hpos : 0 < first.encode.length := by
        cases first <;> exact Nat.succ_pos _
      have hlengths := congrArg List.length h
      simp only [List.flatMap_cons, List.flatMap_nil, List.length_append, List.length_nil]
        at hlengths
      omega
    | cons second constants =>
      rw [List.forall_mem_cons] at hconstants
      rw [List.flatMap_cons, List.flatMap_cons, List.append_assoc, List.append_assoc] at h
      obtain ⟨rfl, htail⟩ := Constant.encode_append_inj hused.1 hconstants.1 h
      exact List.cons_prefix_cons.2 ⟨rfl, ih hused.2 hconstants.2 htail⟩

/-- A pool that is read answers from any list of constants that lies ahead, as long as the read does
not go on behind that list. -/
theorem answers_of_run_read {cursor behind : Cursor} {pool : ConstantPool}
    (h : ConstantPool.read.run cursor = .ok (pool, behind)) :
    (∃ count constants, Declares cursor.rest count constants behind.rest) ∧
      ∀ count constants rest, Declares cursor.rest count constants rest →
        rest.length ≤ behind.rest.length → pool.Answers constants count.toNat := by
  obtain ⟨_, ⟨hrest, -⟩, hreads⟩ := Reading.run_eq_ok_iff.1 h
  obtain ⟨declared, used, hformed, hfills, rfl, rfl⟩ := reads_pool_iff.1 hreads
  rw [List.append_assoc] at hrest
  refine ⟨⟨declared, used, hformed, hrest⟩, fun count constants rest hdeclares hlength => ?_⟩
  have hsplit := hrest.symm.trans hdeclares.bytes_eq
  obtain ⟨hcount, hconstants⟩ := List.append_inj hsplit rfl
  obtain rfl : declared = count := by
    rw [← word16_wordBytes declared, hcount, word16_wordBytes]
  obtain ⟨unused, rfl⟩ :=
    isPrefix_of_flatMap_encode hformed hdeclares.wellFormed hconstants hlength
  exact answers_ofConstants hfills unused

/-- Constants that take enough slots start with some that fill as many as are asked for. -/
lemma exists_fills {constants : List Constant} {slots : ℕ}
    (h : slots ≤ (constants.flatMap Constant.slots).length) :
    ∃ used unused, constants = used ++ unused ∧ Fills used slots := by
  induction constants generalizing slots with
  | nil => exact ⟨[], [], rfl, fills_nil.2 (Nat.le_zero.1 h)⟩
  | cons constant constants ih =>
    cases slots with
    | zero => exact ⟨[], constant :: constants, rfl, fills_zero_iff.2 rfl⟩
    | succ slots =>
      rw [List.flatMap_cons, List.length_append] at h
      have hleft : slots + 1 - constant.slots.length
          ≤ (constants.flatMap Constant.slots).length := by
        omega
      obtain ⟨used, unused, rfl, hfills⟩ := ih hleft
      exact ⟨constant :: used, unused, rfl, fills_cons_iff.2 hfills⟩

/-- A pool is read from constants that lie ahead, without going on behind them, exactly if they
reach the declared count. -/
theorem exists_run_read_iff {cursor : Cursor} {count : UInt16} {constants : List Constant}
    {rest : Bytes} (h : Declares cursor.rest count constants rest) :
    (∃ pool behind, ConstantPool.read.run cursor = .ok (pool, behind) ∧
        rest.length ≤ behind.rest.length) ↔ count.toNat ≤ firstSlot constants := by
  constructor
  · rintro ⟨pool, behind, hrun, hlength⟩
    have hanswers := (answers_of_run_read hrun).2 count constants rest h hlength
    by_contra hshort
    rw [not_le] at hshort
    have hcount := count.toNat_lt
    have hindex : (UInt16.ofNat (firstSlot constants)).toNat = firstSlot constants := by
      rw [UInt16.toNat_ofNat', Nat.mod_eq_of_lt (by omega)]
    -- the slot behind all constants would have to be occupied
    obtain ⟨occupant, hoccupies, -⟩ := hanswers.occupied (UInt16.ofNat (firstSlot constants))
    rw [hindex, occupies_iff_of_lt hshort, ← length_occupantsOf,
      List.getElem?_eq_none (Nat.le_refl _)] at hoccupies
    cases hoccupies
  · intro hreached
    rw [firstSlot_eq] at hreached
    obtain ⟨used, unused, rfl, hfills⟩ :=
      @exists_fills constants (count.toNat - 1) (by omega)
    have hused : ∀ constant ∈ used, constant.WellFormed := fun constant hmem =>
      h.wellFormed constant (List.mem_append_left unused hmem)
    have hreads := reads_pool_iff.2 ⟨count, used, hused, hfills, rfl, rfl⟩
    have hrun := hreads.run_append cursor.offset (unused.flatMap Constant.encode ++ rest)
    have hahead : wordBytes count ++ used.flatMap Constant.encode
        ++ (unused.flatMap Constant.encode ++ rest) = cursor.rest := by
      simp [h.bytes_eq]
    rw [hahead] at hrun
    exact ⟨_, _, hrun, by simp⟩

/-! ## Tags of no kind -/

/-- The tags of all kinds of constants. -/
def knownTags : List UInt8 :=
  1 :: 7 :: otherKinds.map Prod.fst

lemma mem_knownTags_iff {tag : UInt8} :
    tag ∈ knownTags ↔ tag = 1 ∨ tag = 7 ∨ opaqueBody? tag ≠ none := by
  revert tag
  decide +kernel

/-- Whether a plan stops only where bytes are missing. -/
def Reading.OnlyTruncates {α : Type} (plan : Reading α) : Prop :=
  ∀ cursor fault, plan.run cursor = .error fault → fault.IsTruncation

section
variable {α β : Type}

lemma Reading.OnlyTruncates.bind {plan : Reading α} {after : α → Reading β}
    (hplan : plan.OnlyTruncates) (hafter : ∀ value, (after value).OnlyTruncates) :
    (plan >>= after).OnlyTruncates := by
  intro cursor fault h
  rcases run_bind_eq_error_iff.1 h with hfirst | ⟨value, between, -, hsecond⟩
  · exact hplan cursor fault hfirst
  · exact hafter value between fault hsecond

lemma Reading.onlyTruncates_pure (value : α) : (pure value : Reading α).OnlyTruncates := by
  intro cursor fault h
  cases h

lemma Reading.onlyTruncates_bytes (n : ℕ) : (Reading.bytes n).OnlyTruncates := by
  intro cursor fault h
  rw [Reading.bytes, Reading.run] at h
  rcases Nat.lt_or_ge cursor.rest.length n with hshort | hlong
  · rw [Cursor.cut_eq_error hshort] at h
    exact ⟨_, _, (Except.error.inj h).symm⟩
  · rw [Cursor.cut_eq_ok hlong] at h
    cases h

lemma Reading.onlyTruncates_pass (n : ℕ) : (pass n).OnlyTruncates := by
  intro cursor fault h
  rw [pass, run_skip] at h
  exact ((onlyTruncates_bytes n).bind fun _ => onlyTruncates_pure ()) cursor fault h

lemma Reading.onlyTruncates_word : word.OnlyTruncates :=
  (onlyTruncates_bytes 2).bind fun bytes => onlyTruncates_pure (word16 bytes)

lemma Reading.onlyTruncates_byte : byte.OnlyTruncates :=
  (onlyTruncates_bytes 1).bind fun bytes => onlyTruncates_pure (UInt8.ofNat bytes.bigEndian)

/-- A plan that stops only where bytes are missing does not stop for a tag. -/
lemma Reading.OnlyTruncates.ne_badConstantTag {plan : Reading α} (h : plan.OnlyTruncates)
    (cursor : Cursor) (tag : UInt8) (index : ℕ) :
    plan.run cursor ≠ .error (.badConstantTag tag index) := by
  intro hrun
  obtain ⟨_, _, htruncated⟩ := h _ _ hrun
  cases htruncated

end

/-- A byte is read where it is the next one. -/
lemma Reading.run_byte_eq_ok_iff {cursor behind : Cursor} {value : UInt8} :
    byte.run cursor = .ok (value, behind) ↔ cursor.Moves [value] behind := by
  constructor
  · intro h
    obtain ⟨_, hmoves, taken, rest, rfl, hlength, rfl, rfl⟩ := run_eq_ok_iff.1 h
    obtain ⟨found, rfl⟩ := List.length_eq_one_iff.1 hlength
    simpa [Bytes.bigEndian] using hmoves
  · exact fun hmoves => (reads_iff_run hmoves).1 (reads_byte value)

/-- A word is read where its bytes are the next ones. -/
lemma Reading.run_word_eq_ok_iff {cursor behind : Cursor} {value : UInt16} :
    word.run cursor = .ok (value, behind) ↔ cursor.Moves (wordBytes value) behind := by
  constructor
  · intro h
    obtain ⟨_, hmoves, taken, rest, rfl, hlength, rfl, rfl⟩ := run_eq_ok_iff.1 h
    rwa [List.append_nil, ← wordBytes_word16 hlength] at hmoves
  · exact fun hmoves => (reads_iff_run hmoves).1 (reads_word value)

open Reading in
/-- Reading a constant stops for its tag exactly at a tag of no kind. -/
lemma run_readConstant_eq_badConstantTag_iff {index stop : ℕ} {cursor : Cursor} {tag : UInt8} :
    (readConstant index).run cursor = .error (.badConstantTag tag stop) ↔
      ∃ rest, cursor.rest = tag :: rest ∧ tag ∉ knownTags ∧ stop = index := by
  have hunknown : ∀ {tag : UInt8},
      tag ∉ knownTags ↔ tag ≠ 1 ∧ tag ≠ 7 ∧ opaqueBody? tag = none := by
    simp [mem_knownTags_iff]
  unfold readConstant
  rw [run_bind_eq_error_iff]
  constructor
  · rintro (hbyte | ⟨first, between, hbyte, h⟩)
    · exact absurd hbyte (onlyTruncates_byte.ne_badConstantTag _ _ _)
    · obtain ⟨hrest, -⟩ := run_byte_eq_ok_iff.1 hbyte
      split_ifs at h with hone hseven
      · refine absurd h (OnlyTruncates.ne_badConstantTag ?_ _ _ _)
        exact onlyTruncates_word.bind fun length => (onlyTruncates_bytes _).bind fun stored =>
          onlyTruncates_pure _
      · refine absurd h (OnlyTruncates.ne_badConstantTag ?_ _ _ _)
        exact onlyTruncates_word.bind fun name => onlyTruncates_pure _
      · cases hkind : opaqueBody? first with
        | some kind =>
          rw [hkind] at h
          refine absurd h (OnlyTruncates.ne_badConstantTag ?_ _ _ _)
          exact (onlyTruncates_pass _).bind fun _ => onlyTruncates_pure _
        | none =>
          rw [hkind] at h
          cases h
          exact ⟨between.rest, hrest, hunknown.2 ⟨hone, hseven, hkind⟩, rfl⟩
  · rintro ⟨rest, hrest, htag, rfl⟩
    obtain ⟨hone, hseven, hkind⟩ := hunknown.1 htag
    refine .inr ⟨tag, ⟨cursor.offset + 1, rest⟩, run_byte_eq_ok_iff.2 ⟨hrest, rfl⟩, ?_⟩
    rw [if_neg hone, if_neg hseven, hkind]
    rfl

/-- Filling slots fails with the constant that is read first, or else with those that fill what it
leaves. -/
lemma run_readSlots_succ_eq_error_iff {remaining index : ℕ} {slots : Array Slot} {cursor : Cursor}
    {fault : Fault} :
    (ConstantPool.readSlots (remaining + 1) index slots).run cursor = .error fault ↔
      (readConstant index).run cursor = .error fault ∨
        ∃ (constant : Constant) (between : Cursor), constant.WellFormed ∧
          cursor.Moves constant.encode between ∧
            (ConstantPool.readSlots (remaining + 1 - constant.slots.length)
              (index + constant.slots.length) (slots ++ constant.slots)).run between
              = .error fault := by
  rw [readSlots_succ, Reading.run_bind_eq_error_iff]
  simp only [Reading.run_eq_ok_iff, reads_readConstant_iff]
  refine or_congr_right ?_
  constructor
  · rintro ⟨_, between, ⟨_, hmoves, constant, hformed, rfl, rfl⟩, h⟩
    exact ⟨constant, between, hformed, hmoves, readSlots_pooled constant ▸ h⟩
  · rintro ⟨constant, between, hformed, hmoves, h⟩
    exact ⟨_, between, ⟨_, hmoves, constant, hformed, rfl, rfl⟩,
      (readSlots_pooled constant).symm ▸ h⟩

/-- Filling slots stops for a tag exactly if it is of no kind and stands behind constants that leave
a slot to be filled. -/
lemma run_readSlots_eq_badConstantTag_iff {remaining index stop : ℕ} {slots : Array Slot}
    {cursor : Cursor} {tag : UInt8} :
    (ConstantPool.readSlots remaining index slots).run cursor = .error (.badConstantTag tag stop) ↔
      ∃ (constants : List Constant) (rest : Bytes),
        (∀ constant ∈ constants, constant.WellFormed) ∧
          cursor.rest = constants.flatMap Constant.encode ++ tag :: rest ∧ tag ∉ knownTags ∧
            stop = index + (constants.flatMap Constant.slots).length ∧
              (constants.flatMap Constant.slots).length < remaining := by
  induction remaining using Nat.strongRecOn generalizing index slots cursor with
  | ind remaining ih =>
  cases remaining with
  | zero =>
    constructor
    · intro h
      cases h
    · rintro ⟨_, _, _, _, _, _, hlength⟩
      exact absurd hlength (Nat.not_lt_zero _)
  | succ remaining =>
    rw [run_readSlots_succ_eq_error_iff, run_readConstant_eq_badConstantTag_iff]
    constructor
    · rintro (⟨rest, hrest, htag, rfl⟩ | ⟨constant, between, hformed, hmoves, h⟩)
      · exact ⟨[], rest, by simp, hrest, htag, rfl, Nat.succ_pos _⟩
      · obtain ⟨constants, rest, hconstants, hrest, htag, rfl, hlength⟩ :=
          (ih _ (constant.slots_left_lt remaining)).1 h
        refine ⟨constant :: constants, rest, List.forall_mem_cons.2 ⟨hformed, hconstants⟩, ?_, htag,
          ?_, ?_⟩
        · rw [hmoves.1, hrest, List.flatMap_cons, List.append_assoc]
        · rw [List.flatMap_cons, List.length_append, Nat.add_assoc]
        · rw [List.flatMap_cons, List.length_append]
          omega
    · rintro ⟨constants, rest, hconstants, hrest, htag, rfl, hlength⟩
      cases constants with
      | nil => exact .inl ⟨rest, hrest, htag, rfl⟩
      | cons constant constants =>
        rw [List.forall_mem_cons] at hconstants
        rw [List.flatMap_cons, List.append_assoc] at hrest
        rw [List.flatMap_cons, List.length_append] at hlength
        refine .inr ⟨constant, ⟨_, _⟩, hconstants.1, ⟨hrest, rfl⟩, ?_⟩
        refine (ih _ (constant.slots_left_lt remaining)).2
          ⟨constants, rest, hconstants.2, rfl, htag, ?_, by omega⟩
        rw [List.flatMap_cons, List.length_append, Nat.add_assoc]

/-- Bytes that declare constants and go on, in a slot below the declared count, with a tag that no
kind of constant has. -/
def StopsAt (bytes : Bytes) (tag : UInt8) (index : ℕ) : Prop :=
  ∃ (count : UInt16) (constants : List Constant) (rest : Bytes),
    Declares bytes count constants (tag :: rest) ∧ tag ∉ knownTags ∧
      index = firstSlot constants ∧ index < count.toNat

/-- Reading a pool stops for a tag exactly at a tag of no kind, and it names the slot in which the
constant with that tag starts. -/
theorem run_read_eq_badConstantTag_iff {cursor : Cursor} {tag : UInt8} {index : ℕ} :
    ConstantPool.read.run cursor = .error (.badConstantTag tag index) ↔
      StopsAt cursor.rest tag index := by
  unfold ConstantPool.read StopsAt
  rw [Reading.run_bind_eq_error_iff]
  constructor
  · rintro (hword | ⟨count, between, hword, h⟩)
    · exact absurd hword (Reading.onlyTruncates_word.ne_badConstantTag _ _ _)
    obtain ⟨hrest, -⟩ := Reading.run_word_eq_ok_iff.1 hword
    rcases Reading.run_bind_eq_error_iff.1 h with hslots | ⟨_, _, _, hpure⟩
    · obtain ⟨constants, rest, hformed, hbetween, htag, rfl, hlength⟩ :=
        run_readSlots_eq_badConstantTag_iff.1 hslots
      rw [hbetween] at hrest
      exact ⟨count, constants, rest, ⟨hformed, hrest⟩, htag, (firstSlot_eq constants).symm,
        by omega⟩
    · cases hpure
  · rintro ⟨count, constants, rest, ⟨hformed, hrest⟩, htag, rfl, hbelow⟩
    refine .inr ⟨count, ⟨cursor.offset + 2, _⟩, Reading.run_word_eq_ok_iff.2 ⟨hrest, rfl⟩, ?_⟩
    refine Reading.run_bind_eq_error_iff.2 (.inl ?_)
    rw [firstSlot_eq] at hbelow ⊢
    exact run_readSlots_eq_badConstantTag_iff.2
      ⟨constants, rest, hformed, rfl, htag, rfl, by omega⟩

end EntryPoint.ClassFile
