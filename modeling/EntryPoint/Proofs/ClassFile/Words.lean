import EntryPoint.ClassFile.Structure
import EntryPoint.Proofs.ClassFile.Reads
import Mathlib.Data.List.Basic

/-!
# Words and lengths

The numbers of a class file are big-endian words of one, two or four bytes.  Reading a word and
writing it are inverse to each other, so that a read of a word reads exactly the bytes of that word
(`reads_word_bind`, `reads_doubleWord_bind`).
-/

namespace EntryPoint.ClassFile

/-! ## Two bytes -/

@[simp] lemma length_wordBytes (word : UInt16) : (wordBytes word).length = 2 :=
  rfl

/-- A word of two bytes has its value in base 256. -/
lemma toNat_word16_pair (high low : UInt8) :
    (word16 [high, low]).toNat = high.toNat * 256 + low.toNat := by
  have hhigh : high.toNat < 256 := high.toNat_lt
  have hlow : low.toNat < 256 := low.toNat_lt
  simp only [word16, Bytes.bigEndian, List.foldl_cons, List.foldl_nil, UInt16.toNat_ofNat']
  omega

/-- A word is read back from the two bytes that it is written as. -/
lemma word16_wordBytes (word : UInt16) : word16 (wordBytes word) = word := by
  have hword : word.toNat < 65536 := word.toNat_lt
  apply UInt16.toNat_inj.1
  rw [wordBytes, toNat_word16_pair, UInt8.toNat_ofNat', UInt8.toNat_ofNat']
  omega

/-- Two bytes are what the word that they spell is written as. -/
lemma wordBytes_word16 {bytes : Bytes} (h : bytes.length = 2) :
    wordBytes (word16 bytes) = bytes := by
  obtain ⟨high, low, rfl⟩ := List.length_eq_two.1 h
  have hhigh : high.toNat < 256 := high.toNat_lt
  have hlow : low.toNat < 256 := low.toNat_lt
  rw [wordBytes, toNat_word16_pair]
  congr
  · apply UInt8.toNat_inj.1
    rw [UInt8.toNat_ofNat']
    omega
  · apply UInt8.toNat_inj.1
    rw [UInt8.toNat_ofNat']
    omega

/-- The value of a word is written as the word. -/
lemma countBytes_toNat (word : UInt16) : countBytes word.toNat = wordBytes word := by
  rw [countBytes, UInt16.ofNat_toNat]

/-- An even number of bytes is a list of words. -/
lemma length_eq_mul_two_iff {bytes : Bytes} {times : ℕ} :
    bytes.length = times * 2 ↔
      ∃ words : List UInt16, words.length = times ∧ bytes = words.flatMap wordBytes := by
  constructor
  · intro h
    induction times generalizing bytes with
    | zero =>
      obtain rfl := List.eq_nil_of_length_eq_zero h
      exact ⟨[], rfl, rfl⟩
    | succ times ih =>
      have hfirst : (bytes.take 2).length = 2 := by
        rw [List.length_take]
        omega
      have hrest : (bytes.drop 2).length = times * 2 := by
        rw [List.length_drop]
        omega
      obtain ⟨words, hlength, hwords⟩ := ih hrest
      refine ⟨word16 (bytes.take 2) :: words, by rw [List.length_cons, hlength], ?_⟩
      rw [List.flatMap_cons, wordBytes_word16 hfirst, ← hwords, List.take_append_drop]
  · rintro ⟨words, rfl, rfl⟩
    induction words with
    | nil => rfl
    | cons word words ih =>
      rw [List.flatMap_cons, List.length_append, ih, length_wordBytes, List.length_cons]
      omega

/-! ## Four bytes -/

/-- The value of four bytes is that of their upper half, shifted, and of their lower half. -/
lemma bigEndian_quadruple (a b c d : UInt8) :
    Bytes.bigEndian [a, b, c, d] = (word16 [a, b]).toNat * 65536 + (word16 [c, d]).toNat := by
  rw [toNat_word16_pair, toNat_word16_pair]
  simp only [Bytes.bigEndian, List.foldl_cons, List.foldl_nil]
  omega

/-- Four bytes are what the double word that they spell is written as. -/
lemma lengthBytes_word32 {bytes : Bytes} (h : bytes.length = 4) :
    lengthBytes (word32 bytes).toNat = bytes := by
  obtain ⟨a, b, c, d, rfl⟩ := List.length_eq_four.1 h
  have hupper : (word16 [a, b]).toNat < 65536 := UInt16.toNat_lt _
  have hlower : (word16 [c, d]).toNat < 65536 := UInt16.toNat_lt _
  have hvalue : (word32 [a, b, c, d]).toNat
      = (word16 [a, b]).toNat * 65536 + (word16 [c, d]).toNat := by
    rw [word32, bigEndian_quadruple, UInt32.toNat_ofNat']
    omega
  have hdiv : (word32 [a, b, c, d]).toNat / 65536 = (word16 [a, b]).toNat := by omega
  have hmod : (word32 [a, b, c, d]).toNat % 65536 = (word16 [c, d]).toNat := by omega
  rw [lengthBytes, hdiv, hmod, countBytes_toNat, countBytes_toNat, wordBytes_word16 rfl,
    wordBytes_word16 rfl]
  rfl

/-- A length below `0x100000000` is read back from the four bytes that it is written as. -/
lemma toNat_word32_lengthBytes {length : ℕ} (h : length < 0x100000000) :
    (word32 (lengthBytes length)).toNat = length := by
  have hupper : length / 65536 < 65536 := by omega
  have hlower : length % 65536 < 65536 := Nat.mod_lt _ (by decide)
  have hcount : ∀ {count : ℕ}, count < 65536 → (word16 (countBytes count)).toNat = count := by
    intro count hlt
    rw [countBytes, word16_wordBytes, UInt16.toNat_ofNat']
    exact Nat.mod_eq_of_lt hlt
  have hvalue : (lengthBytes length).bigEndian = length := by
    change Bytes.bigEndian [_, _, _, _] = length
    rw [bigEndian_quadruple]
    change (word16 (countBytes (length / 65536))).toNat * 65536
      + (word16 (countBytes (length % 65536))).toNat = length
    rw [hcount hupper, hcount hlower]
    omega
  rw [word32, hvalue, UInt32.toNat_ofNat']
  exact Nat.mod_eq_of_lt h

/-! ## Reading words -/

namespace Reading

variable {α : Type}

/-- A byte is read from itself. -/
lemma reads_byte_bind {after : UInt8 → Reading α} {bytes : Bytes} {value : α} :
    (byte >>= after).Reads bytes value ↔
      ∃ found rest, bytes = found :: rest ∧ (after found).Reads rest value := by
  have hbyte : ∀ found : UInt8, UInt8.ofNat (Bytes.bigEndian [found]) = found := by
    intro found
    simp [Bytes.bigEndian]
  constructor
  · rintro ⟨taken, rest, rfl, hlength, hafter⟩
    obtain ⟨found, rfl⟩ := List.length_eq_one_iff.1 hlength
    refine ⟨found, rest, rfl, ?_⟩
    rw [← hbyte found]
    exact hafter
  · rintro ⟨found, rest, rfl, hafter⟩
    refine ⟨[found], rest, rfl, rfl, ?_⟩
    change (after (UInt8.ofNat (Bytes.bigEndian [found]))).Reads rest value
    rwa [hbyte]

/-- A word is read from the two bytes that it is written as. -/
lemma reads_word_bind {after : UInt16 → Reading α} {bytes : Bytes} {value : α} :
    (word >>= after).Reads bytes value ↔
      ∃ found rest, bytes = wordBytes found ++ rest ∧ (after found).Reads rest value := by
  constructor
  · rintro ⟨taken, rest, rfl, hlength, hafter⟩
    exact ⟨word16 taken, rest, by rw [wordBytes_word16 hlength], hafter⟩
  · rintro ⟨found, rest, rfl, hafter⟩
    refine ⟨wordBytes found, rest, rfl, rfl, ?_⟩
    change (after (word16 (wordBytes found))).Reads rest value
    rwa [word16_wordBytes]

/-- A double word is read from the four bytes that its value is written as. -/
lemma reads_doubleWord_bind {after : UInt32 → Reading α} {bytes : Bytes} {value : α} :
    (doubleWord >>= after).Reads bytes value ↔
      ∃ found rest, bytes = lengthBytes found.toNat ++ rest ∧ (after found).Reads rest value := by
  constructor
  · rintro ⟨taken, rest, rfl, hlength, hafter⟩
    exact ⟨word32 taken, rest, by rw [lengthBytes_word32 hlength], hafter⟩
  · rintro ⟨found, rest, rfl, hafter⟩
    refine ⟨lengthBytes found.toNat, rest, rfl, rfl, ?_⟩
    change (after (word32 (lengthBytes found.toNat))).Reads rest value
    have hfound : word32 (lengthBytes found.toNat) = found :=
      UInt32.toNat_inj.1 (toNat_word32_lengthBytes found.toNat_lt)
    rwa [hfound]

/-! ## Counted lists -/

variable {γ : Type}

/-- A plan that reads lists of any length reads, behind a count, the lists that are short enough for
the count. -/
lemma reads_counted_iff {plan : ℕ → Reading α} {Valid : List γ → α → Prop} {encode : γ → Bytes}
    (hplan : ∀ times bytes value, (plan times).Reads bytes value ↔
      ∃ items : List γ, items.length = times ∧ Valid items value ∧ bytes = items.flatMap encode)
    {bytes : Bytes} {value : α} :
    (word >>= fun count => plan count.toNat).Reads bytes value ↔
      ∃ items : List γ, items.length < 65536 ∧ Valid items value ∧
        bytes = countBytes items.length ++ items.flatMap encode := by
  simp only [reads_word_bind, hplan]
  constructor
  · rintro ⟨count, _, rfl, items, hlength, hvalid, rfl⟩
    exact ⟨items, hlength ▸ count.toNat_lt, hvalid, by rw [hlength, countBytes_toNat]⟩
  · rintro ⟨items, hlength, hvalid, rfl⟩
    refine ⟨UInt16.ofNat items.length, _, rfl, items, ?_, hvalid, rfl⟩
    rw [UInt16.toNat_ofNat', Nat.mod_eq_of_lt hlength]

/-- A step that is repeated for its effect reads counted items if it reads one. -/
lemma reads_counted_replicate_iff {step : Reading Unit} {Valid : γ → Prop} {encode : γ → Bytes}
    (hstep : ∀ bytes, step.Reads bytes () ↔ ∃ item, Valid item ∧ bytes = encode item)
    {bytes : Bytes} :
    (word >>= fun count => replicate count.toNat step).Reads bytes () ↔
      ∃ items : List γ, items.length < 65536 ∧ (∀ item ∈ items, Valid item) ∧
        bytes = countBytes items.length ++ items.flatMap encode :=
  reads_counted_iff fun _ _ _ => reads_replicate_iff hstep

/-- A step that passes a value on reads counted items if it reads one. -/
lemma reads_counted_iterate_iff {step : α → Reading α} {Step : α → γ → α → Prop}
    {encode : γ → Bytes}
    (hstep : ∀ value bytes next, (step value).Reads bytes next ↔
      ∃ item, Step value item next ∧ bytes = encode item)
    {bytes : Bytes} {value last : α} :
    (word >>= fun count => iterate step count.toNat value).Reads bytes last ↔
      ∃ items : List γ, items.length < 65536 ∧ Linked Step value items last ∧
        bytes = countBytes items.length ++ items.flatMap encode :=
  reads_counted_iff fun _ _ _ => reads_iterate_iff hstep

end Reading

end EntryPoint.ClassFile
