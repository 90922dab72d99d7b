import EntryPoint.Proofs.ClassFile.Words

/-!
# Bytes that a plan passes over

`Reading.inspected` carries a plan out and tells for each byte whether the plan takes it. What is
not taken is stepped over, or is never reached, be it behind the end or behind a fault.

Two byte strings of the same length that agree in the bytes that are taken from the one run in
lockstep (`run_of_agree`): the plan takes the same bytes from the other one and ends in the same
way.
-/

namespace EntryPoint.ClassFile

namespace Reading

variable {α β : Type}

/-- For each of the bytes ahead, whether a plan takes it. -/
def inspected {α : Type} : Reading α → Bytes → List Bool
  | .done _, bytes => List.replicate bytes.length false
  | .fail _, bytes => List.replicate bytes.length false
  | .take n next, bytes =>
    if n ≤ bytes.length then
      List.replicate n true ++ (next (bytes.take n)).inspected (bytes.drop n)
    else
      List.replicate bytes.length false
  | .skip n next, bytes =>
    if n ≤ bytes.length then
      List.replicate n false ++ (next ()).inspected (bytes.drop n)
    else
      List.replicate bytes.length false
  | .within n body next, bytes =>
    if n ≤ bytes.length then
      body.inspected (bytes.take n) ++
        match body.run (.start (bytes.take n)) with
        | .ok (value, _) => (next value).inspected (bytes.drop n)
        | .error _ => List.replicate (bytes.length - n) false
    else
      List.replicate bytes.length false

/-- Each byte is told of once. -/
lemma length_inspected (plan : Reading α) (bytes : Bytes) :
    (plan.inspected bytes).length = bytes.length := by
  induction plan generalizing bytes with
  | done value => simp [inspected]
  | fail fault => simp [inspected]
  | take n next ih =>
    rw [inspected]
    split
    · rw [List.length_append, List.length_replicate, ih, List.length_drop]
      omega
    · exact List.length_replicate
  | skip n next ih =>
    rw [inspected]
    split
    · rw [List.length_append, List.length_replicate, ih, List.length_drop]
      omega
    · exact List.length_replicate
  | within n body next ihbody ih =>
    rw [inspected]
    split
    · rw [List.length_append, ihbody, List.length_take]
      split
      · rw [ih, List.length_drop]
        omega
      · rw [List.length_replicate]
        omega
    · exact List.length_replicate

end Reading

/-! ## Lockstep -/

/-- The byte strings have the same length and agree where bytes are marked as seen. -/
def Agree (seen : List Bool) (bytes other : Bytes) : Prop :=
  other.length = bytes.length ∧ ∀ i : ℕ, seen[i]? = some true → other[i]? = bytes[i]?

/-- What agrees in a row agrees in its first bytes and in the others. -/
lemma Agree.split {n : ℕ} {first second : List Bool} {bytes other : Bytes}
    (h : Agree (first ++ second) bytes other) (hn : first.length = n) :
    Agree first (bytes.take n) (other.take n) ∧ Agree second (bytes.drop n) (other.drop n) := by
  obtain ⟨hlength, hsame⟩ := h
  refine ⟨⟨by simp [hlength], fun i hi => ?_⟩, ⟨by simp [hlength], fun i hi => ?_⟩⟩
  · have hlt : i < first.length := (List.getElem?_eq_some_iff.1 hi).1
    rw [List.getElem?_take_of_lt (hn ▸ hlt), List.getElem?_take_of_lt (hn ▸ hlt)]
    exact hsame i (by rw [List.getElem?_append_left hlt, hi])
  · rw [List.getElem?_drop, List.getElem?_drop, ← hn]
    exact hsame _ (by rw [List.getElem?_append_right (by omega), Nat.add_sub_cancel_left, hi])

/-- What is seen as a whole is the same. -/
lemma Agree.eq {bytes other : Bytes} (h : Agree (List.replicate bytes.length true) bytes other) :
    other = bytes := by
  refine List.ext_getElem? fun i => ?_
  rcases Nat.lt_or_ge i bytes.length with hlt | hge
  · exact h.2 i (by simp [hlt])
  · rw [List.getElem?_eq_none hge, List.getElem?_eq_none (h.1 ▸ hge)]

/-- Cuts of byte strings of the same length are both too long, in the same way, or both possible. -/
lemma Cursor.cut_of_length_eq {bytes other : Bytes} (h : other.length = bytes.length)
    (offset n : ℕ) :
    (bytes.length < n ∧ ∃ fault, (Cursor.mk offset bytes).cut n = .error fault ∧
      (Cursor.mk offset other).cut n = .error fault) ∨
    (n ≤ bytes.length ∧
      (Cursor.mk offset bytes).cut n = .ok (bytes.take n, ⟨offset + n, bytes.drop n⟩) ∧
      (Cursor.mk offset other).cut n = .ok (other.take n, ⟨offset + n, other.drop n⟩)) := by
  rcases Nat.lt_or_ge bytes.length n with hshort | hlong
  · refine Or.inl ⟨hshort, .truncated offset (n - bytes.length), Cursor.cut_eq_error hshort, ?_⟩
    rw [← h]
    exact Cursor.cut_eq_error (h ▸ hshort)
  · exact Or.inr ⟨hlong, Cursor.cut_eq_ok hlong, Cursor.cut_eq_ok (h ▸ hlong)⟩

namespace Reading

variable {α β : Type}

/-- A plan ends in the same way, and takes the same bytes, on a byte string that agrees in all that
it takes. -/
theorem run_of_agree {plan : Reading α} {bytes other : Bytes}
    (h : Agree (plan.inspected bytes) bytes other) (offset : ℕ) :
    (plan.run ⟨offset, other⟩).map Prod.fst = (plan.run ⟨offset, bytes⟩).map Prod.fst ∧
      plan.inspected other = plan.inspected bytes := by
  induction plan generalizing bytes other offset with
  | done value => exact ⟨rfl, by rw [inspected, inspected, h.1]⟩
  | fail fault => exact ⟨rfl, by rw [inspected, inspected, h.1]⟩
  | take n next ih =>
    rcases Cursor.cut_of_length_eq h.1 offset n with
      ⟨hshort, fault, hcut, hother⟩ | ⟨hlong, hcut, hother⟩
    · simp only [run, inspected, hcut, hother, h.1, Nat.not_le.2 hshort, if_false, and_self]
    · simp only [run, inspected, hcut, hother, h.1, hlong, if_true] at h ⊢
      obtain ⟨hfirst, hrest⟩ := h.split List.length_replicate
      have htaken : other.take n = bytes.take n := by
        refine Agree.eq ?_
        rwa [List.length_take_of_le hlong]
      obtain ⟨hrun, hseen⟩ := ih (bytes.take n) hrest (offset + n)
      rw [htaken]
      exact ⟨hrun, by rw [hseen]⟩
  | skip n next ih =>
    rcases Cursor.cut_of_length_eq h.1 offset n with
      ⟨hshort, fault, hcut, hother⟩ | ⟨hlong, hcut, hother⟩
    · simp only [run, inspected, hcut, hother, h.1, Nat.not_le.2 hshort, if_false, and_self]
    · simp only [run, inspected, hcut, hother, h.1, hlong, if_true] at h ⊢
      obtain ⟨-, hrest⟩ := h.split List.length_replicate
      obtain ⟨hrun, hseen⟩ := ih () hrest (offset + n)
      exact ⟨hrun, by rw [hseen]⟩
  | within n body next ihbody ih =>
    rcases Cursor.cut_of_length_eq h.1 offset n with
      ⟨hshort, fault, hcut, hother⟩ | ⟨hlong, hcut, hother⟩
    · simp only [run, inspected, hcut, hother, h.1, Nat.not_le.2 hshort, if_false, and_self]
    · simp only [run, inspected, hcut, hother, h.1, hlong, if_true] at h ⊢
      obtain ⟨hpart, hrest⟩ := h.split
        ((length_inspected body _).trans (List.length_take_of_le hlong))
      obtain ⟨hbody, hbodySeen⟩ := ihbody hpart 0
      rw [hbodySeen]
      change (body.run (.start (other.take n))).map Prod.fst
        = (body.run (.start (bytes.take n))).map Prod.fst at hbody
      cases hrun : body.run (.start (bytes.take n)) with
      | error fault =>
        cases hrunOther : body.run (.start (other.take n)) with
        | ok outcome => simp [hrun, hrunOther, Except.map] at hbody
        | error found =>
          obtain rfl : found = fault := by
            simpa [hrun, hrunOther, Except.map] using hbody
          exact ⟨rfl, rfl⟩
      | ok outcome =>
        obtain ⟨value, left⟩ := outcome
        cases hrunOther : body.run (.start (other.take n)) with
        | error fault => simp [hrun, hrunOther, Except.map] at hbody
        | ok outcome =>
          obtain ⟨found, leftOther⟩ := outcome
          obtain rfl : found = value := by
            simpa [hrun, hrunOther, Except.map] using hbody
          rw [hrun] at hrest
          obtain ⟨hnext, hnextSeen⟩ := ih found hrest (offset + n)
          exact ⟨hnext, congrArg (body.inspected (bytes.take n) ++ ·) hnextSeen⟩

end Reading

/-! ## Marked bytes -/

/-- Bytes, each with a mark that says whether its value matters. -/
abbrev MarkedBytes := List (UInt8 × Bool)

/-- The bytes without their marks. -/
def bytesOf (marked : MarkedBytes) : Bytes :=
  marked.map Prod.fst

/-- Bytes whose values matter. -/
def seen (bytes : Bytes) : MarkedBytes :=
  bytes.map fun byte => (byte, true)

/-- Bytes whose values do not matter. -/
def unseen (bytes : Bytes) : MarkedBytes :=
  bytes.map fun byte => (byte, false)

@[simp] lemma bytesOf_append (first second : MarkedBytes) :
    bytesOf (first ++ second) = bytesOf first ++ bytesOf second :=
  List.map_append

@[simp] lemma bytesOf_seen (bytes : Bytes) : bytesOf (seen bytes) = bytes := by
  simp [bytesOf, seen, Function.comp_def]

@[simp] lemma bytesOf_unseen (bytes : Bytes) : bytesOf (unseen bytes) = bytes := by
  simp [bytesOf, unseen, Function.comp_def]

@[simp] lemma length_bytesOf (marked : MarkedBytes) : (bytesOf marked).length = marked.length :=
  List.length_map _

@[simp] lemma length_seen (bytes : Bytes) : (seen bytes).length = bytes.length :=
  List.length_map _

@[simp] lemma length_unseen (bytes : Bytes) : (unseen bytes).length = bytes.length :=
  List.length_map _

lemma seen_append (first second : Bytes) : seen (first ++ second) = seen first ++ seen second :=
  List.map_append

namespace Reading

/-- Whether a plan, carried out on the given bytes, uses them up and takes only bytes whose values
are marked as ones that matter. Nothing is asked of what lies behind a fault. The plan of a part may
find less than it would use up. -/
def Respects {α : Type} : Reading α → MarkedBytes → Prop
  | .done _, marked => marked = []
  | .fail _, _ => True
  | .take n next, marked =>
    ∃ taken rest, marked = seen taken ++ rest ∧ taken.length = n ∧ (next taken).Respects rest
  | .skip n next, marked =>
    ∃ passed rest, marked = passed ++ rest ∧ passed.length = n ∧ (next ()).Respects rest
  | .within n body next, marked =>
    ∃ part rest, marked = part ++ rest ∧ part.length = n ∧
      (∃ whole unread, body.Respects whole ∧ part <+: whole ++ unread) ∧
      ∀ used unused value, bytesOf part = used ++ unused → body.Reads used value →
        (next value).Respects rest

/-- A byte string that goes together with two others in a row for at least the first of them starts
with that one, and what follows goes together with the second. -/
lemma take_eq_of_append {bytes first rest : Bytes} {n k : ℕ}
    (h : bytes.take n = (first ++ rest).take n) (hk : first.length = k) (hn : k ≤ n) :
    bytes.take k = first ∧ (bytes.drop k).take (n - k) = rest.take (n - k) := by
  constructor
  · have hfirst := congrArg (List.take k) h
    rwa [List.take_take, List.take_take, Nat.min_eq_left hn, List.take_left' hk] at hfirst
  · have hrest := congrArg (List.drop k) h
    rwa [List.drop_take, List.drop_take, List.drop_left' hk] at hrest

/-- A byte string that goes together with another one for some length goes together with what that
one starts. -/
lemma take_eq_of_prefix {bytes part more whole : Bytes} {n k : ℕ}
    (h : bytes.take n = (part ++ more).take n) (hk : part.length = k) (hpart : part <+: whole) :
    (bytes.take k).take (min n k) = whole.take (min n k) := by
  obtain ⟨tail, rfl⟩ := hpart
  have hstart := congrArg (List.take k) h
  rw [List.take_take, List.take_take, Nat.min_comm k n,
    List.take_append_of_le_length (by omega)] at hstart
  rw [List.take_take, Nat.min_assoc, Nat.min_self, hstart,
    List.take_append_of_le_length (by omega)]

/-- What a list holds in a place is held there by what the list and more start with. -/
lemma getElem?_of_prefix {α : Type} {part whole unread : List α} {i : ℕ} {value : α}
    (hpart : part <+: whole ++ unread) (hi : i < part.length) (h : whole[i]? = some value) :
    part[i]? = some value := by
  obtain ⟨tail, htail⟩ := hpart
  have hwhole : i < whole.length := (List.getElem?_eq_some_iff.1 h).1
  rwa [← List.getElem?_append_left hwhole, ← htail, List.getElem?_append_left hi] at h

/-- No byte is inspected where none is. -/
lemma getElem?_replicate_false_ne {n i : ℕ} : (List.replicate n false)[i]? ≠ some true := by
  rw [List.getElem?_replicate]
  split <;> simp

/-- On a byte string that starts like the marked bytes, a plan that respects the marks takes only
bytes that are marked, as far as the two byte strings go together. -/
theorem marked_of_inspected {plan : Reading α} {marked : MarkedBytes} (h : plan.Respects marked)
    {bytes more : Bytes} {n i : ℕ} (hbytes : bytes.take n = (bytesOf marked ++ more).take n)
    (hi : i < n) (hinspected : (plan.inspected bytes)[i]? = some true) :
    ∃ byte, marked[i]? = some (byte, true) := by
  induction plan generalizing marked bytes more n i with
  | done value => exact absurd hinspected getElem?_replicate_false_ne
  | fail fault => exact absurd hinspected getElem?_replicate_false_ne
  | take k next ih =>
    obtain ⟨taken, rest, rfl, hlength, hrest⟩ := h
    rw [inspected] at hinspected
    split at hinspected
    · rcases Nat.lt_or_ge i k with hik | hki
      · refine ⟨taken[i], ?_⟩
        rw [List.getElem?_append_left (by simpa [hlength] using hik)]
        simp [seen]
      · rw [List.getElem?_append_right (by simpa using hki), List.length_replicate] at hinspected
        rw [bytesOf_append, bytesOf_seen, List.append_assoc] at hbytes
        obtain ⟨htaken, hgo⟩ := take_eq_of_append hbytes hlength (by omega)
        rw [htaken] at hinspected
        obtain ⟨byte, hbyte⟩ := ih taken hrest hgo (by omega) hinspected
        refine ⟨byte, ?_⟩
        rwa [List.getElem?_append_right (by simpa [hlength] using hki), length_seen, hlength]
    · exact absurd hinspected getElem?_replicate_false_ne
  | skip k next ih =>
    obtain ⟨passed, rest, rfl, hlength, hrest⟩ := h
    rw [inspected] at hinspected
    split at hinspected
    · rcases Nat.lt_or_ge i k with hik | hki
      · rw [List.getElem?_append_left (by simpa using hik)] at hinspected
        exact absurd hinspected getElem?_replicate_false_ne
      · rw [List.getElem?_append_right (by simpa using hki), List.length_replicate] at hinspected
        rw [bytesOf_append, List.append_assoc] at hbytes
        obtain ⟨-, hgo⟩ := take_eq_of_append hbytes (by simpa using hlength) (by omega)
        obtain ⟨byte, hbyte⟩ := ih () hrest hgo (by omega) hinspected
        refine ⟨byte, ?_⟩
        rwa [List.getElem?_append_right (by omega), hlength]
    · exact absurd hinspected getElem?_replicate_false_ne
  | within k body next ihbody ih =>
    obtain ⟨part, rest, rfl, hlength, ⟨whole, unread, hwhole, hstart⟩, hrest⟩ := h
    rw [inspected] at hinspected
    rw [bytesOf_append, List.append_assoc] at hbytes
    split at hinspected
    · rename_i hlong
      have hcut : (body.inspected (bytes.take k)).length = k := by
        rw [length_inspected, List.length_take_of_le hlong]
      rcases Nat.lt_or_ge i k with hik | hki
      · rw [List.getElem?_append_left (by omega)] at hinspected
        have hstartBytes : bytesOf part <+: bytesOf whole ++ bytesOf unread := by
          rw [← bytesOf_append]
          exact hstart.map Prod.fst
        have hpart := take_eq_of_prefix hbytes (by simpa using hlength) hstartBytes
        obtain ⟨byte, hbyte⟩ := ihbody hwhole hpart (by omega) hinspected
        refine ⟨byte, ?_⟩
        rw [List.getElem?_append_left (by omega)]
        exact getElem?_of_prefix hstart (by omega) hbyte
      · rw [List.getElem?_append_right (by omega), hcut] at hinspected
        obtain ⟨hpart, hgo⟩ := take_eq_of_append hbytes (by simpa using hlength) (by omega)
        split at hinspected
        · rename_i value left hrun
          obtain ⟨used, hmoves, hreads⟩ := run_eq_ok_iff.1 hrun
          obtain ⟨byte, hbyte⟩ := ih value
            (hrest used left.rest value (hpart ▸ hmoves.1) hreads) hgo (by omega) hinspected
          refine ⟨byte, ?_⟩
          rwa [List.getElem?_append_right (by omega), hlength]
        · exact absurd hinspected getElem?_replicate_false_ne
    · exact absurd hinspected getElem?_replicate_false_ne

end Reading

/-! ## Plans in a row -/

namespace Reading

variable {α β γ : Type}

/-- Two plans in a row respect the marks of two byte strings in a row. -/
lemma Respects.bind {plan : Reading α} {after : α → Reading β} {first second : MarkedBytes}
    (hplan : plan.Respects first)
    (hafter : ∀ value, plan.Reads (bytesOf first) value → (after value).Respects second) :
    (plan >>= after).Respects (first ++ second) := by
  change (plan.bind after).Respects (first ++ second)
  induction plan generalizing first with
  | done value =>
    obtain rfl := hplan
    exact hafter value ⟨rfl, rfl⟩
  | fail fault => trivial
  | take n next ih =>
    obtain ⟨taken, rest, rfl, hlength, hrest⟩ := hplan
    refine ⟨taken, rest ++ second, List.append_assoc _ _ _, hlength, ih taken hrest ?_⟩
    exact fun value hreads => hafter value ⟨taken, bytesOf rest, by simp, hlength, hreads⟩
  | skip n next ih =>
    obtain ⟨passed, rest, rfl, hlength, hrest⟩ := hplan
    refine ⟨passed, rest ++ second, List.append_assoc _ _ _, hlength, ih () hrest ?_⟩
    exact fun value hreads =>
      hafter value ⟨bytesOf passed, bytesOf rest, by simp, by simpa using hlength, hreads⟩
  | within n body next _ ih =>
    obtain ⟨part, rest, rfl, hlength, hbody, hrest⟩ := hplan
    refine ⟨part, rest ++ second, List.append_assoc _ _ _, hlength, hbody, ?_⟩
    intro used unused found hpart hreads
    refine ih found (hrest used unused found hpart hreads) fun value hnext => ?_
    exact hafter value ⟨bytesOf part, bytesOf rest, by simp, by simpa using hlength, used, unused,
      found, hpart, hreads, hnext⟩

/-- Ends with a value behind a plan. -/
lemma Respects.map {plan : Reading α} {marked : MarkedBytes} (h : plan.Respects marked)
    (value : α → β) : (plan >>= fun found => pure (value found)).Respects marked := by
  have hbind : (plan >>= fun found => pure (value found)).Respects (marked ++ []) :=
    h.bind fun _ _ => rfl
  rwa [List.append_nil] at hbind

/-- A byte that is taken has to be marked. -/
lemma respects_byte_bind {after : UInt8 → Reading α} {found : UInt8} {rest : MarkedBytes}
    (h : (after found).Respects rest) : (byte >>= after).Respects (seen [found] ++ rest) := by
  refine ⟨[found], rest, rfl, rfl, ?_⟩
  have hfound : UInt8.ofNat (Bytes.bigEndian [found]) = found := by
    simp [Bytes.bigEndian]
  change (after (UInt8.ofNat (Bytes.bigEndian [found]))).Respects rest
  rwa [hfound]

/-- A word that is taken has to be marked. -/
lemma respects_word_bind {after : UInt16 → Reading α} {found : UInt16} {rest : MarkedBytes}
    (h : (after found).Respects rest) :
    (word >>= after).Respects (seen (wordBytes found) ++ rest) := by
  refine ⟨wordBytes found, rest, rfl, rfl, ?_⟩
  change (after (word16 (wordBytes found))).Respects rest
  rwa [word16_wordBytes]

/-- A double word that is taken has to be marked. -/
lemma respects_doubleWord_bind {after : UInt32 → Reading α} {length : ℕ} {rest : MarkedBytes}
    (h : ∀ found : UInt32, found.toNat = length → (after found).Respects rest)
    (hlength : length < 0x100000000) :
    (doubleWord >>= after).Respects (seen (lengthBytes length) ++ rest) :=
  ⟨lengthBytes length, rest, rfl, rfl, h _ (toNat_word32_lengthBytes hlength)⟩

/-- What is passed may be marked in any way. -/
lemma respects_pass_bind {n : ℕ} {after : Unit → Reading α} {passed rest : MarkedBytes}
    (hlength : passed.length = n) (h : (after ()).Respects rest) :
    (pass n >>= after).Respects (passed ++ rest) :=
  ⟨passed, rest, rfl, hlength, h⟩

lemma respects_pass {n : ℕ} {passed : MarkedBytes} (hlength : passed.length = n) :
    (pass n).Respects passed :=
  ⟨passed, [], (List.append_nil passed).symm, hlength, rfl⟩

/-- A value that is settled takes nothing, and behind a fault nothing matters. -/
lemma respects_settled_bind {settlement : Except Fault α} {after : α → Reading β}
    {marked : MarkedBytes} (h : ∀ value, settlement = .ok value → (after value).Respects marked) :
    (settled settlement >>= after).Respects marked := by
  cases settlement with
  | error fault => trivial
  | ok value => exact h value rfl

/-- A repeated plan respects the marks of byte strings in a row if one step respects those of
each. -/
lemma respects_iterate {step : α → Reading α} {marked : List MarkedBytes}
    (h : ∀ item ∈ marked, ∀ value, (step value).Respects item) (value : α) :
    (iterate step marked.length value).Respects marked.flatten := by
  induction marked generalizing value with
  | nil => rfl
  | cons item marked ih =>
    rw [List.forall_mem_cons] at h
    exact (h.1 value).bind fun next _ => ih h.2 next

/-- Behind a count, a repeated plan respects the marks of the items that are counted. -/
lemma respects_counted_iterate {step : α → Reading α} {marked : List MarkedBytes} {count : ℕ}
    (hcount : marked.length = count) (hlt : count < 65536)
    (h : ∀ item ∈ marked, ∀ value, (step value).Respects item) (value : α) :
    (word >>= fun count => iterate step count.toNat value).Respects
      (seen (countBytes count) ++ marked.flatten) := by
  refine respects_word_bind ?_
  rw [UInt16.toNat_ofNat', Nat.mod_eq_of_lt hlt, ← hcount]
  exact respects_iterate h value

/-- Behind a count, a step that is repeated for its effect respects the marks of the items. -/
lemma respects_counted_replicate {step : Reading Unit} {items : List γ} {mark : γ → MarkedBytes}
    (hlt : items.length < 65536) (h : ∀ item ∈ items, step.Respects (mark item)) :
    (word >>= fun count => replicate count.toNat step).Respects
      (seen (countBytes items.length) ++ items.flatMap mark) := by
  rw [List.flatMap_def]
  refine respects_counted_iterate (List.length_map _) hlt (fun item hitem _ => ?_) ()
  obtain ⟨item, hmem, rfl⟩ := List.mem_map.1 hitem
  exact h item hmem

/-- A plan reads one value from a byte string. -/
lemma Reads.unique {plan : Reading α} {bytes : Bytes} {value found : α}
    (h : plan.Reads bytes value) (hfound : plan.Reads bytes found) : found = value := by
  have hmoves : (Cursor.start bytes).Moves bytes ⟨bytes.length, []⟩ := by
    simp [Cursor.Moves, Cursor.start]
  have hrun := (reads_iff_run hmoves).1 h
  rw [(reads_iff_run hmoves).1 hfound] at hrun
  cases hrun
  rfl

end Reading

end EntryPoint.ClassFile
