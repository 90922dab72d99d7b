import EntryPoint.ClassFile.Reading.Lemmas
import Mathlib.Tactic.Common

/-!
# What a plan reads

A plan of reads denotes a language: `Reads plan bytes value` says that the plan uses up exactly
`bytes` and ends with `value`.  The relation knows neither an offset nor what follows, so it is the
grammar that a plan stands for.

`run_eq_ok_iff` ties it to runs: a run succeeds exactly if what lies ahead starts with a byte string
that the plan reads, and it then stops right behind that byte string.  The remaining lemmas say what
the single kinds of read and their combinations read.
-/

namespace EntryPoint.ClassFile

/-! ## Moves of a cursor -/

/-- The second cursor lies right behind the given bytes, which lie ahead of the first. -/
def Cursor.Moves (cursor : Cursor) (bytes : Bytes) (behind : Cursor) : Prop :=
  cursor.rest = bytes ++ behind.rest ∧ behind.offset = cursor.offset + bytes.length

/-- A cursor that moves over nothing stays where it is. -/
lemma Cursor.moves_nil {cursor behind : Cursor} : cursor.Moves [] behind ↔ behind = cursor := by
  obtain ⟨offset, rest⟩ := cursor
  obtain ⟨offset', rest'⟩ := behind
  simp [Cursor.Moves, eq_comm, and_comm]

/-- To move over two byte strings in a row is to move over the one and then over the other. -/
lemma Cursor.moves_append {cursor behind : Cursor} {first second : Bytes} :
    cursor.Moves (first ++ second) behind ↔
      ∃ between, cursor.Moves first between ∧ between.Moves second behind := by
  constructor
  · rintro ⟨hrest, hoffset⟩
    refine ⟨⟨cursor.offset + first.length, second ++ behind.rest⟩, ⟨?_, rfl⟩, rfl, ?_⟩
    · rw [hrest, List.append_assoc]
    · rw [hoffset, List.length_append, Nat.add_assoc]
  · rintro ⟨between, ⟨hrest, hoffset⟩, hrest', hoffset'⟩
    refine ⟨?_, ?_⟩
    · rw [hrest, hrest', List.append_assoc]
    · rw [hoffset', hoffset, List.length_append, Nat.add_assoc]

/-- A cut of `n` bytes succeeds exactly by a move over `n` bytes. -/
lemma Cursor.cut_eq_ok_iff {cursor behind : Cursor} {n : ℕ} {taken : Bytes} :
    cursor.cut n = .ok (taken, behind) ↔ taken.length = n ∧ cursor.Moves taken behind := by
  obtain ⟨offset, ahead⟩ := cursor
  obtain ⟨offset', rest⟩ := behind
  constructor
  · intro h
    rcases Nat.lt_or_ge ahead.length n with hshort | hlong
    · rw [Cursor.cut_eq_error hshort] at h
      cases h
    · rw [Cursor.cut_eq_ok hlong] at h
      simp only [Except.ok.injEq, Prod.mk.injEq, Cursor.mk.injEq] at h
      obtain ⟨rfl, rfl, rfl⟩ := h
      have hlength : (ahead.take n).length = n := by
        rw [List.length_take, Nat.min_eq_left hlong]
      exact ⟨hlength, (List.take_append_drop n ahead).symm, congrArg (offset + ·) hlength.symm⟩
  · rintro ⟨rfl, hahead, hoffset⟩
    simp only at hahead hoffset
    rw [hahead, hoffset]
    exact Cursor.cut_append offset taken rest

namespace Reading

variable {α β γ : Type}

/-! ## The language of a plan -/

/-- The plan uses up exactly the given bytes and ends with the given value. -/
def Reads {α : Type} : Reading α → Bytes → α → Prop
  | .done value, bytes, found => bytes = [] ∧ found = value
  | .fail _, _, _ => False
  | .take n next, bytes, found =>
    ∃ taken rest, bytes = taken ++ rest ∧ taken.length = n ∧ (next taken).Reads rest found
  | .skip n next, bytes, found =>
    ∃ taken rest, bytes = taken ++ rest ∧ taken.length = n ∧ (next ()).Reads rest found
  | .within n body next, bytes, found =>
    ∃ part rest, bytes = part ++ rest ∧ part.length = n ∧
      ∃ used unused value, part = used ++ unused ∧ body.Reads used value ∧
        (next value).Reads rest found

/-- Cutting `n` bytes and going on from there is moving over a byte string that starts with `n`
bytes. -/
lemma exists_cut_iff {cursor behind : Cursor} {n : ℕ} {Goes : Bytes → Bytes → Prop} :
    (∃ taken between, cursor.cut n = .ok (taken, between) ∧
        ∃ rest, between.Moves rest behind ∧ Goes taken rest) ↔
      ∃ bytes, cursor.Moves bytes behind ∧
        ∃ taken rest, bytes = taken ++ rest ∧ taken.length = n ∧ Goes taken rest := by
  simp only [Cursor.cut_eq_ok_iff]
  constructor
  · rintro ⟨taken, between, ⟨hlength, hfirst⟩, rest, hsecond, hgoes⟩
    exact ⟨taken ++ rest, Cursor.moves_append.2 ⟨between, hfirst, hsecond⟩, taken, rest, rfl,
      hlength, hgoes⟩
  · rintro ⟨_, hmoves, taken, rest, rfl, hlength, hgoes⟩
    obtain ⟨between, hfirst, hsecond⟩ := Cursor.moves_append.1 hmoves
    exact ⟨taken, between, ⟨hlength, hfirst⟩, rest, hsecond, hgoes⟩

/-- A plan that starts by taking bytes succeeds if the bytes are there and the rest succeeds. -/
lemma run_take_eq_ok_iff {n : ℕ} {next : Bytes → Reading α} {cursor behind : Cursor} {value : α} :
    (Reading.take n next).run cursor = .ok (value, behind) ↔
      ∃ taken between, cursor.cut n = .ok (taken, between) ∧
        (next taken).run between = .ok (value, behind) := by
  rw [run]
  cases cursor.cut n with
  | error fault => simp
  | ok found =>
    constructor
    · exact fun h => ⟨found.1, found.2, rfl, h⟩
    · rintro ⟨_, _, hfound, h⟩
      cases hfound
      exact h

/-- Skipping is taking without a look at what is taken. -/
lemma run_skip (n : ℕ) (next : Unit → Reading α) (cursor : Cursor) :
    (Reading.skip n next).run cursor = (Reading.take n fun _ => next ()).run cursor := by
  rw [run, run]

/-- A part with a plan of its own is taken, and its plan runs from the part's start. -/
lemma run_within_eq_ok_iff {n : ℕ} {body : Reading β} {next : β → Reading α}
    {cursor behind : Cursor} {value : α} :
    (Reading.within n body next).run cursor = .ok (value, behind) ↔
      ∃ part between, cursor.cut n = .ok (part, between) ∧
        ∃ inner left, body.run (.start part) = .ok (inner, left) ∧
          (next inner).run between = .ok (value, behind) := by
  rw [run]
  cases cursor.cut n with
  | error fault => simp
  | ok found =>
    obtain ⟨part, between⟩ := found
    cases hbody : body.run (.start part) with
    | error fault => simp [hbody]
    | ok outcome =>
      obtain ⟨inner, left⟩ := outcome
      simp [hbody]

/-- A run succeeds exactly by a move over bytes that the plan reads. -/
theorem run_eq_ok_iff {plan : Reading α} {cursor behind : Cursor} {value : α} :
    plan.run cursor = .ok (value, behind) ↔
      ∃ bytes, cursor.Moves bytes behind ∧ plan.Reads bytes value := by
  induction plan generalizing cursor behind with
  | done found =>
    simp only [run, Reads, Except.ok.injEq, Prod.mk.injEq]
    constructor
    · rintro ⟨rfl, rfl⟩
      exact ⟨[], Cursor.moves_nil.2 rfl, rfl, rfl⟩
    · rintro ⟨_, hmoves, rfl, rfl⟩
      exact ⟨rfl, (Cursor.moves_nil.1 hmoves).symm⟩
  | fail fault => simp [run, Reads]
  | take n next ih =>
    simp only [run_take_eq_ok_iff, ih]
    exact exists_cut_iff
  | skip n next ih =>
    rw [run_skip]
    simp only [run_take_eq_ok_iff, ih]
    exact exists_cut_iff
  | within n body next ihbody ihnext =>
    simp only [run_within_eq_ok_iff, ihbody, ihnext]
    have hstart : ∀ {part used : Bytes} {left : Cursor},
        (Cursor.start part).Moves used left ↔
          part = used ++ left.rest ∧ left.offset = used.length := by
      intro part used left
      simp [Cursor.start, Cursor.Moves]
    refine Iff.trans ?_ exists_cut_iff
    refine exists_congr fun part => exists_congr fun between => and_congr_right fun _ => ?_
    constructor
    · rintro ⟨inner, left, ⟨used, hused, hbody⟩, rest, hrest, hnext⟩
      exact ⟨rest, hrest, used, left.rest, inner, (hstart.1 hused).1, hbody, hnext⟩
    · rintro ⟨rest, hrest, used, unused, inner, hpart, hbody, hnext⟩
      exact ⟨inner, ⟨used.length, unused⟩, ⟨used, hstart.2 ⟨hpart, rfl⟩, hbody⟩, rest, hrest, hnext⟩

/-- What a plan reads, it reads at every cursor before which the bytes lie. -/
lemma reads_iff_run {plan : Reading α} {cursor behind : Cursor} {bytes : Bytes} {value : α}
    (h : cursor.Moves bytes behind) :
    plan.Reads bytes value ↔ plan.run cursor = .ok (value, behind) := by
  rw [run_eq_ok_iff]
  constructor
  · exact fun hreads => ⟨bytes, h, hreads⟩
  · rintro ⟨bytes', h', hreads⟩
    have hsame : bytes' = bytes := List.append_cancel_right (h'.1.symm.trans h.1)
    rwa [← hsame]

/-! ## Combinations of plans -/

@[simp] lemma reads_pure {value found : α} {bytes : Bytes} :
    (pure value : Reading α).Reads bytes found ↔ bytes = [] ∧ found = value :=
  Iff.rfl

@[simp] lemma reads_fail {fault : Fault} {bytes : Bytes} {found : α} :
    (Reading.fail fault : Reading α).Reads bytes found ↔ False :=
  Iff.rfl

/-- Two plans in a row succeed exactly if the first does and the second does from there. -/
lemma run_bind_eq_ok_iff {plan : Reading α} {after : α → Reading β} {cursor behind : Cursor}
    {value : β} :
    (plan >>= after).run cursor = .ok (value, behind) ↔
      ∃ found between, plan.run cursor = .ok (found, between) ∧
        (after found).run between = .ok (value, behind) := by
  change (plan.bind after).run cursor = _ ↔ _
  rw [run_bind]
  cases plan.run cursor with
  | error fault => simp
  | ok outcome =>
    obtain ⟨found, between⟩ := outcome
    simp

/-- Two plans in a row read what they read one after the other. -/
theorem reads_bind {plan : Reading α} {after : α → Reading β} {bytes : Bytes} {value : β} :
    (plan >>= after).Reads bytes value ↔
      ∃ first second found, bytes = first ++ second ∧ plan.Reads first found ∧
        (after found).Reads second value := by
  have hmoves : (Cursor.start bytes).Moves bytes ⟨bytes.length, []⟩ := by
    simp [Cursor.Moves, Cursor.start]
  rw [reads_iff_run hmoves, run_bind_eq_ok_iff]
  simp only [run_eq_ok_iff]
  constructor
  · rintro ⟨found, between, ⟨first, hfirst, hplan⟩, second, hsecond, hafter⟩
    refine ⟨first, second, found, ?_, hplan, hafter⟩
    have hboth := (Cursor.moves_append.2 ⟨between, hfirst, hsecond⟩).1
    simpa [Cursor.start] using hboth
  · rintro ⟨first, second, found, rfl, hplan, hafter⟩
    obtain ⟨between, hfirst, hsecond⟩ := Cursor.moves_append.1 hmoves
    exact ⟨found, between, ⟨first, hfirst, hplan⟩, second, hsecond, hafter⟩

/-- A plan that is carried out for its effect reads a first part of what is read. -/
lemma reads_unit_bind {plan : Reading Unit} {after : Unit → Reading β} {bytes : Bytes} {value : β} :
    (plan >>= after).Reads bytes value ↔
      ∃ first second, bytes = first ++ second ∧ plan.Reads first () ∧
        (after ()).Reads second value := by
  rw [reads_bind]
  constructor
  · rintro ⟨first, second, ⟨⟩, h⟩
    exact ⟨first, second, h⟩
  · rintro ⟨first, second, h⟩
    exact ⟨first, second, (), h⟩

/-- A settled value is read from nothing. -/
lemma reads_settled_bind {settlement : Except Fault α} {after : α → Reading β} {bytes : Bytes}
    {value : β} :
    (settled settlement >>= after).Reads bytes value ↔
      ∃ found, settlement = .ok found ∧ (after found).Reads bytes value := by
  cases settlement with
  | error fault => simp [reads_bind, settled]
  | ok found => simp [reads_bind, settled, Reads]

/-- Steps over `n` bytes, whatever they are. -/
lemma reads_pass_bind {n : ℕ} {after : Unit → Reading β} {bytes : Bytes} {value : β} :
    (pass n >>= after).Reads bytes value ↔
      ∃ passed rest, bytes = passed ++ rest ∧ passed.length = n ∧ (after ()).Reads rest value :=
  Iff.rfl

/-- Takes `n` bytes and goes on with them. -/
lemma reads_bytes_bind {n : ℕ} {after : Bytes → Reading β} {bytes : Bytes} {value : β} :
    (Reading.bytes n >>= after).Reads bytes value ↔
      ∃ taken rest, bytes = taken ++ rest ∧ taken.length = n ∧ (after taken).Reads rest value :=
  Iff.rfl

/-- A part of `n` bytes, of which a plan of its own reads the first. -/
lemma reads_part {n : ℕ} {body : Reading α} {bytes : Bytes} {value : α} :
    (part n body).Reads bytes value ↔
      bytes.length = n ∧ ∃ used unused, bytes = used ++ unused ∧ body.Reads used value := by
  constructor
  · rintro ⟨_, _, rfl, rfl, used, unused, found, rfl, hbody, rfl, rfl⟩
    exact ⟨by simp, used, unused, by simp, hbody⟩
  · rintro ⟨hlength, used, unused, rfl, hbody⟩
    exact ⟨_, [], by simp, hlength, used, unused, value, rfl, hbody, rfl, rfl⟩

/-! ## Repetition -/

/-- Values that are linked by one step for each item of a list. -/
def Linked (Step : α → γ → α → Prop) : α → List γ → α → Prop
  | value, [], last => last = value
  | value, item :: items, last => ∃ next, Step value item next ∧ Linked Step next items last

/-- If one step reads an item, a repeated step reads a list of items. -/
theorem reads_iterate_iff {step : α → Reading α} {Step : α → γ → α → Prop} {encode : γ → Bytes}
    (hstep : ∀ value bytes next, (step value).Reads bytes next ↔
      ∃ item, Step value item next ∧ bytes = encode item)
    {times : ℕ} {value last : α} {bytes : Bytes} :
    (iterate step times value).Reads bytes last ↔
      ∃ items, items.length = times ∧ Linked Step value items last ∧
        bytes = items.flatMap encode := by
  induction times generalizing value bytes with
  | zero =>
    constructor
    · rintro ⟨rfl, rfl⟩
      exact ⟨[], rfl, rfl, rfl⟩
    · rintro ⟨items, hlength, hlinked, rfl⟩
      obtain rfl := List.eq_nil_of_length_eq_zero hlength
      exact ⟨rfl, hlinked⟩
  | succ times ih =>
    change (step value >>= iterate step times).Reads bytes last ↔ _
    simp only [reads_bind, hstep, ih]
    constructor
    · rintro ⟨_, _, next, rfl, ⟨item, hitem, rfl⟩, items, hlength, hlinked, rfl⟩
      exact ⟨item :: items, by simp [hlength], ⟨next, hitem, hlinked⟩, rfl⟩
    · rintro ⟨items, hlength, hlinked, rfl⟩
      obtain ⟨item, items, rfl⟩ := List.exists_cons_of_length_eq_add_one hlength
      obtain ⟨next, hitem, hrest⟩ := hlinked
      exact ⟨encode item, _, next, rfl, ⟨item, hitem, rfl⟩, items, by simpa using hlength, hrest,
        rfl⟩

/-- If a plan reads an item, repeating it for its effect reads a list of items. -/
theorem reads_replicate_iff {step : Reading Unit} {Valid : γ → Prop} {encode : γ → Bytes}
    (hstep : ∀ bytes, step.Reads bytes () ↔ ∃ item, Valid item ∧ bytes = encode item)
    {times : ℕ} {bytes : Bytes} :
    (replicate times step).Reads bytes () ↔
      ∃ items : List γ, items.length = times ∧ (∀ item ∈ items, Valid item) ∧
        bytes = items.flatMap encode := by
  have hlinked : ∀ items : List γ,
      Linked (fun _ item _ => Valid item) () items () ↔ ∀ item ∈ items, Valid item := by
    intro items
    induction items with
    | nil => simp [Linked]
    | cons item items ih => simp [Linked, ih]
  have hiterate : (iterate (fun _ : Unit => step) times ()).Reads bytes () ↔
      ∃ items, items.length = times ∧ Linked (fun _ item _ => Valid item) () items () ∧
        bytes = items.flatMap encode :=
    reads_iterate_iff fun _ bytes _ => hstep bytes
  rw [replicate, hiterate]
  simp only [hlinked]

end Reading

/-! ## Results that are collected -/

/-- What is collected in two parts is collected at once. -/
lemma collect_append {α : Type} (found : Array α) (first others : List α) :
    found ++ first ++ others = found ++ (first ++ others) := by
  apply Array.ext'
  simp

end EntryPoint.ClassFile
