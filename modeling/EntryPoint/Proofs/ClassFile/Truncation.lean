import EntryPoint.Proofs.ClassFile.Extension

/-!
# Longer and shorter class files

The plan for class files is truthful: none of its steps declares a truncation on its own, and the
only parts with a known length that are read by a plan of their own are the bodies of the
attributes. So a class file with more bytes behind it has the same summary, a cut anywhere within
what was read is a truncation that names the missing bytes, and any other fault is final.
-/

namespace EntryPoint.ClassFile

open Reading

/-- No part at all. -/
def Nowhere (_before _part : Bytes) (_fault : Fault) : Prop :=
  False

/-- Whether a part is the body of an annotation attribute, whose name and length are the last that
was read before it, and reading its table fails with the given fault. -/
def FailsInTable (pool : ConstantPool) (before part : Bytes) (fault : Fault) : Prop :=
  ∃ (earlier : Bytes) (name : UInt16) (found : Array String),
    before = earlier ++ wordBytes name ++ lengthBytes part.length ∧
      (pool.text name = .ok visibleTableName ∨ pool.text name = .ok invisibleTableName) ∧
        (readAnnotationTable pool found).run (.start part) = .error fault

/-- The same within a class file, whose constants follow the mark and the version. -/
def FailsInAnnotations (before part : Bytes) (fault : Fault) : Prop :=
  ∃ (start constants declared : Bytes) (pool : ConstantPool),
    start.length = 8 ∧ ConstantPool.read.Reads constants pool ∧
      before = start ++ constants ++ declared ∧ FailsInTable pool declared part fault

lemma nowhere_append (first before part : Bytes) (fault : Fault) (h : Nowhere before part fault) :
    Nowhere (first ++ before) part fault :=
  h

lemma failsInTable_append {pool : ConstantPool} (first before part : Bytes) (fault : Fault)
    (h : FailsInTable pool before part fault) : FailsInTable pool (first ++ before) part fault := by
  obtain ⟨earlier, name, found, rfl, hname, hrun⟩ := h
  exact ⟨first ++ earlier, name, found, by simp only [List.append_assoc], hname, hrun⟩

/-! ## Plans without parts -/

/-- Whether a plan reports truncations truthfully and reads no part by a plan of its own. -/
def Plain {α : Type} (plan : Reading α) : Prop :=
  plan.Truthful Nowhere

section
variable {α β : Type}

lemma Plain.truthful {plan : Reading α} (h : Plain plan) (Inside : Bytes → Bytes → Fault → Prop) :
    plan.Truthful Inside :=
  h.mono fun _ _ _ hnowhere => hnowhere.elim

lemma Plain.bind {plan : Reading α} {after : α → Reading β} (hplan : Plain plan)
    (hafter : ∀ value, Plain (after value)) : Plain (plan >>= after) :=
  hplan.bind_same nowhere_append hafter

lemma Plain.iterate {step : α → Reading α} (hstep : ∀ value, Plain (step value)) (times : ℕ)
    (value : α) : Plain (Reading.iterate step times value) :=
  Truthful.iterate nowhere_append hstep times value

lemma Plain.replicate {step : Reading Unit} (hstep : Plain step) (times : ℕ) :
    Plain (Reading.replicate times step) :=
  Plain.iterate (fun _ => hstep) times ()

lemma plain_pure (value : α) : Plain (pure value) :=
  trivial

lemma plain_fail {fault : Fault} (h : ¬fault.IsTruncation) : Plain (Reading.fail fault : Reading α) :=
  h

lemma plain_bytes (n : ℕ) : Plain (Reading.bytes n) :=
  fun _ _ => trivial

lemma plain_pass (n : ℕ) : Plain (pass n) :=
  fun _ _ => trivial

lemma plain_byte : Plain byte :=
  fun _ _ => trivial

lemma plain_word : Plain word :=
  fun _ _ => trivial

lemma plain_doubleWord : Plain doubleWord :=
  fun _ _ => trivial

lemma plain_settled {settlement : Except Fault α}
    (h : ∀ fault, settlement = .error fault → ¬fault.IsTruncation) : Plain (settled settlement) := by
  cases settlement with
  | ok value => trivial
  | error fault => exact h fault rfl

end

/-- A look-up of a text declares no truncation. -/
lemma ConstantPool.not_isTruncation_of_text {pool : ConstantPool} {index : UInt16} {fault : Fault}
    (h : pool.text index = .error fault) : ¬fault.IsTruncation := by
  rintro ⟨offset, missing, rfl⟩
  unfold ConstantPool.text at h
  split at h
  · split at h
    · cases h
    · cases h
  · cases h

/-- A look-up of a class declares no truncation. -/
lemma ConstantPool.not_isTruncation_of_className {pool : ConstantPool} {index : UInt16}
    {fault : Fault} (h : pool.className index = .error fault) : ¬fault.IsTruncation := by
  unfold ConstantPool.className at h
  split at h
  · exact not_isTruncation_of_text h
  · cases h
    rintro ⟨offset, missing, htruncated⟩
    cases htruncated

/-! ## The steps of the plan -/

lemma plain_readConstant (index : ℕ) : Plain (readConstant index) := by
  refine plain_byte.bind fun tag => ?_
  split_ifs
  · exact plain_word.bind fun length => (plain_bytes _).bind fun stored => plain_pure _
  · exact plain_word.bind fun name => plain_pure _
  · split
    · exact (plain_pass _).bind fun _ => plain_pure _
    · refine plain_fail ?_
      rintro ⟨offset, missing, h⟩
      cases h

lemma plain_readSlots (remaining index : ℕ) (slots : Array Slot) :
    Plain (ConstantPool.readSlots remaining index slots) := by
  induction remaining, index, slots using ConstantPool.readSlots.induct with
  | case1 index slots => exact plain_pure _
  | case2 index slots =>
    refine (plain_readConstant index).bind fun constant => ?_
    split_ifs
    · exact plain_pure _
    · exact plain_pure _
  | case3 remaining index slots ihwide ih =>
    refine (plain_readConstant index).bind fun constant => ?_
    split_ifs
    · exact ihwide constant
    · exact ih constant

lemma plain_read : Plain ConstantPool.read :=
  plain_word.bind fun _ => (plain_readSlots _ _ _).bind fun _ => plain_pure _

lemma plain_passPairs {passValue : Reading Unit} (hvalue : Plain passValue) :
    Plain (passPairs passValue) :=
  plain_word.bind fun _ => ((plain_pass 2).bind fun _ => hvalue).replicate _

lemma plain_passValue (levels : ℕ) : Plain (passValue levels) := by
  induction levels with
  | zero =>
    refine plain_fail ?_
    rintro ⟨offset, missing, h⟩
    cases h
  | succ levels ih =>
    refine plain_byte.bind fun tag => ?_
    split
    · exact plain_pass 2
    · exact plain_pass 4
    · exact (plain_pass 2).bind fun _ => plain_passPairs ih
    · exact plain_word.bind fun _ => ih.replicate _
    · refine plain_fail ?_
      rintro ⟨offset, missing, h⟩
      cases h

lemma plain_readAnnotationTable (pool : ConstantPool) (found : Array String) :
    Plain (readAnnotationTable pool found) := by
  refine plain_word.bind fun count => Plain.iterate (fun found => ?_) _ _
  refine plain_word.bind fun type => Plain.bind ?_ fun descriptor => ?_
  · exact plain_settled fun fault => ConstantPool.not_isTruncation_of_text
  · exact (plain_passPairs (plain_passValue maxLevels)).bind fun _ => plain_pure _

lemma plain_passMembers : Plain passMembers := by
  have hattribute : Plain passAttribute :=
    (plain_pass 2).bind fun _ => plain_doubleWord.bind fun _ => plain_pass _
  exact plain_word.bind fun _ => Plain.replicate
    ((plain_pass 6).bind fun _ => plain_word.bind fun _ => hattribute.replicate _) _

lemma plain_passInterfaces : Plain passInterfaces :=
  plain_word.bind fun _ => plain_pass _

/-- Two plans in a row fail with the first, or else with the second from where the first ended. -/
lemma Reading.run_bind_eq_error_iff {α β : Type} {plan : Reading α} {after : α → Reading β}
    {cursor : Cursor} {fault : Fault} :
    (plan >>= after).run cursor = .error fault ↔
      plan.run cursor = .error fault ∨
        ∃ value between, plan.run cursor = .ok (value, between) ∧
          (after value).run between = .error fault := by
  change (plan.bind after).run cursor = _ ↔ _
  rw [run_bind]
  cases plan.run cursor with
  | error first => simp
  | ok outcome =>
    obtain ⟨value, between⟩ := outcome
    simp

/-- An attribute of the class is truncated at its end, unless that happens in an annotation
table. -/
lemma truthful_readAttribute (pool : ConstantPool) (found : TypeAnnotations) :
    (readAttribute pool found).Truthful (FailsInTable pool) := by
  intro nameBytes hname lengthField hlength
  refine ⟨fun part fault hpart hrun htruncation => ?_, fun _ _ _ _ _ => trivial⟩
  have htable : ∀ {text : String}, pool.text (word16 nameBytes) = .ok text →
      (text = visibleTableName ∨ text = invisibleTableName) → ∀ before,
      (readAnnotationTable pool before).run (.start part) = .error fault →
      FailsInTable pool (nameBytes ++ (lengthField ++ [])) part fault := by
    intro text htext hcases before hfails
    refine ⟨[], word16 nameBytes, before, ?_, ?_, hfails⟩
    · rw [hpart, wordBytes_word16 hname, lengthBytes_word32 hlength, List.append_nil,
        List.nil_append]
    · rw [htext]
      exact hcases.imp (congrArg Except.ok) (congrArg Except.ok)
  rcases run_bind_eq_error_iff.1 hrun with hsettled | ⟨text, between, hsettled, hbody⟩
  · cases htext : pool.text (word16 nameBytes) with
    | ok text =>
      rw [htext] at hsettled
      cases hsettled
    | error other =>
      rw [htext] at hsettled
      cases hsettled
      exact absurd htruncation (ConstantPool.not_isTruncation_of_text htext)
  · cases htext : pool.text (word16 nameBytes) with
    | error other =>
      rw [htext] at hsettled
      cases hsettled
    | ok other =>
      rw [htext] at hsettled
      cases hsettled
      split_ifs at hbody with hvisible hinvisible
      · rcases run_bind_eq_error_iff.1 hbody with hfails | ⟨_, _, _, hpure⟩
        · exact htable htext (Or.inl hvisible) _ hfails
        · cases hpure
      · rcases run_bind_eq_error_iff.1 hbody with hfails | ⟨_, _, _, hpure⟩
        · exact htable htext (Or.inr hinvisible) _ hfails
        · cases hpure
      · cases hbody

/-- The declaration of a class is truncated at its end, unless that happens in an annotation
table. -/
lemma truthful_readDeclaration (pool : ConstantPool) :
    (readDeclaration pool).Truthful (FailsInTable pool) := by
  have hplain : ∀ {α β : Type} {plan : Reading α} {after : α → Reading β}, Plain plan →
      (∀ value, (after value).Truthful (FailsInTable pool)) →
      (plan >>= after).Truthful (FailsInTable pool) :=
    fun h hafter => (h.truthful (FailsInTable pool)).bind_same failsInTable_append hafter
  have hannotations : (readTypeAnnotations pool).Truthful (FailsInTable pool) := by
    refine hplain plain_word fun attributes => ?_
    have hattributes := Truthful.iterate failsInTable_append (truthful_readAttribute pool)
    exact (hattributes _ _).bind_same failsInTable_append fun found => trivial
  refine hplain (plain_pass 2) fun _ => hplain plain_word fun thisClass => ?_
  refine hplain (plain_settled fun _ => ConstantPool.not_isTruncation_of_className) ?_
  intro slashedName
  refine hplain (plain_pass 2) fun _ => hplain plain_passInterfaces fun _ => ?_
  refine hplain plain_passMembers fun _ => hplain plain_passMembers fun _ => ?_
  exact hannotations.bind_same failsInTable_append fun annotations => trivial

/-- A class file is truncated at its end, unless that happens in an annotation table. -/
lemma truthful_readSummary : readSummary.Truthful FailsInAnnotations := by
  have hrejected : ∀ {fault : Fault} {Inside : Bytes → Bytes → Fault → Prop},
      (∀ offset missing, fault ≠ .truncated offset missing) →
      (Reading.fail fault : Reading Summary).Truthful Inside := by
    rintro fault Inside h ⟨offset, missing, rfl⟩
    exact h offset missing rfl
  refine (plain_doubleWord.truthful _).bind fun _ found hfound => ?_
  obtain ⟨mark, _, rfl, hmark, rfl, -⟩ := hfound
  split_ifs
  · exact hrejected (by simp)
  refine (plain_word.truthful _).bind fun _ minorVersion hminor => ?_
  obtain ⟨minor, _, rfl, hminor, rfl, -⟩ := hminor
  refine (plain_word.truthful _).bind fun _ majorVersion hmajor => ?_
  obtain ⟨major, _, rfl, hmajor, rfl, -⟩ := hmajor
  split_ifs
  · exact hrejected (by simp)
  refine (plain_read.truthful _).bind fun constants pool hconstants => ?_
  suffices hdeclaration : Truthful (FailsInTable pool) (readDeclaration pool >>= _) by
    refine hdeclaration.mono fun declared part fault hfails => ?_
    refine ⟨mark ++ minor ++ major, constants, declared, pool, ?_, hconstants, ?_, hfails⟩
    · rw [List.length_append, List.length_append, hmark, hminor, hmajor]
    · simp only [List.append_assoc, List.append_nil]
  exact (truthful_readDeclaration pool).bind_same failsInTable_append fun _ => trivial

/-! ## Class files -/

/-- A byte string has a summary exactly if the plan runs to its end. -/
lemma parse_eq_ok {bytes : Bytes} {summary : Summary} :
    parse bytes = .ok summary ↔
      ∃ behind, readSummary.run (.start bytes) = .ok (summary, behind) := by
  unfold parse
  cases readSummary.run (.start bytes) with
  | error fault => simp [Except.map]
  | ok outcome => simp [Except.map, Prod.ext_iff]

lemma parse_eq_error {bytes : Bytes} {fault : Fault} :
    parse bytes = .error fault ↔ readSummary.run (.start bytes) = .error fault := by
  unfold parse
  cases readSummary.run (.start bytes) with
  | error other => simp [Except.map]
  | ok outcome => simp [Except.map]

/-- A class file with more bytes behind it has the same summary. -/
lemma parse_append_of_ok {bytes : Bytes} {summary : Summary} (h : parse bytes = .ok summary)
    (more : Bytes) : parse (bytes ++ more) = .ok summary := by
  obtain ⟨behind, hrun⟩ := parse_eq_ok.1 h
  exact parse_eq_ok.2 ⟨behind.extend more, run_extend hrun more⟩

/-- What was read of a class file is needed: every shorter start of it is truncated. -/
lemma exists_used_of_ok {bytes : Bytes} {summary : Summary} (h : parse bytes = .ok summary) :
    ∃ used ≤ bytes.length, (∀ n, used ≤ n → parse (bytes.take n) = .ok summary) ∧
      ∀ n < used, ∀ other, parse (bytes.take n) ≠ .ok other := by
  obtain ⟨behind, hrun⟩ := parse_eq_ok.1 h
  obtain ⟨used, ⟨hbytes, -⟩, hreads⟩ := run_eq_ok_iff.1 hrun
  have hsplit : bytes = used ++ behind.rest := hbytes
  have hlength : bytes.length = used.length + behind.rest.length := by
    rw [hsplit, List.length_append]
  refine ⟨used.length, by omega, fun n hn => ?_, fun n hn other hother => ?_⟩
  · have hused : parse used = .ok summary :=
      parse_eq_ok.2 ⟨⟨used.length, []⟩, run_eq_ok_iff.2
        ⟨used, ⟨(List.append_nil used).symm, (Nat.zero_add _).symm⟩, hreads⟩⟩
    have htake : bytes.take n = used ++ behind.rest.take (n - used.length) := by
      rw [hsplit, List.take_append, List.take_of_length_le hn]
    rw [htake]
    exact parse_append_of_ok hused _
  · -- the run on the shorter start would have left the bytes behind that start unread
    obtain ⟨early, hearly⟩ := parse_eq_ok.1 hother
    have hwhole := run_extend hearly (bytes.drop n)
    rw [← Cursor.start_append, List.take_append_drop, hrun] at hwhole
    have hrest : behind.rest = early.rest ++ bytes.drop n := by
      cases hwhole
      rfl
    have hdrop : behind.rest.length = early.rest.length + (bytes.length - n) := by
      rw [hrest, List.length_append, List.length_drop]
    omega

/-- Parsing is stable under extension, and truncations are reported exactly. If there is a summary,
or a fault that is no truncation, more bytes change nothing. If bytes are missing, then at least
one, at an offset within the file; and either they are missing in the body of an annotation
attribute, and more bytes behind the file change nothing, or with fewer bytes than are missing the
rest of them is reported at the same offset. A file that has a summary has a least part with that
summary, and every shorter start of it is reported as truncated. -/
theorem parse_longer_and_shorter (bytes : Bytes) :
    (∀ summary, parse bytes = .ok summary → ∀ more, parse (bytes ++ more) = .ok summary) ∧
    (∀ fault, parse bytes = .error fault → ¬fault.IsTruncation →
      ∀ more, parse (bytes ++ more) = .error fault) ∧
    (∀ offset needed, parse bytes = .error (.truncated offset needed) →
      1 ≤ needed ∧ offset ≤ bytes.length ∧
      ((∃ before part after, bytes = before ++ part ++ after ∧
          FailsInAnnotations before part (.truncated offset needed) ∧
          ∀ more, parse (bytes ++ more) = .error (.truncated offset needed)) ∨
        ∀ more : Bytes, more.length < needed →
          parse (bytes ++ more) = .error (.truncated offset (needed - more.length)))) ∧
    ∀ summary, parse bytes = .ok summary →
      ∃ used ≤ bytes.length, (∀ n, used ≤ n → parse (bytes.take n) = .ok summary) ∧
        ∀ n < used, ∃ offset needed, parse (bytes.take n) = .error (.truncated offset needed) := by
  have hbreaks : ∀ {bytes : Bytes} {fault : Fault}, parse bytes = .error fault →
      Breaks FailsInAnnotations readSummary (.start bytes) fault :=
    fun h => breaks_of_run truthful_readSummary (parse_eq_error.1 h)
  have hstable : ∀ {bytes : Bytes} {fault : Fault}, parse bytes = .error fault →
      ¬fault.IsTruncation → ∀ more, parse (bytes ++ more) = .error fault := by
    intro bytes fault h htruncation more
    cases hbreaks h with
    | rejected _ hsame => exact parse_eq_error.2 (hsame more)
    | inside _ _ _ _ _ hsame => exact parse_eq_error.2 (hsame more)
    | short => exact absurd ⟨_, _, rfl⟩ htruncation
  refine ⟨fun summary h => parse_append_of_ok h, fun fault => hstable, ?_, ?_⟩
  · intro offset needed h
    cases hbreaks h with
    | rejected htruncation _ => exact absurd ⟨offset, needed, rfl⟩ htruncation
    | inside before part after hrest hinside hsame =>
      have ⟨_, _, _, pool, _, _, _, _, _, found, _, _, htable⟩ := hinside
      have hpart : 1 ≤ needed ∧ offset ≤ part.length := by
        cases breaks_of_run (plain_readAnnotationTable pool found) htable with
        | rejected htruncation _ => exact absurd ⟨offset, needed, rfl⟩ htruncation
        | inside _ _ _ _ hnowhere _ => exact hnowhere.elim
        | short hneeded hoffset _ => exact ⟨hneeded, by simpa [Cursor.start] using hoffset⟩
      have hlength : part.length ≤ bytes.length := by
        have hbytes : bytes = before ++ part ++ after := hrest
        rw [hbytes, List.length_append, List.length_append]
        omega
      exact ⟨hpart.1, Nat.le_trans hpart.2 hlength, Or.inl ⟨before, part, after, hrest, hinside,
        fun more => parse_eq_error.2 (hsame more)⟩⟩
    | short hneeded hoffset hfewer =>
      refine ⟨hneeded, by simpa [Cursor.start] using hoffset, Or.inr fun more hmore => ?_⟩
      exact parse_eq_error.2 (hfewer more hmore)
  · intro summary h
    obtain ⟨used, hused, henough, hshort⟩ := exists_used_of_ok h
    refine ⟨used, hused, henough, fun n hn => ?_⟩
    cases hcut : parse (bytes.take n) with
    | ok other => exact absurd hcut (hshort n hn other)
    | error fault =>
      -- any other fault of the start would be the fault of the whole file
      by_contra hnone
      have htruncation : ¬fault.IsTruncation := by
        rintro ⟨offset, needed, rfl⟩
        exact hnone ⟨offset, needed, rfl⟩
      have hwhole := hstable hcut htruncation (bytes.drop n)
      rw [List.take_append_drop, h] at hwhole
      cases hwhole

/-- A class file whose annotation attribute has a body of no bytes. -/
def emptyTable : Bytes :=
  [0xCA, 0xFE, 0xBA, 0xBE, 0, 0, 0, 52]
    ++ [0, 4, 1, 0, 1, 65, 7, 0, 1, 1, 0, 25] ++ Bytes.ofText "RuntimeVisibleAnnotations"
    ++ [0, 33, 0, 2, 0, 0, 0, 0, 0, 0, 0, 0, 0, 1, 0, 3, 0, 0, 0, 0]

/-- Of two bytes that are missing of the mark, one is missing still when the other is added, while
two bytes that are missing of an annotation table are missing whatever is added behind the file.
Other bytes in the place of the mark stay wrong. Without the attribute there is a summary, and every
short enough start of the file is truncated. -/
theorem parse_longer_and_shorter_emptyTable :
    (parse [0xCA, 0xFE] = .error (.truncated 0 2) ∧
      parse ([0xCA, 0xFE] ++ [0xBA]) = .error (.truncated 0 1)) ∧
    (parse emptyTable = .error (.truncated 0 2) ∧
      ∀ more, parse (emptyTable ++ more) = .error (.truncated 0 2)) ∧
    (parse [0, 0, 0, 0] = .error (.badMagic 0) ∧
      parse ([0, 0, 0, 0] ++ emptyTable) = .error (.badMagic 0)) ∧
    ∃ used ≤ 59, ∀ n < used, ∃ offset needed,
      parse ((emptyTable.take 57 ++ [0, 0]).take n) = .error (.truncated offset needed) := by
  have hmark : parse [0xCA, 0xFE] = .error (.truncated 0 2) := by
    decide +kernel
  have htable : parse emptyTable = .error (.truncated 0 2) := by
    decide +kernel
  have hother : parse [0, 0, 0, 0] = .error (.badMagic 0) := by
    decide +kernel
  have hok : parse (emptyTable.take 57 ++ [0, 0]) = .ok ⟨"A", 52, 0, []⟩ := by
    decide +kernel
  refine ⟨⟨hmark, ?_⟩, ⟨htable, ?_⟩, ⟨hother, ?_⟩, ?_⟩
  · obtain ⟨-, -, hshort, -⟩ := parse_longer_and_shorter [0xCA, 0xFE]
    obtain ⟨-, -, ⟨_, _, _, _, _, hsame⟩ | hfewer⟩ := hshort 0 2 hmark
    · exact absurd (hsame [0xBA]) (by decide +kernel)
    · exact hfewer [0xBA] (by decide)
  · obtain ⟨-, -, hshort, -⟩ := parse_longer_and_shorter emptyTable
    obtain ⟨-, -, ⟨_, _, _, _, _, hsame⟩ | hfewer⟩ := hshort 0 2 htable
    · exact hsame
    · exact absurd (hfewer [0] (by decide)) (by decide +kernel)
  · obtain ⟨-, hstable, -, -⟩ := parse_longer_and_shorter [0, 0, 0, 0]
    refine hstable _ hother ?_ emptyTable
    rintro ⟨offset, missing, h⟩
    cases h
  · obtain ⟨-, -, -, hleast⟩ := parse_longer_and_shorter (emptyTable.take 57 ++ [0, 0])
    obtain ⟨used, hused, -, hshorter⟩ := hleast _ hok
    exact ⟨used, hused, hshorter⟩

end EntryPoint.ClassFile
