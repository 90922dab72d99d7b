import EntryPoint.Manifest.Record
import EntryPoint.Proofs.Manifest.Folding

/-!
# Manifests are read back

A rendered record is parsed to itself exactly if none of its values holds a line feed, and no record
that is parsed from any content holds one (`parse_render_iff`).  Hence a record that was parsed once
survives rendering and parsing again.
-/

namespace EntryPoint.Manifest

/-- No value of the record holds a line feed. -/
def Record.IsSingleLine (record : Record) : Prop :=
  '\n' ∉ record.version.toList ∧ '\n' ∉ record.mainClass.toList

/-! ## Headers -/

/-- The text behind what was seen is split at its first colon with a space. -/
lemma splitHeaderOnto_eq_some_iff {seen rest found text : List Char} :
    splitHeaderOnto seen rest = some (found, text) ↔
      ∃ front, found = seen.reverse ++ front ∧ rest = front ++ [':', ' '] ++ text ∧
        ¬ [':', ' '] <:+: front := by
  fun_induction splitHeaderOnto seen rest with
  | case1 seen rest =>
    constructor
    · rintro ⟨⟩
      exact ⟨[], by simp, rfl, by simp⟩
    · rintro ⟨front, rfl, hrest, hfront⟩
      -- with a character in front of it the colon would be in the front, and the space behind it too
      match front with
      | [] => simpa using hrest
      | [c] => simp at hrest
      | c :: d :: front =>
        obtain ⟨rfl, rfl, -⟩ : ':' = c ∧ ' ' = d ∧ _ := by simpa using hrest
        exact absurd ⟨[], front, rfl⟩ hfront
  | case2 seen c rest hsplit ih =>
    rw [ih]
    constructor
    · rintro ⟨front, rfl, rfl, hfront⟩
      refine ⟨c :: front, by simp, by simp, ?_⟩
      rw [List.infix_cons_iff, not_or]
      refine ⟨?_, hfront⟩
      rintro ⟨behind, hbehind⟩
      obtain ⟨hcolon, rfl⟩ : ':' = c ∧ ' ' :: behind = front := by simpa using hbehind
      exact hsplit _ hcolon.symm rfl
    · rintro ⟨front, rfl, hrest, hfront⟩
      cases front with
      | nil =>
        obtain ⟨hcolon, hspace⟩ : c = ':' ∧ rest = ' ' :: text := by simpa using hrest
        exact absurd hspace (hsplit _ hcolon)
      | cons d front =>
        obtain ⟨rfl, rfl⟩ : c = d ∧ rest = front ++ [':', ' '] ++ text := by simpa using hrest
        rw [List.infix_cons_iff, not_or] at hfront
        exact ⟨front, by simp, rfl, hfront.2⟩
  | case3 seen => simp

/-- A header is split at its first colon with a space. -/
lemma splitHeader?_eq_some_iff {line found text : List Char} :
    splitHeader? line = some (found, text) ↔
      line = found ++ [':', ' '] ++ text ∧ ¬ [':', ' '] <:+: found := by
  simp [splitHeader?, splitHeaderOnto_eq_some_iff]

/-- A header is split into its name and its value. -/
lemma splitHeader?_header {name : String} (h : ':' ∉ name.toList) (value : String) :
    splitHeader? (header name value) = some (name.toList, value.toList) :=
  splitHeader?_eq_some_iff.2 ⟨rfl, fun hcolon => h (hcolon.subset List.mem_cons_self)⟩

/-- The value of a header is a part of the header. -/
lemma splitHeader?_suffix {line found text : List Char} (h : splitHeader? line = some (found, text)) :
    text <:+ line := by
  obtain ⟨rfl, -⟩ := splitHeader?_eq_some_iff.1 h
  exact List.suffix_append _ text

/-- The value of a named header is a part of one of the headers. -/
lemma exists_suffix_of_lastValue? {name value : String} {headers : List (List Char)}
    (h : lastValue? name headers = some value) : ∃ line ∈ headers, value.toList <:+ line := by
  obtain ⟨⟨found, text⟩, hmem, hvalue⟩ := List.exists_of_findSome?_eq_some h
  rw [List.mem_reverse, List.mem_filterMap] at hmem
  obtain ⟨line, hline, hsplit⟩ := hmem
  refine ⟨line, hline, ?_⟩
  simp only [Option.ite_none_right_eq_some, Option.some.injEq] at hvalue
  obtain ⟨-, rfl⟩ := hvalue
  rw [String.toList_ofList]
  exact splitHeader?_suffix hsplit

/-! ## Rendered records -/

/-- The headers of a rendered record are the two that it was rendered from. -/
lemma unfold_render {record : Record} (h : record.IsSingleLine) :
    unfold record.render.toList =
      [header versionHeader record.version, header mainClassHeader record.mainClass] := by
  have hheader : ∀ (name value : String) {c : Char} {cs : List Char},
      name.toList = c :: cs → c ≠ ' ' → '\n' ∉ name.toList → '\n' ∉ value.toList →
      ∀ found rest, unfoldOnto found ((renderHeader name value ++ rest).splitOn '\n') =
        unfoldOnto (header name value :: found) (rest.splitOn '\n') := by
    intro name value c cs hname hspace hline hvalue found rest
    have hcons : header name value = c :: (cs ++ [':', ' '] ++ value.toList) := by
      rw [header, hname]
      rfl
    refine unfoldOnto_foldLine ?_ ?_ ?_ found rest
    · simp [hcons]
    · simpa [header] using ⟨hline, hvalue⟩
    · simpa [hcons] using hspace
  have hversion := hheader versionHeader record.version rfl (by decide) (by decide) h.1
  have hmainClass := hheader mainClassHeader record.mainClass rfl (by decide) (by decide) h.2
  have hrender : record.render.toList = renderHeader versionHeader record.version ++
      (renderHeader mainClassHeader record.mainClass ++ lineEnd) := by
    rw [Record.render, String.toList_ofList, List.append_assoc]
  rw [unfold, hrender, hversion, hmainClass, unfoldOnto_blank]
  rfl

/-- The values of the two headers of a record are found under their names. -/
lemma lastValue?_headers (record : Record) :
    lastValue? versionHeader
        [header versionHeader record.version, header mainClassHeader record.mainClass] =
      some record.version ∧
    lastValue? mainClassHeader
        [header versionHeader record.version, header mainClassHeader record.mainClass] =
      some record.mainClass := by
  have hsplit : [header versionHeader record.version,
      header mainClassHeader record.mainClass].filterMap splitHeader? =
        [(versionHeader.toList, record.version.toList),
          (mainClassHeader.toList, record.mainClass.toList)] := by
    simp only [List.filterMap_cons, List.filterMap_nil]
    rw [splitHeader?_header (by decide), splitHeader?_header (by decide)]
  have hother : sameName mainClassHeader.toList versionHeader = false := by decide
  have hversion : sameName versionHeader.toList versionHeader = true := by decide
  have hmainClass : sameName mainClassHeader.toList mainClassHeader = true := by decide
  unfold lastValue?
  rw [hsplit]
  constructor
  · simp [hother, hversion]
  · simp [hmainClass]

/-- A record whose values hold no line feed is parsed from what it is rendered as. -/
lemma parse?_render {record : Record} (h : record.IsSingleLine) :
    Record.parse? record.render = some record := by
  obtain ⟨hversion, hmainClass⟩ := lastValue?_headers record
  simp only [Record.parse?, unfold_render h, hversion, hmainClass]

/-- No value of a parsed record holds a line feed. -/
lemma isSingleLine_of_parse? {content : String} {record : Record}
    (h : Record.parse? content = some record) : record.IsSingleLine := by
  have hvalue : ∀ {name value : String}, lastValue? name (unfold content.toList) = some value →
      '\n' ∉ value.toList := by
    intro name value hlast hmem
    obtain ⟨line, hline, hsuffix⟩ := exists_suffix_of_lastValue? hlast
    exact not_mem_of_mem_unfold hline (hsuffix.subset hmem)
  simp only [Record.parse?] at h
  split at h
  · rename_i version mainClass hversion hmainClass
    obtain rfl := Option.some.inj h
    exact ⟨hvalue hversion, hvalue hmainClass⟩
  · cases h

/-- A record is parsed from its rendering exactly if its values hold no line feed, and a record
that is parsed from any content is one of these. -/
theorem parse_render_iff :
    (∀ record : Record, Record.parse? record.render = some record ↔
      '\n' ∉ record.version.toList ∧ '\n' ∉ record.mainClass.toList) ∧
    ∀ (content : String) (record : Record), Record.parse? content = some record →
      ('\n' ∉ record.version.toList ∧ '\n' ∉ record.mainClass.toList) ∧
        Record.parse? record.render = some record := by
  constructor
  · exact fun record => ⟨isSingleLine_of_parse?, parse?_render⟩
  · intro content record h
    have hsingle := isSingleLine_of_parse? h
    exact ⟨hsingle, parse?_render hsingle⟩

/-- A manifest with a folded header in other letters, read and rendered again. -/
theorem parse_render_folded :
    Record.parse? "manifest-VERSION: 1.0\nMain-Class: a.\r\n B\r\n\nName: x\n" = some ⟨"1.0", "a.B"⟩ ∧
      Record.parse? (Record.mk "1.0" "a.B").render = some ⟨"1.0", "a.B"⟩ :=
  have hparse : Record.parse? "manifest-VERSION: 1.0\nMain-Class: a.\r\n B\r\n\nName: x\n" =
      some ⟨"1.0", "a.B"⟩ := by decide
  ⟨hparse, (parse_render_iff.2 _ _ hparse).2⟩

end EntryPoint.Manifest
