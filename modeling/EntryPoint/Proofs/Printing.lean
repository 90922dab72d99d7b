import EntryPoint.CommandLine.Report
import EntryPoint.Proofs.Splitting

/-!
# What is printed

`Report.Prints` says of each report what is printed for it: as an object, which value stands under
which name, and as plain lines, which value stands behind which label. Objects are told by how their
members are spelt (`ShowsObject`), and texts in them character by character (`Spells`), so that
nothing here depends on how reports are rendered. The rendering of a report is printed for it, and
nothing else is (`Report.prints_iff`).
-/

namespace EntryPoint.CommandLine

/-! ## JSON strings -/

/-- The letters that spell a character behind a backslash. -/
def shortEscapes : List (Char × Char) :=
  [('"', '"'), ('\\', '\\'), ('\n', 'n'), ('\r', 'r'), ('\t', 't'), (Char.ofNat 8, 'b'),
    (Char.ofNat 12, 'f')]

/-- The hexadecimal digits in order. -/
def hexDigits : List Char :=
  ['0', '1', '2', '3', '4', '5', '6', '7', '8', '9', 'a', 'b', 'c', 'd', 'e', 'f']

/-- How a character is spelt in a JSON string: by a letter if it has one, else by its code if it is
a control character, and else by itself. -/
inductive Spells : Char → List Char → Prop where
  | short {c letter : Char} (h : (c, letter) ∈ shortEscapes) : Spells c ['\\', letter]
  | code {c high low : Char} {sixteens ones : ℕ} (hshort : c ∉ shortEscapes.map Prod.fst)
      (hcontrol : c.toNat < 32) (hhigh : hexDigits[sixteens]? = some high)
      (hlow : hexDigits[ones]? = some low) (h : c.toNat = 16 * sixteens + ones) :
      Spells c ['\\', 'u', '0', '0', high, low]
  | plain {c : Char} (hquote : c ≠ '"') (hbackslash : c ≠ '\\') (h : 32 ≤ c.toNat) : Spells c [c]

/-- A text as a JSON string. -/
def Quotes (text printed : String) : Prop :=
  ∃ pieces, List.Forall₂ Spells text.toList pieces ∧
    String.ofList ('"' :: pieces.flatten ++ ['"']) = printed

lemma getElem?_hexDigits :
    ∀ digit < 16, hexDigits[digit]? = some (Bytes.hexDigit digit) := by
  decide

lemma lt_of_getElem?_hexDigits {digit : ℕ} {c : Char} (h : hexDigits[digit]? = some c) :
    digit < 16 :=
  (List.getElem?_eq_some_iff.1 h).1

/-- But for the quote and the backslash, only control characters have a short escape. -/
lemma toNat_lt_of_mem_shortEscapes {c letter : Char} (h : (c, letter) ∈ shortEscapes)
    (hquote : c ≠ '"') (hbackslash : c ≠ '\\') : c.toNat < 32 := by
  have hall : ∀ escape ∈ shortEscapes,
      escape.1 ≠ '"' → escape.1 ≠ '\\' → escape.1.toNat < 32 := by
    decide
  exact hall _ h hquote hbackslash

/-- A character has one short escape at most. -/
lemma letter_unique {c letter letter' : Char} (h : (c, letter) ∈ shortEscapes)
    (h' : (c, letter') ∈ shortEscapes) : letter = letter' := by
  have hall : ∀ escape ∈ shortEscapes, ∀ other ∈ shortEscapes,
      escape.1 = other.1 → escape.2 = other.2 := by
    decide
  exact hall _ h _ h' rfl

/-- A character is spelt in one way only. -/
lemma Spells.unique {c : Char} {printed printed' : List Char} (h : Spells c printed)
    (h' : Spells c printed') : printed = printed' := by
  cases h with
  | short hletter =>
    cases h' with
    | short hletter' => rw [letter_unique hletter hletter']
    | code hshort => exact absurd (List.mem_map_of_mem hletter) hshort
    | plain hquote hbackslash hplain =>
      have hcontrol := toNat_lt_of_mem_shortEscapes hletter hquote hbackslash
      omega
  | @code high low sixteens ones hshort hcontrol hhigh hlow hcode =>
    cases h' with
    | short hletter' => exact absurd (List.mem_map_of_mem hletter') hshort
    | @code high' low' sixteens' ones' _ _ hhigh' hlow' hcode' =>
      -- The last digits are below sixteen, so that the code determines both digits.
      have hones := lt_of_getElem?_hexDigits hlow
      have hones' := lt_of_getElem?_hexDigits hlow'
      obtain rfl : sixteens = sixteens' := by omega
      obtain rfl : ones = ones' := by omega
      cases hhigh.symm.trans hhigh'
      cases hlow.symm.trans hlow'
      rfl
    | plain _ _ hplain => omega
  | plain hquote hbackslash hplain =>
    cases h' with
    | short hletter' =>
      have hcontrol := toNat_lt_of_mem_shortEscapes hletter' hquote hbackslash
      omega
    | code => omega
    | plain => rfl

lemma spells_escapeChar (c : Char) : Spells c (escapeChar c) := by
  have hcode : ∀ {n : ℕ}, c.toNat = n → c = Char.ofNat n := by
    rintro n rfl
    exact (Char.ofNat_toNat c).symm
  unfold escapeChar
  split
  · exact .short (by decide)
  · exact .short (by decide)
  · exact .short (by decide)
  · exact .short (by decide)
  · exact .short (by decide)
  · rename_i hquote hbackslash hfeed hreturn htab
    split_ifs with hbackspace hform hcontrol
    · rw [hcode hbackspace]
      exact .short (by decide)
    · rw [hcode hform]
      exact .short (by decide)
    · have hshort : c ∉ shortEscapes.map Prod.fst := by
        have hbackspace' : c ≠ Char.ofNat 8 := by
          rintro rfl
          exact hbackspace rfl
        have hform' : c ≠ Char.ofNat 12 := by
          rintro rfl
          exact hform rfl
        simpa [shortEscapes, hbackspace', hform'] using
          ⟨hquote, hbackslash, hfeed, hreturn, htab⟩
      exact .code hshort hcontrol (getElem?_hexDigits _ (by omega))
        (getElem?_hexDigits _ (by omega)) (by omega)
    · exact .plain hquote hbackslash (by omega)

lemma spells_iff {c : Char} {printed : List Char} : Spells c printed ↔ escapeChar c = printed := by
  constructor
  · exact (spells_escapeChar c).unique
  · rintro rfl
    exact spells_escapeChar c

lemma quotes_iff {text printed : String} : Quotes text printed ↔ quote text = printed := by
  have hpieces : ∀ pieces, List.Forall₂ Spells text.toList pieces ↔
      text.toList.map escapeChar = pieces :=
    fun _ => forall₂_iff_map_eq fun _ _ => spells_iff
  simp only [Quotes, hpieces, exists_eq_left', quote, List.flatMap_def]

/-! ## JSON objects -/

/-- How a value is printed that stands in an object. Texts are printed as an array, each on a line
of its own. -/
inductive Value.Shows : Value → String → Prop where
  | null : Shows .null "null"
  | yes : Shows (.flag true) "true"
  | no : Shows (.flag false) "false"
  | number (value : ℕ) : Shows (.number value) (toString value)
  | text {value printed : String} (h : Quotes value printed) : Shows (.text value) printed
  | noTexts : Shows (.texts []) "[]"
  | texts {values printed : List String} (hne : values ≠ [])
      (h : List.Forall₂ Quotes values printed) :
      Shows (.texts values)
        ("[\n" ++ String.intercalate ",\n" (printed.map ("    " ++ ·)) ++ "\n  ]")

/-- A member of an object: its name in quotes and its value behind a colon. -/
inductive ShowsMember : String × Value → String → Prop where
  | intro {name printedName printed : String} {value : Value} (hname : Quotes name printedName)
      (hvalue : value.Shows printed) :
      ShowsMember (name, value) ("  " ++ printedName ++ ": " ++ printed)

/-- An output that is an object with the given members in order. -/
def ShowsObject (members : List (String × Value)) (output : String) : Prop :=
  ∃ printed, List.Forall₂ ShowsMember members printed ∧
    "\x7b\n" ++ String.intercalate ",\n" printed ++ "\n\x7d\n" = output

/-- An output that consists of the given lines; without any line it is one empty line. -/
inductive ShowsLines : List String → String → Prop where
  | nil : ShowsLines [] "\n"
  | lines {lines : List String} (hne : lines ≠ []) :
      ShowsLines lines (String.join (lines.map (· ++ "\n")))

lemma render_texts {values : List String} (hne : values ≠ []) :
    (Value.texts values).render
      = "[\n" ++ String.intercalate ",\n" ((values.map quote).map ("    " ++ ·)) ++ "\n  ]" := by
  obtain ⟨first, others, rfl⟩ := List.exists_cons_of_ne_nil hne
  apply String.toList_injective
  simp [Value.render, renderItems]

lemma shows_iff {value : Value} {printed : String} :
    value.Shows printed ↔ value.render = printed := by
  have hquotes : ∀ values printed, List.Forall₂ Quotes values printed ↔
      values.map quote = printed :=
    fun _ _ => forall₂_iff_map_eq fun _ _ => quotes_iff
  constructor
  · intro h
    cases h with
    | null | yes | no | number | noTexts => rfl
    | text h => exact quotes_iff.1 h
    | texts hne h =>
      rw [render_texts hne, (hquotes _ _).1 h]
  · rintro rfl
    cases value with
    | null => exact .null
    | flag value =>
      cases value with
      | true => exact .yes
      | false => exact .no
    | number value => exact .number value
    | text value => exact .text (quotes_iff.2 rfl)
    | texts values =>
      cases values with
      | nil => exact .noTexts
      | cons first others =>
        rw [render_texts (List.cons_ne_nil _ _)]
        exact .texts (List.cons_ne_nil _ _) ((hquotes _ _).2 rfl)

lemma showsMember_iff {member : String × Value} {printed : String} :
    ShowsMember member printed ↔
      "  " ++ quote member.1 ++ ": " ++ member.2.render = printed := by
  constructor
  · rintro ⟨hname, hvalue⟩
    rw [quotes_iff.1 hname, shows_iff.1 hvalue]
  · rintro rfl
    exact .intro (quotes_iff.2 rfl) (shows_iff.2 rfl)

lemma showsObject_iff {members : List (String × Value)} (hne : members ≠ []) {output : String} :
    ShowsObject members output ↔ renderObject members ++ "\n" = output := by
  have hmembers : ∀ printed, List.Forall₂ ShowsMember members printed ↔
      members.map (fun member => "  " ++ quote member.1 ++ ": " ++ member.2.render) = printed :=
    fun _ => forall₂_iff_map_eq fun _ _ => showsMember_iff
  have hrender : renderObject members ++ "\n"
      = "\x7b\n" ++ String.intercalate ",\n" (members.map fun member =>
        "  " ++ quote member.1 ++ ": " ++ member.2.render) ++ "\n\x7d\n" := by
    obtain ⟨first, others, rfl⟩ := List.exists_cons_of_ne_nil hne
    apply String.toList_injective
    simp [renderObject, renderItems, Function.comp_def]
  simp only [ShowsObject, hmembers, exists_eq_left', hrender]

lemma showsLines_iff {lines : List String} {output : String} :
    ShowsLines lines output ↔
      (match lines with
        | [] => "\n"
        | lines => String.join (lines.map (· ++ "\n"))) = output := by
  constructor
  · intro h
    cases h with
    | nil => rfl
    | lines hne =>
      obtain ⟨first, others, rfl⟩ := List.exists_cons_of_ne_nil hne
      rfl
  · rintro rfl
    cases lines with
    | nil => exact .nil
    | cons first others => exact .lines (List.cons_ne_nil _ _)

/-! ## Reports -/

/-- What is printed for a report in a format. -/
inductive Report.Prints : Report → OutputFormat → String → Prop where
  | classesObject {root : Path} {names : List String} {output : String}
      (h : ShowsObject [("root", .text root.text), ("classes", .texts names)] output) :
      Prints (.classes root names) .json output
  | classesLines {root : Path} {names : List String} {output : String}
      (h : ShowsLines names output) :
      Prints (.classes root names) .text output
  | summaryObject {described : ClassFile.Summary} {output : String}
      (h : ShowsObject [("class_name", .text described.className),
        ("major_version", .number described.majorVersion.toNat),
        ("minor_version", .number described.minorVersion.toNat),
        ("annotations", .texts described.annotations)] output) :
      Prints (.summary described) .json output
  | summaryLines {described : ClassFile.Summary} {output : String}
      (h : ShowsLines (["class_name: " ++ described.className,
        "version: " ++ toString described.majorVersion.toNat ++ "."
          ++ toString described.minorVersion.toNat]
        ++ described.annotations.map ("- " ++ ·)) output) :
      Prints (.summary described) .text output
  | resolvedObject {entryPoint : ClassFile.Summary} {candidates milliseconds : ℕ} {output : String}
      (h : ShowsObject [("main_class", .text entryPoint.className),
        ("annotations", .texts entryPoint.annotations), ("candidates", .number candidates),
        ("duration_ms", .number milliseconds)] output) :
      Prints (.resolved entryPoint candidates milliseconds) .json output
  | resolvedLines {entryPoint : ClassFile.Summary} {candidates milliseconds : ℕ} {output : String}
      (h : ShowsLines ["main_class: " ++ entryPoint.className,
        "candidates: " ++ toString candidates, "duration_ms: " ++ toString milliseconds] output) :
      Prints (.resolved entryPoint candidates milliseconds) .text output
  | skippedObject {manifest : Path} {output : String}
      (h : ShowsObject [("skipped", .flag true), ("main_class", .null),
        ("manifest_path", .text manifest.text), ("manifest_sha256", .null)] output) :
      Prints (.skipped manifest) .json output
  | skippedLines {manifest : Path} {output : String}
      (h : ShowsLines ["skipped: framework project"] output) :
      Prints (.skipped manifest) .text output
  | emittedObject {mainClass digest : String} {manifest : Path} {output : String}
      (h : ShowsObject [("skipped", .flag false), ("main_class", .text mainClass),
        ("manifest_path", .text manifest.text), ("manifest_sha256", .text digest)] output) :
      Prints (.emitted mainClass manifest digest) .json output
  | emittedLines {mainClass digest : String} {manifest : Path} {output : String}
      (h : ShowsLines ["main_class: " ++ mainClass, "manifest: " ++ manifest.text,
        "sha256: " ++ digest] output) :
      Prints (.emitted mainClass manifest digest) .text output

/-- What is printed for a report is its rendering. -/
theorem Report.prints_iff {report : Report} {format : OutputFormat} {output : String} :
    report.Prints format output ↔ report.render format = output := by
  cases format with
  | json =>
    have hobject : ShowsObject report.fields output ↔ report.render .json = output :=
      showsObject_iff (by cases report <;> exact List.cons_ne_nil _ _)
    rw [← hobject]
    constructor
    · intro h
      cases h with
      | classesObject h | summaryObject h | resolvedObject h | skippedObject h
        | emittedObject h => exact h
    · intro h
      cases report with
      | classes root names => exact .classesObject h
      | summary described => exact .summaryObject h
      | resolved entryPoint candidates milliseconds => exact .resolvedObject h
      | skipped manifest => exact .skippedObject h
      | emitted mainClass manifest digest => exact .emittedObject h
  | text =>
    have hlines : ShowsLines report.lines output ↔ report.render .text = output := showsLines_iff
    rw [← hlines]
    constructor
    · intro h
      cases h with
      | classesLines h | summaryLines h | resolvedLines h | skippedLines h
        | emittedLines h => exact h
    · intro h
      cases report with
      | classes root names => exact .classesLines h
      | summary described => exact .summaryLines h
      | resolved entryPoint candidates milliseconds => exact .resolvedLines h
      | skipped manifest => exact .skippedLines h
      | emitted mainClass manifest digest => exact .emittedLines h

end EntryPoint.CommandLine
