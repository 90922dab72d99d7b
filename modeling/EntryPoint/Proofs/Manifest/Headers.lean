import EntryPoint.Proofs.Manifest.LineRules
import EntryPoint.Proofs.Manifest.RoundTrip

/-!
# A manifest is read by its headers

What a record is parsed to depends on the headers of the main section alone: not on how they are
folded, not on which of the two endings each line has, and not on anything behind the section.
`HasLines` says that the main section of a text has given lines, whatever their endings. The endings
do not count where lines are joined (`unfoldOnto_of_hasLines`), and joining gives the headers again,
wherever they are cut into chunks (`unfoldOnto_headerLines`). The values are those of the last
headers with the two names (`lastValue?_eq_some_iff`).
-/

namespace EntryPoint.Manifest

/-! ## Lines and their endings -/

/-- Whether a text ends a line: a line feed, with a carriage return before it or without. -/
inductive IsEnding : List Char → Prop where
  | lineFeed : IsEnding ['\n']
  | returnAndLineFeed : IsEnding lineEnd

/-- Whether the main section of a text has the given lines. -/
inductive HasLines : List (List Char) → List Char → Prop where
  /-- The text ends behind the last line. -/
  | endOfText : HasLines [] []
  /-- An empty line closes the section; anything may follow it. -/
  | closed {ending : List Char} (h : IsEnding ending) (after : List Char) :
    HasLines [] (ending ++ after)
  /-- The text ends with a last line that is not ended. -/
  | unended (line : List Char) : HasLines [line] line
  /-- A line is ended, and others follow it. -/
  | line {line ending content : List Char} {lines : List (List Char)} (h : IsEnding ending)
    (hrest : HasLines lines content) : HasLines (line :: lines) (line ++ (ending ++ content))

lemma withoutReturn_of_not_mem {line : List Char} (h : '\r' ∉ line) : withoutReturn line = line := by
  rw [withoutReturn, if_neg]
  exact fun hlast => h (List.mem_of_getLast? hlast)

/-- A line and its ending are split off as a line with or without a carriage return. -/
lemma exists_splitOn_ending {line ending : List Char} (hreturn : '\r' ∉ line) (hline : '\n' ∉ line)
    (h : IsEnding ending) (content : List Char) :
    ∃ piece, (line ++ (ending ++ content)).splitOn '\n' = piece :: content.splitOn '\n' ∧
      withoutReturn piece = line := by
  cases h with
  | lineFeed =>
    exact ⟨line, List.splitOn_append_cons_self_of_not_mem hline content,
      withoutReturn_of_not_mem hreturn⟩
  | returnAndLineFeed =>
    have hpiece : '\n' ∉ line ++ ['\r'] := by
      simpa using hline
    have hsplit : line ++ (lineEnd ++ content) = (line ++ ['\r']) ++ '\n' :: content := by
      simp [lineEnd]
    rw [hsplit]
    exact ⟨line ++ ['\r'], List.splitOn_append_cons_self_of_not_mem hpiece content,
      withoutReturn_concat line⟩

/-- Of a line only what it is without a carriage return at its end counts. -/
lemma unfoldOnto_congr {line other : List Char} {lines others : List (List Char)}
    (hline : withoutReturn line = withoutReturn other)
    (h : ∀ found, unfoldOnto found lines = unfoldOnto found others) (found : List (List Char)) :
    unfoldOnto found (line :: lines) = unfoldOnto found (other :: others) := by
  rw [unfoldOnto, unfoldOnto, hline]
  split
  · split
    · exact h _
    · exact h _
  · rfl
  · exact h _

/-- Joining the pieces of a text is joining the lines of its main section. -/
lemma unfoldOnto_of_hasLines {lines : List (List Char)} {content : List Char}
    (h : HasLines lines content) (hlines : ∀ line ∈ lines, '\r' ∉ line ∧ '\n' ∉ line)
    (found : List (List Char)) :
    unfoldOnto found (content.splitOn '\n') = unfoldOnto found lines := by
  induction h generalizing found with
  | endOfText => rfl
  | closed hending after =>
    have hnone : ∀ c, c ∉ ([] : List Char) := fun _ => List.not_mem_nil
    obtain ⟨piece, hsplit, hpiece⟩ :=
      exists_splitOn_ending (hnone '\r') (hnone '\n') hending after
    rw [List.nil_append] at hsplit
    rw [hsplit, unfoldOnto_empty hpiece]
    rfl
  | unended line =>
    obtain ⟨-, hline⟩ := hlines line List.mem_cons_self
    rw [List.splitOn_eq_singleton hline]
  | line hending hrest ih =>
    rw [List.forall_mem_cons] at hlines
    obtain ⟨piece, hsplit, hpiece⟩ :=
      exists_splitOn_ending hlines.1.1 hlines.1.2 hending _
    rw [hsplit]
    refine unfoldOnto_congr ?_ (fun found => ih hlines.2 found) found
    rw [hpiece, withoutReturn_of_not_mem hlines.1.1]

/-! ## Headers in chunks -/

/-- Whether a text may be a header: it is not empty, lies in one line and does not start with a
space. -/
structure IsHeader (header : List Char) : Prop where
  nonempty : header ≠ []
  unreturned : '\r' ∉ header
  unbroken : '\n' ∉ header
  flush : header.head? ≠ some ' '

instance : DecidablePred IsHeader := fun header =>
  decidable_of_iff (header ≠ [] ∧ '\r' ∉ header ∧ '\n' ∉ header ∧ header.head? ≠ some ' ')
    ⟨fun h => ⟨h.1, h.2.1, h.2.2.1, h.2.2.2⟩,
      fun h => ⟨h.nonempty, h.unreturned, h.unbroken, h.flush⟩⟩

/-- Whether a first chunk, which is not empty, and further ones make up a header. -/
def IsCutInto (header : List Char) (chunks : List Char × List (List Char)) : Prop :=
  chunks.1 ≠ [] ∧ chunks.1 ++ chunks.2.flatten = header

instance (header : List Char) (chunks : List Char × List (List Char)) :
    Decidable (IsCutInto header chunks) :=
  inferInstanceAs (Decidable (_ ∧ _))

/-- The lines of headers in chunks. -/
def sectionLines (foldings : List (List Char × List (List Char))) : List (List Char) :=
  foldings.flatMap fun chunks => headerLines chunks.1 chunks.2

/-- Lines that start with a space are joined to the header before them. -/
lemma unfoldOnto_continuations {more : List (List Char)} (hmore : ∀ chunk ∈ more, '\r' ∉ chunk)
    (last : List Char) (found lines : List (List Char)) :
    unfoldOnto (last :: found) (more.map (' ' :: ·) ++ lines) =
      unfoldOnto ((last ++ more.flatten) :: found) lines := by
  induction more generalizing last with
  | nil => simp
  | cons chunk more ih =>
    rw [List.forall_mem_cons] at hmore
    have hline : withoutReturn (' ' :: chunk) = ' ' :: chunk :=
      withoutReturn_of_not_mem (by simpa using hmore.1)
    rw [List.map_cons, List.cons_append, unfoldOnto_more hline, ih hmore.2, List.flatten_cons,
      List.append_assoc]

/-- The lines of a header are joined to the header. -/
lemma unfoldOnto_headerLines {header : List Char} {chunks : List Char × List (List Char)}
    (hheader : IsHeader header) (h : IsCutInto header chunks) (found lines : List (List Char)) :
    unfoldOnto found (headerLines chunks.1 chunks.2 ++ lines) =
      unfoldOnto (header :: found) lines := by
  obtain ⟨first, more⟩ := chunks
  obtain ⟨hfirst, rfl⟩ := h
  have hreturn := hheader.unreturned
  rw [List.mem_append, not_or, List.mem_flatten, not_exists] at hreturn
  have hmore : ∀ chunk ∈ more, '\r' ∉ chunk := fun chunk hmem h => hreturn.2 chunk ⟨hmem, h⟩
  have hflush : first.head? ≠ some ' ' := by
    obtain ⟨c, cs, rfl⟩ := List.exists_cons_of_ne_nil hfirst
    exact hheader.flush
  rw [headerLines, List.cons_append,
    unfoldOnto_header (withoutReturn_of_not_mem hreturn.1) hfirst hflush,
    unfoldOnto_continuations hmore]

/-- The lines of headers are joined to the headers. -/
lemma unfoldOnto_sectionLines {headers : List (List Char)}
    {foldings : List (List Char × List (List Char))} (hheaders : ∀ header ∈ headers, IsHeader header)
    (hfoldings : List.Forall₂ IsCutInto headers foldings) (found : List (List Char)) :
    unfoldOnto found (sectionLines foldings) = found.reverse ++ headers := by
  induction hfoldings generalizing found with
  | nil => simp [sectionLines, unfoldOnto]
  | cons hchunks _ ih =>
    rw [List.forall_mem_cons] at hheaders
    rw [sectionLines, List.flatMap_cons, unfoldOnto_headerLines hheaders.1 hchunks]
    change unfoldOnto _ (sectionLines _) = _
    rw [ih hheaders.2]
    simp

/-- A character other than the space that a header does not hold is not on its lines either. -/
lemma not_mem_headerLines {header : List Char} {chunks : List Char × List (List Char)} {c : Char}
    (h : IsCutInto header chunks) (hspace : c ≠ ' ') (hc : c ∉ header) :
    ∀ line ∈ headerLines chunks.1 chunks.2, c ∉ line := by
  obtain ⟨first, more⟩ := chunks
  obtain ⟨-, rfl⟩ := h
  rw [List.mem_append, not_or, List.mem_flatten, not_exists] at hc
  rw [headerLines, List.forall_mem_cons, List.forall_mem_map]
  refine ⟨hc.1, fun chunk hmem => ?_⟩
  rw [List.mem_cons, not_or]
  exact ⟨hspace, fun h => hc.2 chunk ⟨hmem, h⟩⟩

/-- No line of headers holds a carriage return or a line feed. -/
lemma not_mem_sectionLines {headers : List (List Char)}
    {foldings : List (List Char × List (List Char))} (hheaders : ∀ header ∈ headers, IsHeader header)
    (hfoldings : List.Forall₂ IsCutInto headers foldings) :
    ∀ line ∈ sectionLines foldings, '\r' ∉ line ∧ '\n' ∉ line := by
  induction hfoldings with
  | nil => simp [sectionLines]
  | cons hchunks _ ih =>
    rw [List.forall_mem_cons] at hheaders
    rw [sectionLines, List.flatMap_cons, List.forall_mem_append]
    refine ⟨fun line hmem => ⟨?_, ?_⟩, ih hheaders.2⟩
    · exact not_mem_headerLines hchunks (by decide) hheaders.1.unreturned line hmem
    · exact not_mem_headerLines hchunks (by decide) hheaders.1.unbroken line hmem

/-- The headers of a manifest are those that its lines are cut into. -/
theorem unfold_of_hasLines {headers : List (List Char)}
    {foldings : List (List Char × List (List Char))} {content : List Char}
    (hheaders : ∀ header ∈ headers, IsHeader header)
    (hfoldings : List.Forall₂ IsCutInto headers foldings)
    (hcontent : HasLines (sectionLines foldings) content) : unfold content = headers := by
  rw [unfold, unfoldOnto_of_hasLines hcontent (not_mem_sectionLines hheaders hfoldings),
    unfoldOnto_sectionLines hheaders hfoldings]
  rfl

/-! ## The values of headers -/

variable {header : List Char} {headers : List (List Char)} {name value : String}

/-- Whether a header splits at its first colon with a space into a name, which may differ from the
given one in the case of ASCII letters, and the given value. -/
def IsNamed (name value : String) (header : List Char) : Prop :=
  ∃ found, header = found ++ [':', ' '] ++ value.toList ∧ ¬ [':', ' '] <:+: found ∧
    found.map Char.toLower = name.toList.map Char.toLower

/-- Whether the last header of the given name has the given value. -/
def IsLast (name value : String) (headers : List (List Char)) : Prop :=
  ∃ before header after, headers = before ++ header :: after ∧ IsNamed name value header ∧
    ∀ later ∈ after, ∀ other, ¬ IsNamed name other later

/-- The value of a header if it has the given name. -/
def valueNamed? (name : String) (header : List Char) : Option String :=
  (splitHeader? header).bind fun (found, value) =>
    if sameName found name then some (String.ofList value) else none

lemma valueNamed?_eq_some_iff : valueNamed? name header = some value ↔ IsNamed name value header := by
  rw [valueNamed?, Option.bind_eq_some_iff]
  constructor
  · rintro ⟨⟨found, text⟩, hsplit, hvalue⟩
    simp only [Option.ite_none_right_eq_some, Option.some.injEq] at hvalue
    obtain ⟨hname, rfl⟩ := hvalue
    obtain ⟨hheader, hfirst⟩ := splitHeader?_eq_some_iff.1 hsplit
    refine ⟨found, ?_, hfirst, ?_⟩
    · rw [hheader, String.toList_ofList]
    · simpa [sameName] using hname
  · rintro ⟨found, hheader, hfirst, hname⟩
    refine ⟨(found, value.toList), splitHeader?_eq_some_iff.2 ⟨hheader, hfirst⟩, ?_⟩
    simp [sameName, hname]

/-- The headers are asked for their values from the last one on. -/
lemma lastValue?_eq_findSome? :
    lastValue? name headers = headers.reverse.findSome? (valueNamed? name) := by
  rw [lastValue?, ← List.filterMap_reverse, ← List.head?_filterMap, List.filterMap_filterMap,
    List.head?_filterMap]
  rfl

/-- The value that is found under a name is that of the last header of the name. -/
lemma lastValue?_eq_some_iff : lastValue? name headers = some value ↔ IsLast name value headers := by
  have hnone : ∀ header, valueNamed? name header = none ↔ ∀ other, ¬ IsNamed name other header := by
    intro header
    simp only [Option.eq_none_iff_forall_ne_some, ne_eq, valueNamed?_eq_some_iff]
  rw [lastValue?_eq_findSome?, List.findSome?_eq_some_iff]
  constructor
  · rintro ⟨after, header, before, hheaders, hvalue, hafter⟩
    refine ⟨before.reverse, header, after.reverse, ?_, valueNamed?_eq_some_iff.1 hvalue, ?_⟩
    · simpa using List.reverse_eq_iff.1 hheaders
    · intro later hlater
      exact (hnone later).1 (hafter later (List.mem_reverse.1 hlater))
  · rintro ⟨before, header, after, rfl, hnamed, hafter⟩
    refine ⟨after.reverse, header, before.reverse, by simp, valueNamed?_eq_some_iff.2 hnamed, ?_⟩
    intro later hlater
    exact (hnone later).2 (hafter later (List.mem_reverse.1 hlater))

/-- A value is found under a name if one of the headers has the name. -/
lemma isSome_lastValue?_iff :
    (lastValue? name headers).isSome ↔ ∃ header ∈ headers, ∃ value, IsNamed name value header := by
  rw [lastValue?_eq_findSome?, List.findSome?_isSome_iff]
  simp only [List.mem_reverse, Option.isSome_iff_exists, valueNamed?_eq_some_iff]

/-! ## The record of the headers -/

/-- A record is what is found under the two names. -/
lemma parse?_eq_some_iff {content : String} {record : Record} :
    Record.parse? content = some record ↔
      lastValue? versionHeader (unfold content.toList) = some record.version ∧
        lastValue? mainClassHeader (unfold content.toList) = some record.mainClass := by
  rw [Record.parse?]
  split
  · rename_i version mainClass hversion hmainClass
    rw [hversion, hmainClass]
    cases record
    simp
  · rename_i hnone
    constructor
    · rintro ⟨⟩
    · exact fun h => (hnone _ _ h.1 h.2).elim

/-- There is a record if something is found under either name. -/
lemma isSome_parse?_iff {content : String} :
    (Record.parse? content).isSome ↔
      (lastValue? versionHeader (unfold content.toList)).isSome ∧
        (lastValue? mainClassHeader (unfold content.toList)).isSome := by
  simp only [Option.isSome_iff_exists, parse?_eq_some_iff]
  constructor
  · rintro ⟨record, hversion, hmainClass⟩
    exact ⟨⟨_, hversion⟩, _, hmainClass⟩
  · rintro ⟨⟨version, hversion⟩, mainClass, hmainClass⟩
    exact ⟨⟨version, mainClass⟩, hversion, hmainClass⟩

/-- A manifest is parsed to a record exactly if one of the headers of its main section names a
version and one a main class, whatever chunks the headers are cut into and however the lines end.
The record holds the values of the last ones. -/
theorem parse?_of_hasLines {foldings : List (List Char × List (List Char))} {content : String}
    (hheaders : ∀ header ∈ headers, IsHeader header)
    (hfoldings : List.Forall₂ IsCutInto headers foldings)
    (hcontent : HasLines (sectionLines foldings) content.toList) :
    ((Record.parse? content).isSome ↔
      (∃ header ∈ headers, ∃ value, IsNamed versionHeader value header) ∧
        ∃ header ∈ headers, ∃ value, IsNamed mainClassHeader value header) ∧
      ∀ record, Record.parse? content = some record ↔
        IsLast versionHeader record.version headers ∧
          IsLast mainClassHeader record.mainClass headers := by
  have hunfold : unfold content.toList = headers := unfold_of_hasLines hheaders hfoldings hcontent
  constructor
  · rw [isSome_parse?_iff, hunfold, isSome_lastValue?_iff, isSome_lastValue?_iff]
  · intro record
    rw [parse?_eq_some_iff, hunfold, lastValue?_eq_some_iff, lastValue?_eq_some_iff]

/-- Three headers that name a version or a main class, one of them in other letters, and one that is
not a name and a value. -/
def chunkedHeaders : List (List Char) :=
  ["Manifest-Version: 1.0".toList, "main-class: a.B".toList, "Created-By".toList,
    "Main-Class: a.C: ".toList]

/-- The headers above in chunks, of which one breaks a name, one a colon from its space, and one is
empty. -/
def headerChunks : List (List Char × List (List Char)) :=
  [("Manifest-Ver".toList, ["sion: 1".toList, ".0".toList]),
    ("main-class:".toList, [" a.B".toList, []]), ("Created-By".toList, []),
    ("Main-Class: a.C: ".toList, [])]

/-- The headers above with endings of both kinds, and another header behind the empty line. -/
def chunkedManifest : String :=
  "Manifest-Ver\r\n sion: 1\n .0\nmain-class:\r\n  a.B\n \r\nCreated-By\n" ++
    "Main-Class: a.C: \r\n\nMain-Class: a.D\n"

/-- The last main class of the first section counts. -/
theorem parse?_of_hasLines_chunked :
    (∀ header ∈ chunkedHeaders, IsHeader header) ∧
      List.Forall₂ IsCutInto chunkedHeaders headerChunks ∧
      HasLines (sectionLines headerChunks) chunkedManifest.toList ∧
      Record.parse? chunkedManifest = some ⟨"1.0", "a.C: "⟩ ∧
      IsLast versionHeader "1.0" chunkedHeaders ∧ IsLast mainClassHeader "a.C: " chunkedHeaders := by
  have hheaders : ∀ header ∈ chunkedHeaders, IsHeader header := by
    decide
  have hfoldings : List.Forall₂ IsCutInto chunkedHeaders headerChunks :=
    .cons (by decide) <| .cons (by decide) <| .cons (by decide) <| .cons (by decide) .nil
  have hlines : HasLines (sectionLines headerChunks) chunkedManifest.toList :=
    .line .returnAndLineFeed <| .line .lineFeed <| .line .lineFeed <| .line .returnAndLineFeed <|
      .line .lineFeed <| .line .returnAndLineFeed <| .line .lineFeed <| .line .returnAndLineFeed <|
        .closed .lineFeed "Main-Class: a.D\n".toList
  have hparse : Record.parse? chunkedManifest = some ⟨"1.0", "a.C: "⟩ := by
    decide
  exact ⟨hheaders, hfoldings, hlines, hparse,
    ((parse?_of_hasLines hheaders hfoldings hlines).2 _).1 hparse⟩

end EntryPoint.Manifest
