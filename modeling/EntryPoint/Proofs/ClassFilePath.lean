import EntryPoint.ByteSource.Stored
import EntryPoint.Proofs.ClassName
import EntryPoint.Proofs.FileSystem.Paths

/-!
# Where a class is looked up

The name of a class is read off the path of its file below a root, and a directory looks the class
up at the path of its name. Every dot of a name comes back as a slash, whatever it was in the path
before. So the path of a look-up never climbs, since no `..` is left of it. It is absolute, though,
where the path of the file started with two dots or slashes of either kind: only one of them goes
when the name is read off, and the other one comes back as a slash in front.
-/

namespace EntryPoint

open EntryPoint.Path (isBlank spell)

/-! ## The path of a class name -/

/-- An ending without a slash lengthens the last segment. -/
lemma Path.exists_segments_append (text ending : String) (h : '/' ∉ ending.toList) :
    ∃ front last, (⟨text⟩ : Path).segments = front ++ [last] ∧
      (⟨text ++ ending⟩ : Path).segments = front ++ [last ++ ending] := by
  obtain ⟨front, last, hsegments⟩ := List.eq_nil_or_concat (⟨text⟩ : Path).segments
    |>.resolve_left (segments_ne_nil _)
  rw [List.concat_eq_append] at hsegments
  refine ⟨front, last, hsegments, ?_⟩
  have htext : text ++ ending = spell (front ++ [last ++ ending]) := by
    rw [spell_concat_append, ← hsegments, spell_segments]
  have hslash : ∀ segment ∈ front ++ [last], '/' ∉ segment.toList := by
    intro segment hsegment hmem
    rw [← hsegments] at hsegment
    exact (mem_and_ne_of_mem_segments hsegment hmem).2 rfl
  rw [htext, segments_spell (by simp)]
  intro segment hsegment
  rcases List.mem_append.1 hsegment with hfront | hlast
  · exact hslash segment (List.mem_append_left _ hfront)
  · obtain rfl := List.mem_singleton.1 hlast
    rw [String.toList_append, List.mem_append, not_or]
    exact ⟨hslash last (by simp), h⟩

namespace ClassName

/-- The segments of the path of a name are pieces of the name between dots, the last one with the
ending of class files. -/
lemma exists_segments_classPath (name : String) :
    ∃ front last, (⟨classPath name⟩ : Path).segments = front ++ [last ++ classSuffix] ∧
      ∀ piece ∈ front ++ [last], ∀ c ∈ piece.toList, c ≠ '.' ∧ c ∈ name.toList := by
  obtain ⟨front, last, hslashed, hsegments⟩ := Path.exists_segments_append
    (String.ofList (name.toList.map slashForDot)) classSuffix (by decide)
  refine ⟨front, last, hsegments, fun piece hpiece c hc => ?_⟩
  rw [← hslashed] at hpiece
  obtain ⟨hmem, hslash⟩ := Path.mem_and_ne_of_mem_segments hpiece hc
  rw [String.toList_ofList, List.mem_map] at hmem
  obtain ⟨original, horiginal, rfl⟩ := hmem
  unfold slashForDot at hslash ⊢
  split_ifs at hslash ⊢ with hdot
  · exact absurd rfl hslash
  · exact ⟨hdot, horiginal⟩

/-- What ends in the ending of class files holds the letters of that ending. -/
lemma append_classSuffix_ne (name : String) {other : String} (h : 's' ∉ other.toList) :
    name ++ classSuffix ≠ other := by
  rintro rfl
  simp [classSuffix] at h

/-- A location with the ending of class files is none whose last name lacks its letters. -/
lemma concat_append_classSuffix_ne (front other : Location) (stem : String) {name : String}
    (h : 's' ∉ name.toList) : front ++ [stem ++ classSuffix] ≠ other ++ [name] := by
  intro heq
  have hlast := congrArg List.getLast? heq
  rw [List.getLast?_concat, List.getLast?_concat] at hlast
  exact append_classSuffix_ne stem h (Option.some.inj hlast)

/-- What ends in the ending of class files is not blank. -/
lemma isBlank_append_classSuffix (name : String) : isBlank (name ++ classSuffix) = false := by
  rw [Path.isBlank, Bool.or_eq_false_iff, decide_eq_false_iff_not, decide_eq_false_iff_not]
  exact ⟨append_classSuffix_ne name (by decide), append_classSuffix_ne name (by decide)⟩

/-- The last name along the path of a name ends in the ending of class files. -/
lemma exists_names_classPath (name : String) :
    ∃ front stem, (⟨classPath name⟩ : Path).names = front ++ [stem ++ classSuffix] := by
  obtain ⟨front, stem, hsegments, -⟩ := exists_segments_classPath name
  refine ⟨front.filter fun segment => !isBlank segment, stem, ?_⟩
  rw [Path.names_eq_filter, hsegments, List.filter_append]
  simp [isBlank_append_classSuffix]

/-- The path of a name does not climb. -/
lemma not_mem_names_classPath (name : String) : ".." ∉ (⟨classPath name⟩ : Path).names := by
  obtain ⟨front, last, hsegments, hpieces⟩ := exists_segments_classPath name
  intro hmem
  rw [Path.names_eq_filter, hsegments] at hmem
  rcases List.mem_append.1 (List.mem_filter.1 hmem).1 with hfront | hlast
  · exact (hpieces ".." (List.mem_append_left _ hfront) '.' (by decide)).1 rfl
  · exact append_classSuffix_ne last (by decide) (List.mem_singleton.1 hlast).symm

/-- A path with the ending of class files is absolute if what precedes the ending starts with a
slash. -/
lemma isAbsolute_append_classSuffix_iff (stem : String) :
    (⟨stem ++ classSuffix⟩ : Path).isAbsolute = true ↔ stem.toList.head? = some '/' := by
  have hslash : ("/").toList = ['/'] := rfl
  rw [Path.isAbsolute_iff, List.head?_eq_some_iff]
  constructor
  · rintro ⟨rest, hrest⟩
    have hchars := congrArg String.toList hrest
    rw [String.toList_append, String.toList_append, hslash] at hchars
    cases hstem : stem.toList with
    | nil =>
      rw [hstem] at hchars
      exact absurd (List.cons.inj hchars).1 (by decide)
    | cons c cs =>
      rw [hstem] at hchars
      exact ⟨cs, by rw [(List.cons.inj hchars).1]⟩
  · rintro ⟨cs, hstem⟩
    refine ⟨String.ofList cs ++ classSuffix, ?_⟩
    apply String.toList_injective
    simp [hstem]

/-- The path of a name starts and ends with a piece of the name, unless it is absolute. -/
lemma isTight_classPath {name : String} (h : (⟨classPath name⟩ : Path).isAbsolute = false) :
    (⟨classPath name⟩ : Path).IsTight := by
  obtain ⟨front, last, hsegments, hpieces⟩ := exists_segments_classPath name
  have hlast := isBlank_append_classSuffix last
  refine ⟨?_, front, _, hsegments, hlast⟩
  cases front with
  | nil => exact ⟨_, [], hsegments, hlast⟩
  | cons first front =>
    refine ⟨first, _, hsegments, ?_⟩
    rw [Path.isBlank, Bool.or_eq_false_iff, decide_eq_false_iff_not, decide_eq_false_iff_not]
    constructor
    · rintro rfl
      rw [Path.isAbsolute, Path.anchor, Path.anchored_of_root hsegments (by simp)] at h
      simp at h
    · rintro rfl
      exact (hpieces "." (by simp) '.' (by decide)).1 rfl

/-! ## Names that are read off a path -/

/-- A name that is read off a path holds no slash of either kind. -/
lemma ne_slash_of_mem_ofRelativePath {relative : String} {c : Char}
    (hc : c ∈ (ofRelativePath relative).toList) : c ≠ '/' ∧ c ≠ '\\' := by
  have hleading : ∀ {cs : List Char}, c ∈ withoutLeadingDot cs → c ∈ cs := by
    intro cs h
    unfold withoutLeadingDot at h
    split at h
    · exact List.mem_cons_of_mem _ h
    · exact h
  have hending : ∀ {cs : List Char}, c ∈ withoutSuffix classSuffix.toList cs → c ∈ cs := by
    intro cs h
    unfold withoutSuffix at h
    split_ifs at h
    · exact List.mem_of_mem_take h
    · exact h
  rw [ofRelativePath, String.toList_ofList] at hc
  obtain ⟨original, -, rfl⟩ := List.mem_map.1 (hending (hleading hc))
  unfold dotForSlash
  split_ifs with hslash
  · decide
  · exact not_or.1 hslash

/-- Whether a path starts with two dots or slashes of either kind, its ending aside. -/
def StartsDoubled (relative : String) : Prop :=
  ['.', '.'] <+: withoutSuffix classSuffix.toList (relative.toList.map dotForSlash)

/-- The name that is read off a path starts with a dot if the path starts with two. -/
lemma exists_ofRelativePath_eq_iff (relative : String) :
    (∃ rest, (ofRelativePath relative).toList = '.' :: rest) ↔ StartsDoubled relative := by
  rw [StartsDoubled, ofRelativePath, String.toList_ofList]
  cases withoutSuffix classSuffix.toList (relative.toList.map dotForSlash) with
  | nil => simp [withoutLeadingDot]
  | cons first cs =>
    by_cases hfirst : first = '.'
    · subst hfirst
      cases cs with
      | nil => simp [withoutLeadingDot]
      | cons second cs => simp [withoutLeadingDot, eq_comm]
    · rw [withoutLeadingDot_of_head? (by simpa using hfirst)]
      simp [hfirst, Ne.symm hfirst]

/-- A class that was found is looked up at an absolute path if the path of its file starts with two
dots or slashes. -/
theorem isAbsolute_classPath_iff (relative : String) :
    (⟨classPath (ofRelativePath relative)⟩ : Path).isAbsolute = true ↔
      StartsDoubled relative := by
  have hmem := @ne_slash_of_mem_ofRelativePath relative
  rw [← exists_ofRelativePath_eq_iff, classPath, isAbsolute_append_classSuffix_iff,
    String.toList_ofList, List.head?_map, Option.map_eq_some_iff]
  constructor
  · rintro ⟨c, hc, hslash⟩
    obtain ⟨rest, hrest⟩ := List.head?_eq_some_iff.1 hc
    unfold slashForDot at hslash
    split_ifs at hslash with hdot
    · exact ⟨rest, by rw [hrest, hdot]⟩
    · exact absurd hslash (hmem (List.mem_of_mem_head? hc)).1
  · rintro ⟨rest, hrest⟩
    exact ⟨'.', by rw [hrest, List.head?_cons], rfl⟩

end ClassName

/-! ## Below a root -/

/-- Whether a path starts with a root, component by component, and does not climb beyond it. -/
def StaysBelow (root path : Path) : Prop :=
  ∃ rest, Path.relativeTo? root path = some rest ∧ ".." ∉ (⟨rest⟩ : Path).names

/-- A class that was found below a root is looked up below that root, unless the path of its file
starts with two dots or slashes. Then it is looked up at an absolute path, which lies below the root
only if the root has no component at all, or is absolute and contains the path by chance. -/
theorem staysBelow_classFilePath_iff (root : Path) (relative : String) :
    StaysBelow root (classFilePath root (ClassName.ofRelativePath relative)) ↔
      ¬ClassName.StartsDoubled relative ∨ root.isTrivial = true ∨
        root.anchor = .root ∧
          root.names <+: (classFilePath root (ClassName.ofRelativePath relative)).names := by
  set name := ClassName.ofRelativePath relative
  have hdoubled := ClassName.isAbsolute_classPath_iff relative
  have hclimb := ClassName.not_mem_names_classPath name
  by_cases habsolute : (⟨ClassName.classPath name⟩ : Path).isAbsolute = true
  · have hpath : classFilePath root name = ⟨ClassName.classPath name⟩ := by
      rw [classFilePath, Path.join, if_pos habsolute]
    have hanchor : (⟨ClassName.classPath name⟩ : Path).anchor = .root := by
      simpa [Path.isAbsolute] using habsolute
    have hstarts := Path.isSome_relativeTo?_iff root ⟨ClassName.classPath name⟩
    rw [hanchor, Option.isSome_iff_exists] at hstarts
    rw [hpath, ← hstarts, StaysBelow]
    constructor
    · rintro ⟨rest, hrest, -⟩
      exact Or.inr ⟨rest, hrest⟩
    · rintro (hnot | ⟨rest, hrest⟩)
      · exact absurd (hdoubled.1 habsolute) hnot
      · exact ⟨rest, hrest, fun hmem => hclimb (Path.mem_names_of_relativeTo? hrest hmem)⟩
  · have htight := ClassName.isTight_classPath (Bool.eq_false_iff.2 habsolute)
    refine iff_of_true ⟨_, htight.relativeTo?_join root, hclimb⟩ (Or.inl ?_)
    rwa [← hdoubled]

/-- A class file named `..a.class` is looked up outside the directory in which it lies. -/
theorem not_staysBelow_climbing :
    let relative : Location := ["..a.class"]
    (∀ name ∈ relative, FileSystem.IsFileName name) ∧
      relative.getLast?.bind Path.extensionOf? = some classExtension ∧
        ¬StaysBelow ⟨"out"⟩ (classFilePath ⟨"out"⟩ (ClassName.ofRelativePath (spell relative))) := by
  refine ⟨by simp [FileSystem.IsFileName], by decide, ?_⟩
  rintro ⟨rest, hrest, -⟩
  have hnone : Path.relativeTo? ⟨"out"⟩ ⟨"/a.class"⟩ = none := by
    decide
  have hpath : classFilePath ⟨"out"⟩ (ClassName.ofRelativePath (spell ["..a.class"]))
      = ⟨"/a.class"⟩ := by
    decide
  rw [hpath, hnone] at hrest
  cases hrest

/-! ## Back to the file -/

/-- No dot and no backslash is left in the path of a name that was read off a path. -/
lemma ClassName.ne_separator_of_mem {relative : String} {c : Char}
    (hc : c ∈ (ClassName.ofRelativePath relative).toList.map ClassName.slashForDot) :
    c ≠ '.' ∧ c ≠ '\\' := by
  obtain ⟨original, horiginal, rfl⟩ := List.mem_map.1 hc
  unfold ClassName.slashForDot
  split_ifs with hdot
  · decide
  · exact ⟨hdot, (ClassName.ne_slash_of_mem_ofRelativePath horiginal).2⟩

/-- Without dots and backslashes, a relative path is the path of the name that is read off it. -/
lemma ClassName.classPath_ofRelativePath {stem : String} (hdot : '.' ∉ stem.toList)
    (hbackslash : '\\' ∉ stem.toList)
    (hrelative : (⟨stem ++ classSuffix⟩ : Path).isAbsolute = false) :
    classPath (ofRelativePath (stem ++ classSuffix)) = stem ++ classSuffix := by
  have hleading : withoutLeadingDot (stem.toList.map dotForSlash)
      = stem.toList.map dotForSlash := by
    refine withoutLeadingDot_of_head? fun hhead => ?_
    rw [List.head?_map, Option.map_eq_some_iff] at hhead
    obtain ⟨first, hstem, hfirst⟩ := hhead
    have hmem := List.mem_of_mem_head? hstem
    -- a leading dot could only come from a leading slash
    unfold dotForSlash at hfirst
    split_ifs at hfirst with hslash
    · rcases hslash with rfl | rfl
      · rw [(isAbsolute_append_classSuffix_iff stem).2 hstem] at hrelative
        cases hrelative
      · exact absurd hmem hbackslash
    · rw [hfirst] at hmem
      exact absurd hmem hdot
  have hback : ∀ c ∈ stem.toList, slashForDot (dotForSlash c) = c := by
    intro c hc
    have hcdot : c ≠ '.' := fun heq => hdot (heq ▸ hc)
    have hcbackslash : c ≠ '\\' := fun heq => hbackslash (heq ▸ hc)
    unfold dotForSlash
    split_ifs with hslash
    · rw [hslash.resolve_right hcbackslash]
      rfl
    · rw [slashForDot, if_neg hcdot]
  have hwhole : (stem.toList.map dotForSlash).map slashForDot = stem.toList := by
    rw [List.map_map]
    exact (List.map_congr_left hback).trans (List.map_id' stem.toList)
  rw [ofRelativePath_append, hleading, classPath, String.toList_ofList, hwhole,
    String.ofList_toList]

/-- A class file below a root is the file at which its class is looked up, if and only if its path
below the root has no dot but that of the ending, and no backslash. -/
theorem classFilePath_eq_join_iff (root : Path) {stem : String}
    (hrelative : (⟨stem ++ ClassName.classSuffix⟩ : Path).isAbsolute = false) :
    classFilePath root (ClassName.ofRelativePath (stem ++ ClassName.classSuffix))
        = root.join ⟨stem ++ ClassName.classSuffix⟩ ↔
      '.' ∉ stem.toList ∧ '\\' ∉ stem.toList := by
  set name := ClassName.ofRelativePath (stem ++ ClassName.classSuffix)
  constructor
  · intro h
    have hjoin := Path.text_join root hrelative
    obtain ⟨front, hfront⟩ :
        ∃ front, ClassName.classPath name = front ++ (stem ++ ClassName.classSuffix) := by
      by_cases habsolute : (⟨ClassName.classPath name⟩ : Path).isAbsolute = true
      · rw [← h, classFilePath, Path.join, if_pos habsolute] at hjoin
        exact ⟨root.stem, hjoin⟩
      · rw [← h, classFilePath, Path.text_join root (Bool.eq_false_iff.2 habsolute)] at hjoin
        have hsame : ClassName.classPath name = stem ++ ClassName.classSuffix :=
          (String.append_right_inj _).1 hjoin
        exact ⟨"", by rw [String.empty_append, hsame]⟩
    rw [ClassName.classPath, ← String.append_assoc, String.append_left_inj] at hfront
    have hseparator : ∀ c ∈ stem.toList, c ≠ '.' ∧ c ≠ '\\' := by
      intro c hc
      have hmem : c ∈ (front ++ stem).toList := by
        rw [String.toList_append]
        exact List.mem_append_right _ hc
      rw [← hfront, String.toList_ofList] at hmem
      exact ClassName.ne_separator_of_mem hmem
    exact ⟨fun hdot => (hseparator _ hdot).1 rfl, fun hbackslash => (hseparator _ hbackslash).2 rfl⟩
  · rintro ⟨hdot, hbackslash⟩
    rw [classFilePath, ClassName.classPath_ofRelativePath hdot hbackslash hrelative]

end EntryPoint
