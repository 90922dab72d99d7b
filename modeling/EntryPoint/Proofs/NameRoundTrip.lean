import EntryPoint.Proofs.ClassFilePath

/-!
# Names and paths that give each other back

The path of a class name and the name that is read off a path undo each other only on some texts.
Every dot of a name becomes a slash in its path, and both kinds of slash of a path become dots in
its name, so a name comes back if it holds no slash of its own, and a path if it holds no dot but
that of its ending, and no backslash. Besides, a separator at the start is lost where a name is read
off, so neither a name that starts with a dot nor a path that starts with a slash comes back.
-/

namespace EntryPoint.ClassName

/-! ## The first character -/

/-- A leading dot is lost. -/
lemma length_withoutLeadingDot_lt {cs : List Char} (h : cs.head? = some '.') :
    (withoutLeadingDot cs).length < cs.length := by
  obtain ⟨rest, rfl⟩ := List.head?_eq_some_iff.1 h
  exact Nat.lt_succ_self rest.length

/-! ## Back to the name -/

/-- Dots in place of slashes change nothing exactly where there is no slash of either kind. -/
lemma map_dotForSlash_eq_self_iff {cs : List Char} :
    cs.map dotForSlash = cs ↔ '/' ∉ cs ∧ '\\' ∉ cs := by
  have hfixed : ∀ c, dotForSlash c = c ↔ c ≠ '/' ∧ c ≠ '\\' := by
    intro c
    unfold dotForSlash
    split_ifs with hslash
    · rcases hslash with rfl | rfl <;> decide
    · simpa using hslash
  have hall : cs.map dotForSlash = cs.map id ↔ ∀ c ∈ cs, dotForSlash c = c :=
    List.map_inj_left
  rw [List.map_id] at hall
  simp only [hall, hfixed]
  constructor
  · exact fun h => ⟨fun hslash => (h _ hslash).1 rfl, fun hbackslash => (h _ hbackslash).2 rfl⟩
  · rintro ⟨hslash, hbackslash⟩ c hc
    exact ⟨fun heq => hslash (heq ▸ hc), fun heq => hbackslash (heq ▸ hc)⟩

/-- The name that is read off the path of a name has dots for its slashes, and a leading dot
less. -/
lemma ofRelativePath_classPath (name : String) :
    ofRelativePath (classPath name)
      = String.ofList (withoutLeadingDot (name.toList.map dotForSlash)) := by
  have hsame : ∀ c, dotForSlash (slashForDot c) = dotForSlash c := by
    intro c
    unfold slashForDot
    split_ifs with hdot
    · rw [hdot]
      decide
    · rfl
  rw [classPath, ofRelativePath_append, String.toList_ofList, List.map_map]
  simp only [Function.comp_def, hsame]

/-- A name comes back exactly if it holds no slash of either kind and does not start with a dot. -/
theorem ofRelativePath_classPath_eq_iff (name : String) :
    ofRelativePath (classPath name) = name ↔
      '/' ∉ name.toList ∧ '\\' ∉ name.toList ∧ name.toList.head? ≠ some '.' := by
  rw [ofRelativePath_classPath, ← String.toList_inj, String.toList_ofList, ← and_assoc,
    ← map_dotForSlash_eq_self_iff]
  constructor
  · intro h
    have hhead : (name.toList.map dotForSlash).head? ≠ some '.' := by
      intro hdot
      have hlength := length_withoutLeadingDot_lt hdot
      rw [h, List.length_map] at hlength
      exact Nat.lt_irrefl _ hlength
    rw [withoutLeadingDot_of_head? hhead] at h
    exact ⟨h, h ▸ hhead⟩
  · rintro ⟨hfixed, hhead⟩
    rw [hfixed, withoutLeadingDot_of_head? hhead]

/-! ## Back to the path -/

/-- A path comes back exactly if it has the ending of class files and, before it, no dot, no
backslash and no slash at the start. -/
theorem classPath_ofRelativePath_eq_iff (path : String) :
    classPath (ofRelativePath path) = path ↔
      ∃ stem, path = stem ++ classSuffix ∧ '.' ∉ stem.toList ∧ '\\' ∉ stem.toList ∧
        stem.toList.head? ≠ some '/' := by
  constructor
  · intro h
    set stem := String.ofList ((ofRelativePath path).toList.map slashForDot) with hstem
    have hpath : path = stem ++ classSuffix := h.symm
    have hseparator : ∀ c ∈ stem.toList, c ≠ '.' ∧ c ≠ '\\' := by
      intro c hc
      rw [hstem, String.toList_ofList] at hc
      exact ne_separator_of_mem hc
    refine ⟨stem, hpath, fun hdot => (hseparator _ hdot).1 rfl,
      fun hbackslash => (hseparator _ hbackslash).2 rfl, fun hslash => ?_⟩
    -- a slash at the start would be lost, and the name shorter than the path that it came from
    have hdot : (stem.toList.map dotForSlash).head? = some '.' := by
      rw [List.head?_map, hslash]
      rfl
    have hlength := length_withoutLeadingDot_lt hdot
    have hname : (ofRelativePath path).toList.length = stem.toList.length := by
      rw [hstem, String.toList_ofList, List.length_map]
    rw [hpath, ofRelativePath_append, String.toList_ofList] at hname
    rw [hname, List.length_map] at hlength
    exact Nat.lt_irrefl _ hlength
  · rintro ⟨stem, rfl, hdot, hbackslash, hslash⟩
    refine classPath_ofRelativePath hdot hbackslash (Bool.eq_false_iff.2 ?_)
    rwa [Ne, isAbsolute_append_classSuffix_iff]

/-- Names and paths give each other back exactly on these domains. A name is read off its path again
if and only if it holds no slash of either kind and does not start with a dot. A path is that of the
name that is read off it if and only if it is a text with the ending of class files, where the text
holds no dot and no backslash and does not start with a slash. -/
theorem inverse_iff :
    (∀ name : String, ofRelativePath (classPath name) = name ↔
      '/' ∉ name.toList ∧ '\\' ∉ name.toList ∧ name.toList.head? ≠ some '.') ∧
    ∀ path : String, classPath (ofRelativePath path) = path ↔
      ∃ stem, path = stem ++ classSuffix ∧ '.' ∉ stem.toList ∧ '\\' ∉ stem.toList ∧
        stem.toList.head? ≠ some '/' :=
  ⟨ofRelativePath_classPath_eq_iff, classPath_ofRelativePath_eq_iff⟩

/-- The path `a/class` has the ending once its slash has become a dot, and does not come back. -/
example : classPath (ofRelativePath "a/class") = "a.class" := by decide

end EntryPoint.ClassName
