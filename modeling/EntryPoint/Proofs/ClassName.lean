import EntryPoint.Proofs.Splitting
import EntryPoint.Scan

/-!
# Class names and the names along a path

A class is named by the packages that lead to it and its own name, with dots between them, and its
file by the same names with slashes between them and the ending of class files. Where none of the
names holds a separator, each of the two is read off the other.
-/

namespace EntryPoint.ClassName

/-- A name between separators: it is not empty, and it holds no separator itself. -/
def IsPlain (name : String) : Prop :=
  name ≠ "" ∧ '.' ∉ name.toList ∧ '/' ∉ name.toList ∧ '\\' ∉ name.toList

/-- The name of a class from those of its packages and its own. -/
def ofNames (names : List String) : String :=
  String.intercalate "." names

/-- Characters that do not start with a dot stay as they are. -/
lemma withoutLeadingDot_of_head? {cs : List Char} (h : cs.head? ≠ some '.') :
    withoutLeadingDot cs = cs := by
  unfold withoutLeadingDot
  split
  · exact absurd rfl h
  · rfl

/-- The ending of a class file goes when its name is read off. -/
lemma ofRelativePath_append (stem : String) :
    ofRelativePath (stem ++ classSuffix)
      = String.ofList (withoutLeadingDot (stem.toList.map dotForSlash)) := by
  have hsuffix : classSuffix.toList.map dotForSlash = classSuffix.toList := by
    decide
  have hwithout : withoutSuffix classSuffix.toList
      (stem.toList.map dotForSlash ++ classSuffix.toList) = stem.toList.map dotForSlash := by
    simp [withoutSuffix]
  simp only [ofRelativePath, String.toList_append, List.map_append, hsuffix, hwithout]

section
variable {names : List String} (hdots : ∀ name ∈ names, '.' ∉ name.toList)

include hdots in
/-- Slashes in place of the dots of a class name give the path of its names. -/
lemma map_slashForDot_ofNames :
    (ofNames names).toList.map slashForDot = (Path.spell names).toList := by
  have hfix : ∀ piece ∈ names.map String.toList, ∀ c ∈ piece, slashForDot c = c := by
    intro piece hpiece c hc
    obtain ⟨name, hname, rfl⟩ := List.mem_map.1 hpiece
    have hdot : c ≠ '.' := by
      rintro rfl
      exact hdots name hname hc
    rw [slashForDot, if_neg hdot]
  have hdot : (".").toList = ['.'] := rfl
  have hslash : ("/").toList = [slashForDot '.'] := rfl
  rw [ofNames, Path.spell, String.toList_intercalate, String.toList_intercalate, hdot, hslash,
    map_intercalate '.' hfix]

include hdots in
/-- The file of a class lies along its names. -/
theorem classPath_ofNames : classPath (ofNames names) = Path.spell names ++ classSuffix := by
  rw [classPath, map_slashForDot_ofNames hdots, String.ofList_toList]

include hdots in
/-- The names can be read off the name of the class. -/
theorem ofNames_injective {others : List String} (hothers : ∀ name ∈ others, '.' ∉ name.toList)
    (hne : names ≠ []) (hne' : others ≠ []) (h : ofNames names = ofNames others) :
    names = others := by
  have hsplit : ∀ pieces : List String, pieces ≠ [] → (∀ name ∈ pieces, '.' ∉ name.toList) →
      (ofNames pieces).toList.splitOn '.' = pieces.map String.toList := by
    intro pieces hpieces hpieceDots
    have hdot : (".").toList = ['.'] := rfl
    rw [ofNames, String.toList_intercalate, hdot]
    refine List.splitOn_intercalate '.' ?_ (by simpa using hpieces)
    intro piece hpiece
    obtain ⟨name, hname, rfl⟩ := List.mem_map.1 hpiece
    exact hpieceDots name hname
  have hmap : names.map String.toList = others.map String.toList := by
    rw [← hsplit names hne hdots, h, hsplit others hne' hothers]
  exact List.map_injective_iff.2 (fun _ _ => String.toList_injective) hmap

end

section
variable {names : List String} (hnames : ∀ name ∈ names, IsPlain name)

include hnames in
/-- Dots in place of the slashes of a path give the class name of its names. -/
lemma map_dotForSlash_spell :
    (Path.spell names).toList.map dotForSlash = (ofNames names).toList := by
  have hfix : ∀ piece ∈ names.map String.toList, ∀ c ∈ piece, dotForSlash c = c := by
    intro piece hpiece c hc
    obtain ⟨name, hname, rfl⟩ := List.mem_map.1 hpiece
    have hslashes : ¬(c = '/' ∨ c = '\\') := by
      rintro (rfl | rfl)
      · exact (hnames name hname).2.2.1 hc
      · exact (hnames name hname).2.2.2 hc
    rw [dotForSlash, if_neg hslashes]
  have hslash : ("/").toList = ['/'] := rfl
  have hdot : (".").toList = [dotForSlash '/'] := rfl
  rw [ofNames, Path.spell, String.toList_intercalate, String.toList_intercalate, hdot, hslash,
    map_intercalate '/' hfix]

include hnames in
/-- No class name of plain names starts with a dot. -/
lemma withoutLeadingDot_ofNames :
    withoutLeadingDot (ofNames names).toList = (ofNames names).toList := by
  cases names with
  | nil => rfl
  | cons name rest =>
    have hname := hnames name List.mem_cons_self
    obtain ⟨c, cs, hcs⟩ := List.exists_cons_of_ne_nil
      (fun hnil : name.toList = [] => hname.1 (String.toList_eq_nil_iff.1 hnil))
    have hc : c ≠ '.' := by
      rintro rfl
      exact hname.2.1 (by simp [hcs])
    have hstart : ∃ more, (ofNames (name :: rest)).toList = c :: more := by
      by_cases hrest : rest = []
      · subst hrest
        exact ⟨cs, by simp [ofNames, hcs]⟩
      · rw [ofNames, String.intercalate_cons_of_ne_nil hrest]
        simp [hcs]
    obtain ⟨more, hmore⟩ := hstart
    refine withoutLeadingDot_of_head? ?_
    rw [hmore]
    simpa using hc

include hnames in
/-- The class of a file is read off the names that lead to it. -/
theorem ofRelativePath_spell :
    ofRelativePath (Path.spell names ++ classSuffix) = ofNames names := by
  rw [ofRelativePath_append, map_dotForSlash_spell hnames, withoutLeadingDot_ofNames hnames,
    String.ofList_toList]

end

end EntryPoint.ClassName

namespace EntryPoint.Path

/-- A last name with an ending is a last name, with the ending behind the whole path. -/
lemma spell_concat_append (front : List String) (name ending : String) :
    spell (front ++ [name ++ ending]) = spell (front ++ [name]) ++ ending := by
  by_cases hfront : front = []
  · subst hfront
    simp [spell]
  · rw [spell, spell, String.intercalate_append_of_ne_nil hfront (by simp),
      String.intercalate_append_of_ne_nil hfront (by simp)]
    simp [String.append_assoc]

/-- The names of class files are those that end in the ending of class files and have a stem. -/
theorem extensionOf?_eq_class_iff (name : String) :
    extensionOf? name = some classExtension ↔
      ∃ stem, stem ≠ "" ∧ name = stem ++ ClassName.classSuffix := by
  have hsuffix : ClassName.classSuffix.toList = '.' :: classExtension.toList := rfl
  constructor
  · intro h
    simp only [extensionOf?] at h
    split_ifs at h with hlength
    have hafter : name.toList.reverse.takeWhile (· != '.') = classExtension.toList.reverse := by
      rw [← Option.some.inj h, String.toList_ofList, List.reverse_reverse]
    have hsplit := List.takeWhile_append_dropWhile (p := (· != '.')) (l := name.toList.reverse)
    have hdot := List.head?_dropWhile_not (· != '.') name.toList.reverse
    rw [hafter] at hsplit hlength
    cases hrest : name.toList.reverse.dropWhile (· != '.') with
    | nil =>
      rw [hrest, List.append_nil] at hsplit
      have hwhole : name.toList.length = classExtension.toList.reverse.length := by
        rw [hsplit, List.length_reverse]
      omega
    | cons c stem =>
      rw [hrest] at hsplit hdot
      obtain rfl : c = '.' := by
        simpa using hdot
      have hname : name.toList = stem.reverse ++ '.' :: classExtension.toList := by
        rw [← List.reverse_reverse name.toList, ← hsplit]
        simp
      refine ⟨String.ofList stem.reverse, ?_, ?_⟩
      · intro hempty
        have hstem : stem = [] := by
          simpa using hempty
        rw [hname, hstem] at hlength
        simp at hlength
      · apply String.toList_injective
        rw [String.toList_append, String.toList_ofList, hsuffix, hname]
  · rintro ⟨stem, hstem, rfl⟩
    have hreverse : (stem ++ ClassName.classSuffix).toList.reverse
        = classExtension.toList.reverse ++ '.' :: stem.toList.reverse := by
      simp [hsuffix]
    have hafter : (stem ++ ClassName.classSuffix).toList.reverse.takeWhile (· != '.')
        = classExtension.toList.reverse := by
      have hletters : ∀ c ∈ classExtension.toList.reverse, (c != '.') = true := by
        simp [classExtension]
      rw [hreverse, List.takeWhile_append_of_pos hletters, List.takeWhile_cons_of_neg (by simp),
        List.append_nil]
    have hstemLength : 0 < stem.toList.length := by
      simpa [List.length_pos_iff] using hstem
    have hlength : classExtension.toList.reverse.length + 1
        < (stem ++ ClassName.classSuffix).toList.length := by
      rw [String.toList_append, hsuffix, List.length_append, List.length_cons, List.length_reverse]
      omega
    simp only [extensionOf?, hafter, if_pos hlength, List.reverse_reverse, String.ofList_toList]

end EntryPoint.Path
