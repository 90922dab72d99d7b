import EntryPoint.Ownership
import EntryPoint.Proofs.ClassName
import Mathlib.Data.List.Nodup

/-!
# Packages by their names

A filter compares texts: a class lies inside a package if its name starts with that of the package
and a dot. Told on the names between the dots, this says that those of the package are the first of
those of the class, and that the class has more (`inPackage_iff_names`). The dot keeps a package
apart from others whose names merely start alike, and it does so for all texts, with empty names in
any place.

Which packages a filter excludes depends only on which ones it was told to, not on how often or in
which order, so the names that it allows do not depend on that either.
-/

namespace EntryPoint

namespace ClassName

/-- The names between the dots of the name of a class or package. -/
def names (name : String) : List String :=
  (name.toList.splitOn '.').map String.ofList

lemma names_ne_nil (name : String) : names name ≠ [] := by
  rw [names, Ne, List.map_eq_nil_iff]
  exact List.splitOn_ne_nil '.' name.toList

/-- A name is put together from its names. -/
lemma ofNames_names (name : String) : ofNames (names name) = name := by
  have hdot : (".").toList = ['.'] := rfl
  have hid : (String.toList ∘ String.ofList) = id := funext fun _ => String.toList_ofList
  apply String.toList_injective
  rw [ofNames, String.toList_intercalate, hdot, names, List.map_map, hid, List.map_id]
  exact List.intercalate_splitOn '.'

/-- The names on both sides of a dot are those of the two texts there. -/
lemma names_append_dot (before after : String) :
    names (before ++ "." ++ after) = names before ++ names after := by
  have hsplit : (before ++ "." ++ after).toList = before.toList ++ '.' :: after.toList := by
    simp
  rw [names, hsplit, List.splitOn_append_cons_self, List.map_append]
  rfl

end ClassName

open ClassName (names ofNames)

/-! ## Packages -/

/-- A class lies inside a package if its name goes on with a dot behind that of the package. -/
lemma inPackage_iff_exists {package className : String} :
    inPackage package className = true ↔ ∃ rest, className = package ++ "." ++ rest := by
  rw [inPackage, List.isPrefixOf_iff_prefix]
  constructor
  · rintro ⟨rest, hrest⟩
    refine ⟨String.ofList rest, String.toList_injective ?_⟩
    simp [← hrest]
  · rintro ⟨rest, rfl⟩
    exact ⟨rest.toList, by simp⟩

/-- A class lies inside a package exactly if the names of the package are the first names of the
class and are not all of them. -/
theorem inPackage_iff_names {package className : String} :
    inPackage package className = true ↔
      names package <+: names className ∧ names package ≠ names className := by
  rw [inPackage_iff_exists]
  constructor
  · rintro ⟨rest, rfl⟩
    rw [ClassName.names_append_dot]
    refine ⟨List.prefix_append _ _, fun hsame => ?_⟩
    have hrest : names rest = [] := by
      simpa using hsame.symm
    exact ClassName.names_ne_nil rest hrest
  · rintro ⟨⟨rest, hrest⟩, hproper⟩
    have hne : rest ≠ [] := by
      rintro rfl
      exact hproper (by simpa using hrest)
    refine ⟨ofNames rest, ?_⟩
    calc className = ofNames (names package ++ rest) := by rw [hrest, ClassName.ofNames_names]
      _ = ofNames (names package) ++ "." ++ ofNames rest :=
        String.intercalate_append_of_ne_nil (ClassName.names_ne_nil package) hne
      _ = package ++ "." ++ ofNames rest := by rw [ClassName.ofNames_names]

namespace OwnershipFilter

/-! ## Excluding packages -/

/-- The packages that are excluded in the end. -/
lemma mem_excluded_ofPackages_iff {framework package : String} {packages : List String} :
    package ∈ (ofPackages framework packages).excluded ↔
      package = framework ∨ package ∈ packages ∧ package ≠ "" := by
  have hfold : ∀ (packages : List String) (filter : OwnershipFilter),
      package ∈ (packages.foldl exclude filter).excluded ↔
        package ∈ filter.excluded ∨ package ∈ packages ∧ package ≠ "" := by
    intro packages
    induction packages with
    | nil => simp
    | cons other packages ih =>
      intro filter
      have hexclude : package ∈ (filter.exclude other).excluded ↔
          package ∈ filter.excluded ∨ package = other ∧ package ≠ "" := by
        unfold exclude
        split
        · rename_i h
          rcases h with rfl | hmem
          · tauto
          · constructor
            · exact Or.inl
            · rintro (h | ⟨rfl, -⟩)
              · exact h
              · exact hmem
        · rename_i h
          rw [not_or] at h
          simp only [List.mem_append, List.mem_singleton]
          constructor
          · rintro (hmem | rfl)
            · exact Or.inl hmem
            · exact Or.inr ⟨rfl, h.1⟩
          · rintro (hmem | ⟨rfl, -⟩)
            · exact Or.inl hmem
            · exact Or.inr rfl
      rw [List.foldl_cons, ih, hexclude, List.mem_cons]
      tauto
  rw [ofPackages, hfold]
  simp [ofFramework]

/-- Excluding a package does not change which package is the framework's. -/
lemma frameworkPackage_exclude (filter : OwnershipFilter) (package : String) :
    (filter.exclude package).frameworkPackage = filter.frameworkPackage := by
  unfold exclude
  split <;> rfl

lemma frameworkPackage_ofPackages (framework : String) (packages : List String) :
    (ofPackages framework packages).frameworkPackage = framework := by
  have hfold : ∀ (packages : List String) (filter : OwnershipFilter),
      (packages.foldl exclude filter).frameworkPackage = filter.frameworkPackage := by
    intro packages
    induction packages with
    | nil => exact fun _ => rfl
    | cons package packages ih =>
      intro filter
      rw [List.foldl_cons, ih, frameworkPackage_exclude]
  exact hfold packages (ofFramework framework)

/-- What holds of the packages that a filter excludes, however it was built. -/
structure IsTidy (filter : OwnershipFilter) : Prop where
  /-- The framework's package comes first. -/
  framework_first : ∃ further, filter.excluded = filter.frameworkPackage :: further
  /-- No package is excluded twice. -/
  nodup : filter.excluded.Nodup
  /-- The empty name is excluded as that of the framework only. -/
  empty : "" ∈ filter.excluded → filter.frameworkPackage = ""

lemma isTidy_ofFramework (framework : String) : (ofFramework framework).IsTidy where
  framework_first := ⟨[], rfl⟩
  nodup := List.nodup_singleton framework
  empty h := (List.mem_singleton.1 h).symm

/-- Excluding one more package keeps what is excluded tidy. -/
lemma IsTidy.exclude {filter : OwnershipFilter} (h : filter.IsTidy) (package : String) :
    (filter.exclude package).IsTidy := by
  unfold OwnershipFilter.exclude
  split
  · exact h
  · rename_i hnew
    rw [not_or] at hnew
    obtain ⟨further, hfurther⟩ := h.framework_first
    refine ⟨⟨further ++ [package], ?_⟩, ?_, fun hempty => ?_⟩
    · simp only [hfurther, List.cons_append]
    · simpa using List.Nodup.concat hnew.2 h.nodup
    · rcases List.mem_append.1 hempty with hmem | hlast
      · exact h.empty hmem
      · exact absurd (List.mem_singleton.1 hlast).symm hnew.1

lemma isTidy_ofPackages (framework : String) (packages : List String) :
    (ofPackages framework packages).IsTidy := by
  have hfold : ∀ (packages : List String) (filter : OwnershipFilter), filter.IsTidy →
      (packages.foldl OwnershipFilter.exclude filter).IsTidy := by
    intro packages
    induction packages with
    | nil => exact fun _ h => h
    | cons package packages ih =>
      exact fun filter h => ih (filter.exclude package) (h.exclude package)
  exact hfold packages (ofFramework framework) (isTidy_ofFramework framework)

/-! ## Allowed names -/

/-- A filter allows the names that lie in none of the excluded packages. -/
lemma allows_iff {filter : OwnershipFilter} {name : String} :
    filter.allows name = true ↔ ∀ package ∈ filter.excluded, inPackage package name = false := by
  simp [allows]

/-- A filter that excludes no more packages than another allows no fewer names. -/
lemma allows_of_subset {filter other : OwnershipFilter} (h : filter.excluded ⊆ other.excluded)
    {name : String} (hname : other.allows name = true) : filter.allows name = true :=
  allows_iff.2 fun package hpackage => allows_iff.1 hname package (h hpackage)

/-- A filter rejects a name exactly if the names of the framework's package, or of another excluded
package that is not the empty text, are the first of its names and are not all of them. Hence it
does not matter in which order and how often packages are excluded, and excluding more of them never
allows another name. The excluded packages start with that of the framework, hold none twice, and
hold the empty text only if it is the framework's. -/
theorem allows_eq_false_iff_names (framework : String) (packages : List String) :
    (∀ name, (ofPackages framework packages).allows name = false ↔
      ∃ package, (package = framework ∨ package ∈ packages ∧ package ≠ "") ∧
        names package <+: names name ∧ names package ≠ names name) ∧
    (∀ others, (∀ package, package ∈ others ↔ package ∈ packages) →
      (ofPackages framework others).allows = (ofPackages framework packages).allows) ∧
    (∀ more name, (ofPackages framework (packages ++ more)).allows name = true →
      (ofPackages framework packages).allows name = true) ∧
    (ofPackages framework packages).frameworkPackage = framework ∧
    (ofPackages framework packages).IsTidy := by
  refine ⟨fun name => ?_, fun others hothers => funext fun name => ?_, fun more name hname => ?_,
    frameworkPackage_ofPackages framework packages, isTidy_ofPackages framework packages⟩
  · simp only [allows, Bool.not_eq_false', List.any_eq_true, mem_excluded_ofPackages_iff,
      inPackage_iff_names]
  · rw [Bool.eq_iff_iff, allows_iff, allows_iff]
    simp only [mem_excluded_ofPackages_iff, hothers]
  · refine allows_of_subset (fun package hpackage => ?_) hname
    rw [mem_excluded_ofPackages_iff] at hpackage ⊢
    exact hpackage.imp id fun ⟨hmem, hne⟩ => ⟨List.mem_append_left more hmem, hne⟩

/-- Where the framework's package is the empty text, names that start with a dot are rejected, and
of the others those inside the one package that is excluded, however often that happens. A class
that is named like the package is allowed, and so is one in a package whose name starts alike. -/
theorem allows_eq_false_iff_names_vendor :
    (ofPackages "" ["org.vendor", "", "org.vendor"]).allows ".Main" = false ∧
    (ofPackages "" ["org.vendor", "", "org.vendor"]).allows "org.vendor" = true ∧
    (ofPackages "" ["org.vendor", "", "org.vendor"]).allows "org.vendors.Tool" = true ∧
    (ofPackages "" ["", "org.vendor"]).allows "org.vendor." = false ∧
    (ofPackages "" ["org.vendor", "", "org.vendor"]).IsTidy := by
  obtain ⟨hrejected, hsame, hfewer, -, htidy⟩ :=
    allows_eq_false_iff_names "" ["org.vendor", "", "org.vendor"]
  refine ⟨?_, ?_, hfewer ["org.other"] _ (by decide), ?_, htidy⟩
  · exact (hrejected ".Main").2 ⟨"", Or.inl rfl, by decide, by decide⟩
  · rw [← hsame ["", "org.vendor"] (by simp)]
    decide
  · rw [hsame ["", "org.vendor"] (by simp)]
    exact (hrejected "org.vendor.").2 ⟨"org.vendor", Or.inr (by simp), by decide, by decide⟩

end OwnershipFilter

end EntryPoint
