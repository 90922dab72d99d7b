import EntryPoint.Proofs.ClassName
import EntryPoint.Proofs.FileSystem.Walking

/-!
# The classes below a root

The walk finds the class files of a build, and the name of each class is read off its path. In a
build without links, where no package and no class has a separator in its name, nothing is lost on
the way: the names that are found are those of the class files, each class file has a name of its
own, and its path is that of its name.
-/

namespace EntryPoint

open FileSystem (IsFileName)

/-! ## What a walk delivers -/

/-- Everything below a location is delivered, with the names that lead there from it. -/
lemma FileSystem.WellFormed.mem_below_iff {fs : FileSystem} (hfs : fs.WellFormed)
    {location relative : Location} {entry : Entry} :
    (relative, entry) ∈ fs.below location ↔
      relative ≠ [] ∧ fs.get? (location ++ relative) = some entry := by
  rw [FileSystem.below, List.mem_filterMap]
  constructor
  · rintro ⟨⟨found, lying⟩, hmem, h⟩
    simp only at h
    split_ifs at h with hprefix
    obtain ⟨⟨rest, rfl⟩, hne⟩ : location <+: found ∧ found ≠ location := by
      simpa using hprefix
    obtain ⟨rfl, rfl⟩ : rest = relative ∧ lying = entry := by
      simpa using h
    exact ⟨by simpa using hne, hfs.get?_of_mem hmem⟩
  · rintro ⟨hne, h⟩
    refine ⟨(location ++ relative, entry), FileSystem.mem_entries_of_get? (by simp [hne]) h, ?_⟩
    simp [hne]

/-- A class file is no directory, and its name has the ending of class files and a stem. -/
lemma isClassFile_iff {relative : Location} {entry : Entry} :
    isClassFile (relative, entry) = true ↔
      entry ≠ .directory ∧ ∃ packages stem, stem ≠ "" ∧
        relative = packages ++ [stem ++ ClassName.classSuffix] := by
  have hdirectory : (!entry.isDirectory) = true ↔ entry ≠ .directory := by
    cases entry <;> simp [Entry.isDirectory]
  rw [isClassFile, Bool.and_eq_true, hdirectory, decide_eq_true_eq, Option.bind_eq_some_iff]
  refine and_congr_right fun _ => ?_
  constructor
  · rintro ⟨last, hlast, hextension⟩
    obtain ⟨stem, hstem, rfl⟩ := (Path.extensionOf?_eq_class_iff last).1 hextension
    obtain ⟨packages, hrelative⟩ := List.getLast?_eq_some_iff.1 hlast
    exact ⟨packages, stem, hstem, hrelative⟩
  · rintro ⟨packages, stem, hstem, hrelative⟩
    refine ⟨stem ++ ClassName.classSuffix, ?_, ?_⟩
    · simp [show relative = _ from hrelative]
    · exact (Path.extensionOf?_eq_class_iff _).2 ⟨stem, hstem, rfl⟩

/-- The class files among delivered entries are those of them that are class files. -/
lemma mem_classFilesAmong_iff {found : List (Location × Entry)} {relative : Location} :
    relative ∈ classFilesAmong found ↔
      ∃ entry, (relative, entry) ∈ found ∧ isClassFile (relative, entry) = true := by
  simp [classFilesAmong, List.mem_mergeSort]

/-! ## Classes that are stored below a root -/

/-- A class file: the packages that lead to it, the stem of its name, and its bytes. -/
structure StoredClass where
  packages : List String
  stem : String
  contents : Bytes
  deriving DecidableEq

namespace StoredClass

/-- The names of the packages and of the class itself. -/
def names (stored : StoredClass) : List String :=
  stored.packages ++ [stored.stem]

/-- The dotted name of the class. -/
def className (stored : StoredClass) : String :=
  ClassName.ofNames stored.names

/-- The names that lead to the class file from the root. -/
def relative (stored : StoredClass) : Location :=
  stored.packages ++ [stored.stem ++ ClassName.classSuffix]

/-- The path of the class file under a root. -/
def path (root : Path) (stored : StoredClass) : Path :=
  root.child stored.relative

/-- Whether the class file lies below a location. -/
def LiesBelow (stored : StoredClass) (fs : FileSystem) (location : Location) : Prop :=
  stored.stem ≠ "" ∧ fs.get? (location ++ stored.relative) = some (.file stored.contents)

end StoredClass

/-- Whether nothing below a location is a link, and no package or class there has a dot or a
backslash in its name. -/
structure IsPlainBuild (fs : FileSystem) (location : Location) : Prop where
  links : ∀ relative target, fs.get? (location ++ relative) ≠ some (.link target)
  names : ∀ stored : StoredClass, stored.LiesBelow fs location →
    ∀ name ∈ stored.names, '.' ∉ name.toList ∧ '\\' ∉ name.toList

namespace StoredClass

/-- The path of a class file is spelt by its names and the ending. -/
lemma spell_relative (stored : StoredClass) :
    Path.spell stored.relative = Path.spell stored.names ++ ClassName.classSuffix :=
  Path.spell_concat_append stored.packages stored.stem ClassName.classSuffix

lemma relative_ne_nil (stored : StoredClass) : stored.relative ≠ [] := by
  simp [relative]

section
variable {fs : FileSystem} (hfs : fs.WellFormed) {location : Location}

include hfs in
/-- File names lead to a class file. -/
lemma LiesBelow.isFileName {stored : StoredClass} (h : stored.LiesBelow fs location) :
    ∀ name ∈ stored.relative, IsFileName name := by
  intro name hname
  exact hfs.isFileName_of_mem h.2 name (List.mem_append_right _ hname)

include hfs in
/-- Beyond the root, the path of a class file consists of the names that lead there. -/
lemma LiesBelow.relativeTo?_path {stored : StoredClass} (h : stored.LiesBelow fs location)
    (root : Path) :
    Path.relativeTo? root (stored.path root)
      = some (Path.spell stored.names ++ ClassName.classSuffix) := by
  rw [path, Path.relativeTo?_child root stored.relative_ne_nil (h.isFileName hfs),
    stored.spell_relative]

variable (hbuild : IsPlainBuild fs location)

include hfs hbuild in
/-- In a plain build, plain names lead to a class. -/
lemma LiesBelow.isPlain {stored : StoredClass} (h : stored.LiesBelow fs location) :
    ∀ name ∈ stored.names, ClassName.IsPlain name := by
  intro name hname
  obtain ⟨hdot, hbackslash⟩ := hbuild.names stored h name hname
  have hfile := h.isFileName hfs
  rcases List.mem_append.1 hname with hpackage | hstem
  · have hname := hfile name (List.mem_append_left _ hpackage)
    exact ⟨hname.1, hdot, hname.2.2.2, hbackslash⟩
  · obtain rfl := List.mem_singleton.1 hstem
    have hlast := hfile (stored.stem ++ ClassName.classSuffix) (by simp [relative])
    refine ⟨h.1, hdot, fun hslash => hlast.2.2.2 ?_, hbackslash⟩
    rw [String.toList_append]
    exact List.mem_append_left _ hslash

include hbuild in
/-- The names of a class hold no dot. -/
lemma LiesBelow.dot_notMem {stored : StoredClass} (h : stored.LiesBelow fs location) :
    ∀ name ∈ stored.names, '.' ∉ name.toList :=
  fun name hname => (hbuild.names stored h name hname).1

include hfs hbuild in
/-- The class of a class file is read off its path under the root. -/
theorem LiesBelow.ofPath?_path {stored : StoredClass} (h : stored.LiesBelow fs location)
    (root : Path) : ClassName.ofPath? root (stored.path root) = some stored.className := by
  rw [ClassName.ofPath?, h.relativeTo?_path hfs, Option.map_some,
    ClassName.ofRelativePath_spell (h.isPlain hfs hbuild)]
  rfl

include hbuild in
/-- No two class files belong to one class. -/
theorem LiesBelow.eq_of_className_eq {stored other : StoredClass}
    (h : stored.LiesBelow fs location) (hother : other.LiesBelow fs location)
    (hname : stored.className = other.className) : stored = other := by
  have hnames : stored.names = other.names :=
    ClassName.ofNames_injective (h.dot_notMem hbuild) (hother.dot_notMem hbuild)
      (by simp [names]) (by simp [names]) hname
  obtain ⟨packages, stem, contents⟩ := stored
  obtain ⟨otherPackages, otherStem, otherContents⟩ := other
  obtain ⟨rfl, rfl⟩ : packages = otherPackages ∧ stem = otherStem := by
    simpa [names] using hnames
  obtain rfl : contents = otherContents := by
    have hcontents := h.2.symm.trans hother.2
    simpa using hcontents
  rfl

end

end StoredClass

/-! ## The names that are found -/

/-- Where nothing below a location is a link, the paths that are found are those of class files. -/
lemma mem_map_child_iff {fs : FileSystem} (hfs : fs.WellFormed) {location : Location}
    (hlinks : ∀ relative target, fs.get? (location ++ relative) ≠ some (.link target))
    {root path : Path} :
    path ∈ (classFilesAmong (fs.below location)).map root.child ↔
      ∃ stored : StoredClass, stored.LiesBelow fs location ∧ stored.path root = path := by
  rw [List.mem_map]
  constructor
  · rintro ⟨relative, hmem, rfl⟩
    obtain ⟨entry, hbelow, hclass⟩ := mem_classFilesAmong_iff.1 hmem
    obtain ⟨hdirectory, packages, stem, hstem, rfl⟩ := isClassFile_iff.1 hclass
    obtain ⟨-, hentry⟩ := hfs.mem_below_iff.1 hbelow
    cases entry with
    | directory => exact absurd rfl hdirectory
    | file contents => exact ⟨⟨packages, stem, contents⟩, ⟨hstem, hentry⟩, rfl⟩
    | link target => exact absurd hentry (hlinks _ target)
  · rintro ⟨stored, ⟨hstem, hentry⟩, rfl⟩
    refine ⟨stored.relative, mem_classFilesAmong_iff.2 ⟨.file stored.contents, ?_, ?_⟩, rfl⟩
    · exact hfs.mem_below_iff.2 ⟨stored.relative_ne_nil, hentry⟩
    · exact isClassFile_iff.2 ⟨by simp, stored.packages, stored.stem, hstem, rfl⟩

/-- The names of the allowed classes below a location, read off their paths under a root. -/
def allowedBelow (fs : FileSystem) (root : Path) (location : Location) (allows : String → Bool) :
    NameSet :=
  .ofList ((((classFilesAmong (fs.below location)).map root.child).filterMap
    (ClassName.ofPath? root)).filter allows)

/-- In a plain build, they are the names of the class files whose classes are allowed. -/
theorem mem_allowedBelow_iff {fs : FileSystem} (hfs : fs.WellFormed) {location : Location}
    (hbuild : IsPlainBuild fs location) (root : Path) (allows : String → Bool) (name : String) :
    name ∈ (allowedBelow fs root location allows).names ↔ allows name = true ∧
      ∃ stored : StoredClass, stored.LiesBelow fs location ∧ stored.className = name := by
  rw [allowedBelow, NameSet.mem_ofList, List.mem_filter, and_comm, List.mem_filterMap]
  refine and_congr_right fun _ => ?_
  constructor
  · rintro ⟨path, hpath, hname⟩
    obtain ⟨stored, hstored, rfl⟩ := (mem_map_child_iff hfs hbuild.links).1 hpath
    rw [hstored.ofPath?_path hfs hbuild] at hname
    exact ⟨stored, hstored, Option.some.inj hname⟩
  · rintro ⟨stored, hstored, rfl⟩
    exact ⟨stored.path root, (mem_map_child_iff hfs hbuild.links).2 ⟨stored, hstored, rfl⟩,
      hstored.ofPath?_path hfs hbuild root⟩

section
variable {fs : FileSystem} {root : Path} {location : Location}
  (hlocate : fs.locate root = .ok location) (hlocation : fs.get? location = some .directory)

include hlocate hlocation in
/-- The allowed classes below a directory are found, unless its path is that of standard input. -/
theorem findClasses_eq_allowedBelow (hroot : root.isStandardInput = false)
    (allows : String → Bool) :
    findClasses fs root allows = .ok (allowedBelow fs root location allows) := by
  have hscan : scanClassFiles fs root
      = .ok ((classFilesAmong (fs.below location)).map root.child) := by
    simp only [scanClassFiles, hlocate, hlocation, delivered, hroot, Bool.false_eq_true, if_false]
  rw [findClasses, hscan]
  rfl

include hlocate hlocation in
/-- Below standard input no class is found. -/
theorem findClasses_standardInput (hroot : root.isStandardInput = true)
    (allows : String → Bool) : findClasses fs root allows = .ok .empty := by
  have hscan : scanClassFiles fs root = .ok [] := by
    simp [scanClassFiles, hlocate, hlocation, delivered, hroot, classFilesAmong]
  rw [findClasses, hscan]
  rfl

end

end EntryPoint
