import EntryPoint.Proofs.Resolution
import EntryPoint.Proofs.ScanOrder

/-!
# Roots that are spelt differently

A path below a root says beyond that root what leads there from it, however the root is spelt: with
slashes repeated or at its end, with segments `.` or `..`, from the current directory or from the
root of the file system. So every class file that is found gives a name to a class, and these names
depend on the directory to which the root leads, not on its spelling. There is one exception: the
spelling that stands for standard input, below which nothing is found.
-/

namespace EntryPoint

open ClassName (ofRelativePath)

/-- The class of a class file that is found is read off the names that lead there from the root. -/
lemma IsClassFileAt.ofPath?_child {fs : FileSystem} (hfs : fs.WellFormed)
    {location relative : Location} (h : IsClassFileAt fs location relative) (root : Path) :
    ClassName.ofPath? root (root.child relative) = some (ofRelativePath (Path.spell relative)) := by
  obtain ⟨hne, hnames⟩ := h.isFileName hfs
  rw [ClassName.ofPath?, Path.relativeTo?_child root hne hnames, Option.map_some]

/-- The names of the allowed classes below a location, read off the names that lead to their
files. -/
def classNamesBelow (fs : FileSystem) (location : Location) (allows : String → Bool) : NameSet :=
  .ofList (((classFilesAmong (fs.below location)).map fun relative =>
    ofRelativePath (Path.spell relative)).filter allows)

section
variable {fs : FileSystem} (hfs : fs.WellFormed) {location : Location} {allows : String → Bool}

include hfs

lemma mem_classNamesBelow_iff {name : String} :
    name ∈ (classNamesBelow fs location allows).names ↔ allows name = true ∧
      ∃ relative, IsClassFileAt fs location relative ∧
        ofRelativePath (Path.spell relative) = name := by
  rw [classNamesBelow, NameSet.mem_ofList, List.mem_filter, and_comm, List.mem_map]
  simp only [(hfs.delivers_below location).mem_classFilesAmong_iff]

/-- The same names are read off the paths of the files, whichever root they start with. -/
theorem allowedBelow_eq (root : Path) :
    allowedBelow fs root location allows = classNamesBelow fs location allows := by
  have hnames : ∀ relative ∈ classFilesAmong (fs.below location),
      (ClassName.ofPath? root ∘ root.child) relative
        = (some ∘ fun relative => ofRelativePath (Path.spell relative)) relative := by
    intro relative hrelative
    have hfile := (hfs.delivers_below location).mem_classFilesAmong_iff.1 hrelative
    exact hfile.ofPath?_child hfs root
  rw [allowedBelow, List.filterMap_map, List.filterMap_congr hnames, List.filterMap_eq_map,
    classNamesBelow]

end

/-- No class file that is found is lost. -/
lemma exists_ofPath?_of_mem_scan {fs : FileSystem} (hfs : fs.WellFormed) {root : Path}
    {location : Location} (hlocate : fs.locate root = .ok location)
    (hlocation : fs.get? location = some .directory) :
    ∃ paths, scanClassFiles fs root = .ok paths ∧
      ∀ path ∈ paths, (ClassName.ofPath? root path).isSome = true := by
  refine ⟨(classFilesAmong (delivered fs root location)).map root.child, ?_, fun path hpath => ?_⟩
  · simp only [scanClassFiles, hlocate, hlocation]
  obtain ⟨relative, hrelative, rfl⟩ := List.mem_map.1 hpath
  have hfile : IsClassFileAt fs location relative := by
    unfold delivered at hrelative
    split_ifs at hrelative
    · simp [classFilesAmong] at hrelative
    · exact (hfs.delivers_below location).mem_classFilesAmong_iff.1 hrelative
  rw [hfile.ofPath?_child hfs root]
  rfl

/-- What is found below a directory does not depend on how its path is spelt. There is one set of
classes, those that are allowed among the classes of all class files below the directory, each read
off the names that lead there. For every root that leads to the directory, each path that a scan
finds gives a name to a class, and the classes that are found are this set, exactly if the root is
not spelt as standard input or the set is empty; below standard input, no class is ever found. -/
theorem findClasses_of_locate {fs : FileSystem} (hfs : fs.WellFormed) {location : Location}
    (hlocation : fs.get? location = some .directory) (allows : String → Bool) :
    ∃ classes : NameSet,
      (∀ name, name ∈ classes.names ↔ allows name = true ∧
        ∃ relative, IsClassFileAt fs location relative ∧
          ofRelativePath (Path.spell relative) = name) ∧
      ∀ root, fs.locate root = .ok location →
        (∃ paths, scanClassFiles fs root = .ok paths ∧
          ∀ path ∈ paths, (ClassName.ofPath? root path).isSome = true) ∧
        (findClasses fs root allows = .ok classes ↔
          root.isStandardInput = false ∨ classes = .empty) ∧
        (root.isStandardInput = true → findClasses fs root allows = .ok .empty) := by
  refine ⟨classNamesBelow fs location allows, fun name => mem_classNamesBelow_iff hfs,
    fun root hlocate => ⟨exists_ofPath?_of_mem_scan hfs hlocate hlocation, ?_,
      fun hroot => findClasses_standardInput hlocate hlocation hroot allows⟩⟩
  cases hroot : root.isStandardInput with
  | false =>
    rw [findClasses_eq_allowedBelow hlocate hlocation hroot, allowedBelow_eq hfs]
    simp
  | true =>
    rw [findClasses_standardInput hlocate hlocation hroot, Except.ok.injEq]
    simp [eq_comm]

/-- The class below the directory of the small build is `A`. -/
lemma isClassFileAt_smallBuild_iff {directory : String} {contents : Bytes} {relative : Location} :
    IsClassFileAt (smallBuild directory contents) [directory] relative ↔
      relative = ["A.class"] := by
  constructor
  · rintro ⟨packages, stem, entry, hrelative, -, hget, hentry⟩
    rcases get?_smallBuild hget with ⟨-, rfl⟩ | ⟨hfile, -⟩
    · exact absurd rfl hentry
    · exact hfile
  · rintro rfl
    have hget : (smallBuild directory contents).get? ([directory] ++ ["A.class"])
        = some (.file contents) := by
      simp [smallBuild, FileSystem.get?, List.lookup_cons]
    exact ⟨[], "A", .file contents, rfl, by decide, hget, by simp⟩

/-- The directory of the small build has the same class, however its path is spelt. -/
theorem findClasses_smallBuild :
    findClasses (smallBuild "out" []) ⟨"out//."⟩ (fun _ => true) = .ok (.ofList ["A"]) ∧
      findClasses (smallBuild "out" []) ⟨"/out/../out"⟩ (fun _ => true) = .ok (.ofList ["A"]) := by
  have hfs : (smallBuild "out" []).WellFormed := by
    decide +kernel
  have hlocation : (smallBuild "out" []).get? ["out"] = some .directory := by
    decide +kernel
  obtain ⟨classes, hmem, hspelt⟩ := findClasses_of_locate hfs hlocation (fun _ => true)
  have honly : classes = .ofList ["A"] := by
    refine NameSet.eq_of_mem_iff fun name => ?_
    have hname : ofRelativePath (Path.spell ["A.class"]) = "A" := by
      decide +kernel
    rw [hmem, NameSet.mem_ofList]
    simp only [isClassFileAt_smallBuild_iff, exists_eq_left, hname, true_and, List.mem_singleton]
    exact eq_comm
  subst honly
  obtain ⟨-, hfirst, -⟩ := hspelt ⟨"out//."⟩ (by decide +kernel)
  obtain ⟨-, hsecond, -⟩ := hspelt ⟨"/out/../out"⟩ (by decide +kernel)
  exact ⟨hfirst.2 (Or.inl (by decide +kernel)), hsecond.2 (Or.inl (by decide +kernel))⟩

/-- The directory called `-` has no class if its path is spelt so, but it has the class `A` if its
path starts with the current directory. -/
theorem findClasses_standardInput_loses_class :
    (smallBuild "-" []).WellFormed ∧ (smallBuild "-" []).get? ["-"] = some .directory ∧
      (smallBuild "-" []).locate ⟨"-"⟩ = .ok ["-"] ∧
      (smallBuild "-" []).locate (Path.join ⟨"."⟩ ⟨"-"⟩) = .ok ["-"] ∧
      (∀ relative, IsClassFileAt (smallBuild "-" []) ["-"] relative ↔ relative = ["A.class"]) ∧
      findClasses (smallBuild "-" []) ⟨"-"⟩ (fun _ => true) = .ok .empty ∧
      ∃ classes,
        findClasses (smallBuild "-" []) (Path.join ⟨"."⟩ ⟨"-"⟩) (fun _ => true) = .ok classes ∧
          "A" ∈ classes.names := by
  have hfs : (smallBuild "-" []).WellFormed := by
    decide +kernel
  have hlocation : (smallBuild "-" []).get? ["-"] = some .directory := by
    decide +kernel
  have hlocate : (smallBuild "-" []).locate ⟨"-"⟩ = .ok ["-"] := by
    decide +kernel
  have hlocate' : (smallBuild "-" []).locate (Path.join ⟨"."⟩ ⟨"-"⟩) = .ok ["-"] := by
    decide +kernel
  refine ⟨hfs, hlocation, hlocate, hlocate', fun relative => isClassFileAt_smallBuild_iff,
    findClasses_standardInput hlocate hlocation (by decide +kernel) _, _,
    findClasses_eq_allowedBelow hlocate' hlocation (by decide +kernel) _, ?_⟩
  rw [allowedBelow_eq hfs, mem_classNamesBelow_iff hfs]
  exact ⟨rfl, ["A.class"], isClassFileAt_smallBuild_iff.2 rfl, by decide +kernel⟩

end EntryPoint
