import EntryPoint.Proofs.ClassFilePath
import EntryPoint.Proofs.Lookup

/-!
# Which found class files are found again

The walk below a root finds class files, and each gives a name to a class. A look-up of that name in
the directory finds the file again if neither a package nor the class has a dot or a backslash in
its name; otherwise it finds another file or none. So where there are no such names, each candidate
stands for one class file, and its bytes are there.
-/

namespace EntryPoint

/-- Whether the path of a class file below a root holds no backslash, and no dot but that of the
ending. -/
def IsPlainlyNamed (root path : Path) : Prop :=
  ∃ stem, Path.relativeTo? root path = some (stem ++ ClassName.classSuffix) ∧
    '.' ∉ stem.toList ∧ '\\' ∉ stem.toList

/-- What a directory has comes from the path at which it is looked up. -/
lemma origin_of_findInDirectory {fs : FileSystem} {root : Path} {className : String}
    {bytes : ClassBytes} (h : findInDirectory fs root className = .ok (some bytes)) :
    bytes.origin = some (classFilePath root className) := by
  rw [findInDirectory_eq_status] at h
  split at h
  · cases h
    rfl
  · cases h

namespace StoredClass

section
variable {fs : FileSystem} (hfs : fs.WellFormed) {location : Location} {stored : StoredClass}
  (h : stored.LiesBelow fs location) (root : Path)

include hfs h

/-- The name of a class is looked up at the path where the class was found exactly if that path is
plainly named. -/
theorem LiesBelow.classFilePath_eq_path_iff :
    classFilePath root
        (ClassName.ofRelativePath (Path.spell stored.names ++ ClassName.classSuffix))
        = stored.path root ↔
      IsPlainlyNamed root (stored.path root) := by
  have htight := Path.isTight_spell stored.relative_ne_nil (h.isFileName hfs)
  rw [stored.spell_relative] at htight
  rw [path, Path.child, stored.spell_relative, classFilePath_eq_join_iff root htight.isAbsolute_eq,
    ← stored.spell_relative, IsPlainlyNamed]
  have hrelative := h.relativeTo?_path hfs root
  constructor
  · exact fun hplain => ⟨Path.spell stored.names, hrelative, hplain⟩
  · rintro ⟨stem, hstem, hplain⟩
    have hsame : Path.spell stored.names ++ ClassName.classSuffix
        = stem ++ ClassName.classSuffix :=
      Option.some.inj (hrelative.symm.trans hstem)
    rw [(String.append_left_inj _).1 hsame]
    exact hplain

variable {root}

/-- The directory has a class with the bytes and the path of the file where it was found, if and
only if that path is plainly named. -/
theorem LiesBelow.findInDirectory_iff (hlocate : fs.locate root = .ok location) :
    findInDirectory fs root
        (ClassName.ofRelativePath (Path.spell stored.names ++ ClassName.classSuffix))
        = .ok (some ⟨stored.contents, some (stored.path root)⟩) ↔
      IsPlainlyNamed root (stored.path root) := by
  rw [← h.classFilePath_eq_path_iff hfs root]
  constructor
  · intro hfind
    exact (Option.some.inj (origin_of_findInDirectory hfind)).symm
  · intro hpath
    rw [findInDirectory_eq_status, hpath, h.status_path hfs hlocate]

end

end StoredClass

section
variable {fs : FileSystem} (hfs : fs.WellFormed) {root : Path} {location : Location}
  (hlocate : fs.locate root = .ok location)
  (hlinks : ∀ relative target, fs.get? (location ++ relative) ≠ some (.link target))
  {paths : List Path} (hscan : scanClassFiles fs root = .ok paths)

include hfs hlocate hlinks hscan

/-- The paths that a scan finds are those of class files below the root. -/
lemma exists_stored_of_mem_scan {path : Path} (hpath : path ∈ paths) :
    ∃ stored : StoredClass, stored.LiesBelow fs location ∧ stored.path root = path := by
  simp only [scanClassFiles, hlocate] at hscan
  split at hscan
  · cases hscan
    unfold delivered at hpath
    split_ifs at hpath
    · simp [classFilesAmong] at hpath
    · exact (mem_map_child_iff hfs hlinks).1 hpath
  · cases hscan

/-- Below a directory without links, a look-up of the name of a class file that was found gives the
bytes of this file and its path, if and only if the file is plainly named. No two plainly named
files share a name; and if all are plainly named, then the names that are found are those of classes
whose bytes the directory has. -/
theorem findInDirectory_of_scan :
    (∀ path ∈ paths, ∃ name contents,
      ClassName.ofPath? root path = some name ∧ fs.read path = .ok contents ∧
        (findInDirectory fs root name = .ok (some ⟨contents, some path⟩) ↔
          IsPlainlyNamed root path)) ∧
    (∀ path ∈ paths, ∀ other ∈ paths, IsPlainlyNamed root path → IsPlainlyNamed root other →
      ClassName.ofPath? root path = ClassName.ofPath? root other → path = other) ∧
    ((∀ path ∈ paths, IsPlainlyNamed root path) →
      ∃ candidates, findClasses fs root (fun _ => true) = .ok candidates ∧
        ∀ name ∈ candidates.names, ∃ bytes,
          (ByteSource.ofDirectory fs root).read name = .ok bytes) := by
  have hfound : ∀ path ∈ paths, ∃ name contents,
      ClassName.ofPath? root path = some name ∧ fs.read path = .ok contents ∧
        (classFilePath root name = path ↔ IsPlainlyNamed root path) ∧
        (findInDirectory fs root name = .ok (some ⟨contents, some path⟩) ↔
          IsPlainlyNamed root path) := by
    intro path hpath
    obtain ⟨stored, hstored, rfl⟩ := exists_stored_of_mem_scan hfs hlocate hlinks hscan hpath
    refine ⟨ClassName.ofRelativePath (Path.spell stored.names ++ ClassName.classSuffix),
      stored.contents, ?_, ?_, hstored.classFilePath_eq_path_iff hfs root,
      hstored.findInDirectory_iff hfs hlocate⟩
    · rw [ClassName.ofPath?, hstored.relativeTo?_path hfs root, Option.map_some]
    · simp only [FileSystem.read, hstored.status_path hfs hlocate]
  refine ⟨fun path hpath => ?_, fun path hpath other hother hplain hplain' hsame => ?_, ?_⟩
  · obtain ⟨name, contents, hname, hread, -, hfind⟩ := hfound path hpath
    exact ⟨name, contents, hname, hread, hfind⟩
  · -- both are the path at which their common name is looked up
    obtain ⟨name, -, hname, -, hback, -⟩ := hfound path hpath
    obtain ⟨otherName, -, hotherName, -, hotherBack, -⟩ := hfound other hother
    rw [hname, hotherName] at hsame
    rw [← hback.2 hplain, ← hotherBack.2 hplain', Option.some.inj hsame]
  · intro hplain
    have hcandidates : findClasses fs root (fun _ => true)
        = .ok (.ofList ((paths.filterMap (ClassName.ofPath? root)).filter fun _ => true)) := by
      simp only [findClasses, hscan]
    refine ⟨_, hcandidates, fun name hname => ?_⟩
    rw [NameSet.mem_ofList, List.mem_filter, List.mem_filterMap] at hname
    obtain ⟨⟨path, hpath, hname⟩, -⟩ := hname
    obtain ⟨name', contents, hname', -, -, hfind⟩ := hfound path hpath
    rw [hname] at hname'
    cases hname'
    refine ⟨⟨contents, some path⟩, ?_⟩
    simp only [ByteSource.read, ByteSource.ofDirectory, hfind.2 (hplain path hpath)]

end

/-- A build of three class files, two of which have a dot in their name. -/
def dottedBuild : FileSystem :=
  ⟨[(["out"], .directory), (["out", "a"], .directory), (["out", "a", "b.class"], .file [1]),
    (["out", "a.b.class"], .file [2]), (["out", "c.d.class"], .file [3])], []⟩

lemma not_link_dottedBuild (relative : Location) (target : String) :
    dottedBuild.get? (["out"] ++ relative) ≠ some (.link target) := by
  intro h
  have hmem := FileSystem.mem_entries_of_get? (by simp) h
  simp [dottedBuild] at hmem

lemma scanClassFiles_dottedBuild :
    scanClassFiles dottedBuild ⟨"out"⟩
      = .ok [⟨"out/a/b.class"⟩, ⟨"out/a.b.class"⟩, ⟨"out/c.d.class"⟩] := by
  have hlocate : dottedBuild.locate ⟨"out"⟩ = .ok ["out"] := by
    decide +kernel
  have hlocation : dottedBuild.get? ["out"] = some .directory := by
    decide
  have hdelivered : delivered dottedBuild ⟨"out"⟩ ["out"] = dottedBuild.below ["out"] := by
    decide +kernel
  have hsorted : classFilesAmong (dottedBuild.below ["out"])
      = [["a", "b.class"], ["a.b.class"], ["c.d.class"]] := by
    rw [classFilesAmong, List.mergeSort_of_pairwise (by decide +kernel)]
    decide +kernel
  simp only [scanClassFiles, hlocate, hlocation, hdelivered, hsorted]
  decide +kernel

lemma ofPath?_dottedBuild : ClassName.ofPath? ⟨"out"⟩ ⟨"out/c.d.class"⟩ = some "c.d" := by
  decide +kernel

/-- In this build, the look-up of `a.b` gives the file below `a`, and that of `c.d` does not give
the file of that name. -/
theorem findInDirectory_of_scan_dottedBuild :
    findInDirectory dottedBuild ⟨"out"⟩ "a.b" = .ok (some ⟨[1], some ⟨"out/a/b.class"⟩⟩) ∧
      findInDirectory dottedBuild ⟨"out"⟩ "c.d" ≠ .ok (some ⟨[3], some ⟨"out/c.d.class"⟩⟩) := by
  have hfs : dottedBuild.WellFormed := by
    decide +kernel
  have hlocate : dottedBuild.locate ⟨"out"⟩ = .ok ["out"] := by
    decide +kernel
  obtain ⟨hfind, -, -⟩ := findInDirectory_of_scan hfs hlocate not_link_dottedBuild
    scanClassFiles_dottedBuild
  constructor
  · obtain ⟨name, contents, hname, hread, hiff⟩ := hfind ⟨"out/a/b.class"⟩ (by simp)
    have hname' : ClassName.ofPath? ⟨"out"⟩ ⟨"out/a/b.class"⟩ = some "a.b" := by
      decide +kernel
    have hread' : dottedBuild.read ⟨"out/a/b.class"⟩ = .ok [1] := by
      decide +kernel
    rw [hname'] at hname
    rw [hread'] at hread
    cases hname
    cases hread
    exact hiff.2 ⟨"a/b", by decide +kernel, by decide, by decide⟩
  · obtain ⟨name, contents, hname, hread, hiff⟩ := hfind ⟨"out/c.d.class"⟩ (by simp)
    have hread' : dottedBuild.read ⟨"out/c.d.class"⟩ = .ok [3] := by
      decide +kernel
    rw [ofPath?_dottedBuild] at hname
    rw [hread'] at hread
    cases hname
    cases hread
    intro h
    obtain ⟨stem, hstem, hdot, -⟩ := hiff.1 h
    have hrelative : Path.relativeTo? ⟨"out"⟩ ⟨"out/c.d.class"⟩
        = some ("c.d" ++ ClassName.classSuffix) := by
      decide +kernel
    rw [hrelative, Option.some.injEq, String.append_left_inj] at hstem
    subst hstem
    exact hdot (by decide)

/-- Two class files of this build share a name, under which the bytes of only one of them are found,
and the bytes of a third class that was found are missing. -/
theorem dottedBuild_misses_classes :
    dottedBuild.WellFormed ∧ dottedBuild.locate ⟨"out"⟩ = .ok ["out"] ∧
      (∀ relative target, dottedBuild.get? (["out"] ++ relative) ≠ some (.link target)) ∧
      ∃ paths, scanClassFiles dottedBuild ⟨"out"⟩ = .ok paths ∧
        (¬∀ path ∈ paths, ∃ name contents,
          ClassName.ofPath? ⟨"out"⟩ path = some name ∧ dottedBuild.read path = .ok contents ∧
            findInDirectory dottedBuild ⟨"out"⟩ name = .ok (some ⟨contents, some path⟩)) ∧
        (∃ path ∈ paths, ∃ other ∈ paths, path ≠ other ∧
          ClassName.ofPath? ⟨"out"⟩ path = ClassName.ofPath? ⟨"out"⟩ other) ∧
        ∃ path ∈ paths, ∃ name, ClassName.ofPath? ⟨"out"⟩ path = some name ∧
          (ByteSource.ofDirectory dottedBuild ⟨"out"⟩).read name
            = .error (.classNotFound name) := by
  refine ⟨by decide +kernel, by decide +kernel, not_link_dottedBuild, _,
    scanClassFiles_dottedBuild, ?_, ?_, ?_⟩
  · intro hall
    obtain ⟨name, contents, hname, -, hfind⟩ := hall ⟨"out/c.d.class"⟩ (by simp)
    have hnone : findInDirectory dottedBuild ⟨"out"⟩ "c.d" = .ok none := by
      decide +kernel
    rw [ofPath?_dottedBuild] at hname
    cases hname
    rw [hnone] at hfind
    cases hfind
  · exact ⟨⟨"out/a/b.class"⟩, by simp, ⟨"out/a.b.class"⟩, by simp, by decide, by decide +kernel⟩
  · exact ⟨⟨"out/c.d.class"⟩, by simp, "c.d", ofPath?_dottedBuild, by decide +kernel⟩

end EntryPoint
