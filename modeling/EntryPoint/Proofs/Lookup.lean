import EntryPoint.ByteSource.ClassPath
import EntryPoint.Proofs.Scan

/-!
# Looking the found classes up

A directory keeps each class that is found below it at the path where it was found, and a class path
asks its output directory first. So whatever else lies on the class path, the bytes of a class that
is found below the output directory are those of its own class file.
-/

namespace EntryPoint

/-- A path that is added to a class path, and the file system as it is then. -/
structure Addition where
  path : Path
  system : FileSystem

/-- What the path is as an element of the class path. -/
def Addition.element? (addition : Addition) : Option ClassPathElement :=
  ClassPathElement.ofPath? addition.system addition.path

/-- The class path of an output directory and further paths, each of them added in a state of its
own. -/
def ClassPath.ofAdditions (output : Path) (additions : List Addition) : ClassPath :=
  additions.foldl (fun classPath addition => add addition.system classPath addition.path)
    (ofOutput output)

/-- All paths may be added in one state. -/
lemma ClassPath.ofPaths_eq_ofAdditions (added : FileSystem) (output : Path) (paths : List Path) :
    ofPaths added output paths = ofAdditions output (paths.map (⟨·, added⟩)) := by
  rw [ofPaths, ofAdditions, List.foldl_map]

/-- The elements of a class path are its output directory and those of the paths that were
directories or archives when they were added. -/
lemma ClassPath.elements_ofAdditions (output : Path) (additions : List Addition) :
    (ofAdditions output additions).elements
      = .directory output :: additions.filterMap Addition.element? := by
  have hfold : ∀ classPath : ClassPath,
      (additions.foldl (fun classPath addition => add addition.system classPath addition.path)
        classPath).elements
      = classPath.elements ++ additions.filterMap Addition.element? := by
    induction additions with
    | nil => simp
    | cons addition additions ih =>
      intro classPath
      rw [List.foldl_cons, ih, add]
      cases helement : ClassPathElement.ofPath? addition.system addition.path with
      | none => simp [Addition.element?, helement]
      | some element => simp [Addition.element?, helement]
  exact hfold (ofOutput output)

/-- The elements of a class path are its output directory and those of the paths that are
directories or archives. -/
lemma ClassPath.elements_ofPaths (added : FileSystem) (output : Path) (paths : List Path) :
    (ClassPath.ofPaths added output paths).elements
      = .directory output :: paths.filterMap (ClassPathElement.ofPath? added) := by
  rw [ofPaths_eq_ofAdditions, elements_ofAdditions, List.filterMap_map]
  rfl

/-- A directory has a class if the path of the class leads to a file. -/
theorem findInDirectory_eq_status (fs : FileSystem) (root : Path) (className : String) :
    findInDirectory fs root className
      = .ok (match fs.status (classFilePath root className) with
        | .ok (.file contents) => some ⟨contents, some (classFilePath root className)⟩
        | _ => none) := by
  rw [findInDirectory, FileSystem.isFile, FileSystem.read]
  generalize classFilePath root className = path
  generalize fs.status path = status
  rcases status with fault | _ | contents | target
  all_goals rfl

lemma ByteSource.find_ofDirectory (fs : FileSystem) (path : Path) :
    (ofDirectory fs path).find = findInDirectory fs path := by
  rw [ofDirectory]

lemma ByteSource.find_ofArchive (fs : FileSystem) (path : Path) :
    (ofArchive fs path).find = findInArchive fs path := by
  rw [ofArchive]

/-- The first source that does not pass answers. -/
lemma ByteSource.find_firstOf_cons (source : ByteSource) (sources : List ByteSource)
    (className : String) :
    (firstOf (source :: sources)).find className
      = match source.find className with
        | .ok none => (firstOf sources).find className
        | answer => answer :=
  rfl

/-- Sources that answer a name alike answer it alike in order. -/
lemma ByteSource.find_firstOf_congr {α : Type} {xs : List α} {f g : α → ByteSource}
    {className : String} (h : ∀ x ∈ xs, (f x).find className = (g x).find className) :
    (firstOf (xs.map f)).find className = (firstOf (xs.map g)).find className := by
  induction xs with
  | nil => rfl
  | cons x xs ih =>
    obtain ⟨hx, hxs⟩ := List.forall_mem_cons.1 h
    rw [List.map_cons, List.map_cons, find_firstOf_cons, find_firstOf_cons, hx, ih hxs]

/-- The source of what a path is as an element of a class path. -/
def ClassPathElement.sourceAt (fs : FileSystem) (path : Path) : ByteSource :=
  match ofPath? fs path with
  | some element => element.source fs
  | none => .firstOf []

section
variable {fs : FileSystem} {path : Path}

/-- A directory is a source of classes. -/
lemma ClassPathElement.sourceAt_directory (h : fs.isDirectory path = true) :
    sourceAt fs path = .ofDirectory fs path := by
  simp only [sourceAt, ofPath?, h, if_true, source]

/-- An archive is a source of classes. -/
lemma ClassPathElement.sourceAt_archive (hdirectory : fs.isDirectory path = false)
    (hfile : fs.isFile path = true)
    (hextension : path.extension?.any archiveExtensions.contains = true) :
    sourceAt fs path = .ofArchive fs path := by
  simp only [sourceAt, ofPath?, hdirectory, hfile, hextension, Bool.and_self, Bool.false_eq_true,
    if_true, if_false, source]

/-- Nothing else is one. -/
lemma ClassPathElement.sourceAt_other (hdirectory : fs.isDirectory path = false)
    (hother : path.extension?.any archiveExtensions.contains = true → fs.isFile path = false) :
    sourceAt fs path = .firstOf [] := by
  have hnot : (fs.isFile path && path.extension?.any archiveExtensions.contains) = false := by
    cases hextension : path.extension?.any archiveExtensions.contains with
    | true => rw [hother hextension, Bool.false_and]
    | false => rw [Bool.and_false]
  simp only [sourceAt, ofPath?, hdirectory, hnot, Bool.false_eq_true, if_false]

end

/-- What the elements of a class path answer is what the paths answer that they come from. -/
lemma ClassPathElement.find_firstOf_sourceAt (fs : FileSystem) (paths : List Path)
    (className : String) :
    (ByteSource.firstOf ((paths.filterMap (ofPath? fs)).map (·.source fs))).find className
      = (ByteSource.firstOf (paths.map (sourceAt fs))).find className := by
  induction paths with
  | nil => rfl
  | cons path paths ih =>
    rw [List.map_cons, ByteSource.find_firstOf_cons, ← ih, sourceAt]
    cases helement : ofPath? fs path with
    | none =>
      rw [List.filterMap_cons_none helement]
      rfl
    | some element =>
      rw [List.filterMap_cons_some helement, List.map_cons, ByteSource.find_firstOf_cons]

/-- A class path asks its output directory first, and then its elements. -/
lemma ClassPath.find_source_ofPaths (fs added : FileSystem) (output : Path) (paths : List Path)
    (className : String) :
    ((ClassPath.ofPaths added output paths).source fs).find className
      = match findInDirectory fs output className with
        | .ok none => (ByteSource.firstOf ((paths.filterMap (ClassPathElement.ofPath? added)).map
            (·.source fs))).find className
        | answer => answer := by
  rw [ClassPath.source, ClassPath.elements_ofPaths, List.map_cons, ByteSource.find_firstOf_cons,
    ClassPathElement.source, ByteSource.find_ofDirectory]

/-- What the output directory has is what the class path has. -/
lemma ClassPath.find_of_output {fs added : FileSystem} {output : Path} {className : String}
    {bytes : ClassBytes} (h : findInDirectory fs output className = .ok (some bytes))
    (paths : List Path) :
    ((ClassPath.ofPaths added output paths).source fs).find className = .ok (some bytes) := by
  rw [ClassPath.find_source_ofPaths, h]

namespace StoredClass

section
variable {fs : FileSystem} (hfs : fs.WellFormed) {location : Location} {stored : StoredClass}
  (h : stored.LiesBelow fs location)

include hfs h in
/-- The path of a class file leads to the bytes of the class. -/
lemma LiesBelow.status_path {root : Path} (hlocate : fs.locate root = .ok location) :
    fs.status (stored.path root) = .ok (.file stored.contents) :=
  hfs.status_child hlocate stored.relative_ne_nil h.2 (by simp)

variable (hbuild : IsPlainBuild fs location)

include hbuild h in
/-- A directory keeps a class at the path of its class file. -/
theorem LiesBelow.classFilePath_className (root : Path) :
    classFilePath root stored.className = stored.path root := by
  rw [classFilePath, className, ClassName.classPath_ofNames (h.dot_notMem hbuild),
    ← stored.spell_relative]
  rfl

include hfs hbuild h in
/-- The directory of a class file has the class, with the bytes and the path of the file. -/
theorem LiesBelow.findInDirectory_className {root : Path}
    (hlocate : fs.locate root = .ok location) :
    findInDirectory fs root stored.className
      = .ok (some ⟨stored.contents, some (stored.path root)⟩) := by
  rw [findInDirectory_eq_status, h.classFilePath_className hbuild, h.status_path hfs hlocate]

end

end StoredClass

end EntryPoint
