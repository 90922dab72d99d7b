import EntryPoint.Proofs.ClassFilePath
import EntryPoint.Proofs.Emission
import EntryPoint.Proofs.FileSystem.Linkless

/-!
# Emitting once more

In a file system without links, emission changes what lies at two locations: the manifest and the
directory that holds it. Nothing that a search looks at lies there. No class file does, since the
names of both end otherwise; and no element of the class path leads through the directory. Where an
element leads to the directory itself, and this was not there before, it has no classes but those
that the root has too (`Rewritten.findInDirectory_new`). So the search gives the same answer again,
and the manifest is replaced by the same one.
-/

namespace EntryPoint

open FileSystem (IsLinkFree AgreesAside origin)
open Manifest (Record Published Unobstructed directoryAt fileAt temporaryAt)

/-! ## Where a directory keeps a class -/

/-- The location at which a directory at a given location keeps a class. -/
def classLocation (location : Location) (className : String) : Location :=
  origin location ⟨ClassName.classPath className⟩
    ++ (⟨ClassName.classPath className⟩ : Path).names

/-- The last name of such a location has the ending of class files. -/
lemma exists_classLocation_eq (location : Location) (className : String) :
    ∃ front stem, classLocation location className = front ++ [stem ++ ClassName.classSuffix] := by
  obtain ⟨front, stem, hnames⟩ := ClassName.exists_names_classPath className
  refine ⟨origin location ⟨ClassName.classPath className⟩ ++ front, stem, ?_⟩
  rw [classLocation, hnames, List.append_assoc]

section
variable {fs : FileSystem} (hfs : fs.WellFormed) (hlinks : fs.IsLinkFree) {path : Path}
  {location : Location} (hpath : fs.locate path = .ok location)
  (hlocation : fs.get? location = some .directory)

include hlinks hpath hlocation in
/-- The path of a class leads where its name leads from the directory. -/
lemma locate_classFilePath_iff {className : String} {found : Location} :
    fs.locate (classFilePath path className) = .ok found ↔
      fs.Leads (origin location ⟨ClassName.classPath className⟩)
        (⟨ClassName.classPath className⟩ : Path).segments found := by
  have hplace : ∃ links, fs.place true (classFilePath path className)
      = fs.walk true links (origin location ⟨ClassName.classPath className⟩)
        (⟨ClassName.classPath className⟩ : Path).segments := by
    by_cases habsolute : (⟨ClassName.classPath className⟩ : Path).isAbsolute = true
    · have htext : ClassName.classPath className ≠ "" :=
        ClassName.append_classSuffix_ne _ (by decide)
      refine ⟨FileSystem.maxLinks, ?_⟩
      rw [classFilePath, Path.join, if_pos habsolute, FileSystem.place, if_neg htext, origin,
        origin, if_pos habsolute, if_pos habsolute]
    · rw [Bool.not_eq_true] at habsolute
      rw [classFilePath, origin, if_neg (by simp [habsolute])]
      exact FileSystem.place_join hpath hlocation (ClassName.isTight_classPath habsolute) true
  obtain ⟨links, hlinks'⟩ := hplace
  rw [FileSystem.locate_eq_ok_iff_place, hlinks', hlinks.walk_eq_ok_iff]

include hfs hlinks hpath hlocation in
/-- The path of a class leads to a file exactly if this lies at the location of the class. -/
lemma status_classFilePath_iff {className : String} {contents : Bytes} :
    fs.status (classFilePath path className) = .ok (.file contents) ↔
      fs.get? (classLocation location className) = some (.file contents) := by
  obtain ⟨front, stem, hsegments, -⟩ := ClassName.exists_segments_classPath className
  have hup : ".." ∉ (⟨ClassName.classPath className⟩ : Path).segments := by
    intro hmem
    refine ClassName.not_mem_names_classPath className ?_
    rw [Path.names_eq_filter]
    exact List.mem_filter.2 ⟨hmem, by decide⟩
  have hlocate := @locate_classFilePath_iff fs hlinks path location hpath hlocation className
  rw [FileSystem.status_eq_ok_iff, classLocation, Path.names_eq_filter]
  constructor
  · rintro ⟨found, hfound, hfile⟩
    rwa [(hlocate.1 hfound).eq_append hup] at hfile
  · intro hfile
    rw [hsegments] at hup hfile hlocate
    exact ⟨_, hlocate.2 (hfs.leads_of_file (ClassName.isBlank_append_classSuffix stem) hup hfile),
      hfile⟩

include hfs hlinks hpath hlocation in
/-- Without links, a directory has the classes whose files lie at their locations. -/
theorem findInDirectory_eq (className : String) :
    findInDirectory fs path className
      = .ok (match fs.get? (classLocation location className) with
        | some (.file contents) => some ⟨contents, some (classFilePath path className)⟩
        | _ => none) := by
  have hstatus : ∀ contents, fs.status (classFilePath path className) = .ok (.file contents) ↔
      fs.get? (classLocation location className) = some (.file contents) :=
    fun _ => status_classFilePath_iff hfs hlinks hpath hlocation
  rw [findInDirectory_eq_status]
  split
  · rename_i contents hfile
    simp only [(hstatus contents).1 hfile]
  · rename_i hnone
    split
    · rename_i contents hfile
      exact absurd ((hstatus contents).2 hfile) (hnone contents)
    · rfl

end

/-! ## What emission leaves as it was -/

/-- Whether a root leads to a directory at a location in a file system without links, with nothing
in the way of a manifest. -/
structure IsLinklessBuild (fs : FileSystem) (root : Path) (location : Location) : Prop where
  wellFormed : fs.WellFormed
  links : fs.IsLinkFree
  root : fs.locate root = .ok location
  directory : fs.get? location = some .directory
  free : Unobstructed fs location

/-- Whether one such build differs from another in the manifest and its directory alone, and has
this directory. -/
structure Rewritten (fs changed : FileSystem) (root : Path) (location : Location) : Prop where
  before : IsLinklessBuild fs root location
  after : IsLinklessBuild changed root location
  agrees : fs.AgreesAside (directoryAt location) (fileAt location) changed
  directory : changed.get? (directoryAt location) = some .directory

/-- Publishing a record gives such a build. -/
lemma rewritten_of_published {record : Record} {fs changed : FileSystem} {root : Path}
    {location : Location} (hbefore : IsLinklessBuild fs root location)
    (hchanged : changed.WellFormed) (hpublished : Published record location fs changed) :
    Rewritten fs changed root location := by
  have hagrees : fs.AgreesAside (directoryAt location) (fileAt location) changed :=
    ⟨fun other hdirectory hfile => hpublished.others other hfile hdirectory, hpublished.current⟩
  have hkeeps : fs.KeepsWays changed :=
    hagrees.keepsWays hbefore.links (fun _ => hpublished.directory)
      fun hfile => absurd hfile hbefore.free.2
  have hlinks : changed.IsLinkFree := by
    intro other target hother
    by_cases hdirectory : other = directoryAt location
    · rw [hdirectory, hpublished.directory] at hother
      cases hother
    by_cases hfile : other = fileAt location
    · rw [hfile, hpublished.file] at hother
      cases hother
    rw [hpublished.others other hfile hdirectory] at hother
    exact hbefore.links other target hother
  have hfree : Unobstructed changed location :=
    ⟨by simp [hpublished.directory], by simp [hpublished.file]⟩
  exact ⟨hbefore, ⟨hchanged, hlinks, hkeeps.locate hbefore.root hbefore.directory,
    hkeeps.directories _ hbefore.directory, hfree⟩, hagrees, hpublished.directory⟩

namespace Rewritten
variable {fs changed : FileSystem} {root : Path} {location : Location}
  (h : Rewritten fs changed root location)

include h

/-- Directories stay. -/
lemma keepsWays : fs.KeepsWays changed :=
  h.agrees.keepsWays h.before.links (fun _ => h.directory)
    fun hfile => absurd hfile h.before.free.2

/-- No directory is new but that of the manifest. -/
lemma keepsWays_symm (hdirectory : fs.get? (directoryAt location) = some .directory) :
    changed.KeepsWays fs :=
  h.agrees.symm.keepsWays h.after.links (fun _ => hdirectory)
    fun hfile => absurd hfile h.after.free.2

/-- What has the ending of class files stays. -/
lemma get?_concat_append (front : Location) (stem : String) :
    changed.get? (front ++ [stem ++ ClassName.classSuffix])
      = fs.get? (front ++ [stem ++ ClassName.classSuffix]) := by
  apply h.agrees.others
  · exact ClassName.concat_append_classSuffix_ne _ _ _ (by decide)
  · rw [Manifest.fileAt_eq]
    exact ClassName.concat_append_classSuffix_ne _ _ _ (by decide)

/-- The same classes lie in the same places. -/
lemma get?_classLocation (held : Location) (className : String) :
    changed.get? (classLocation held className) = fs.get? (classLocation held className) := by
  obtain ⟨front, stem, hlocation⟩ := exists_classLocation_eq held className
  rw [hlocation, h.get?_concat_append]

/-- A directory has the classes that it had. -/
lemma findInDirectory_eq {path : Path} {held : Location} (hpath : fs.locate path = .ok held)
    (hheld : fs.get? held = some .directory) (className : String) :
    findInDirectory changed path className = findInDirectory fs path className := by
  rw [EntryPoint.findInDirectory_eq h.before.wellFormed h.before.links hpath hheld,
    EntryPoint.findInDirectory_eq h.after.wellFormed h.after.links
      (h.keepsWays.locate hpath hheld) (h.keepsWays.directories held hheld),
    h.get?_classLocation]

/-- The same class files lie below the root. -/
lemma mem_classFilesAmong_iff {relative : Location} :
    relative ∈ classFilesAmong (changed.below location) ↔
      relative ∈ classFilesAmong (fs.below location) := by
  have hsame : ∀ entry, isClassFile (relative, entry) = true →
      changed.get? (location ++ relative) = fs.get? (location ++ relative) := by
    intro entry hclass
    obtain ⟨-, packages, stem, -, rfl⟩ := isClassFile_iff.1 hclass
    rw [← List.append_assoc, h.get?_concat_append]
  simp only [EntryPoint.mem_classFilesAmong_iff, h.before.wellFormed.mem_below_iff,
    h.after.wellFormed.mem_below_iff]
  constructor
  · rintro ⟨entry, ⟨hne, hentry⟩, hclass⟩
    exact ⟨entry, ⟨hne, (hsame entry hclass).symm.trans hentry⟩, hclass⟩
  · rintro ⟨entry, ⟨hne, hentry⟩, hclass⟩
    exact ⟨entry, ⟨hne, (hsame entry hclass).trans hentry⟩, hclass⟩

/-- The same classes are found. -/
theorem findClasses_eq (allows : String → Bool) :
    findClasses changed root allows = findClasses fs root allows := by
  cases hroot : root.isStandardInput with
  | true =>
    rw [findClasses_standardInput h.before.root h.before.directory hroot,
      findClasses_standardInput h.after.root h.after.directory hroot]
  | false =>
    rw [findClasses_eq_allowedBelow h.before.root h.before.directory hroot,
      findClasses_eq_allowedBelow h.after.root h.after.directory hroot]
    have hsame : allowedBelow changed root location allows
        = allowedBelow fs root location allows := by
      refine NameSet.eq_of_mem_iff fun name => ?_
      simp only [allowedBelow, NameSet.mem_ofList, List.mem_filter, List.mem_filterMap,
        List.mem_map, h.mem_classFilesAmong_iff]
    rw [hsame]

end Rewritten

/-! ## What the class path answers -/

/-- An archive that no path leads to through the directory of the manifest stays, since the manifest
is not named like an archive. -/
lemma status_of_agreesAside {fs changed : FileSystem} {root : Path} {location : Location}
    (hbuild : IsLinklessBuild fs root location) (hlinks : changed.IsLinkFree)
    (hagrees : fs.AgreesAside (directoryAt location) (fileAt location) changed) {path : Path}
    (hthrough : fs.pathLeadsThrough (directoryAt location) path = false)
    (hextension : path.extension?.any archiveExtensions.contains = true) {contents : Bytes}
    (hstatus : fs.status path = .ok (.file contents)) :
    changed.status path = .ok (.file contents) := by
  obtain ⟨found, hlocate, hfile⟩ := FileSystem.status_eq_ok_iff.1 hstatus
  have hplace : found ≠ directoryAt location := by
    rintro rfl
    exact hbuild.free.1 contents hfile
  have hmanifest : found ≠ fileAt location := by
    rintro rfl
    have hname := FileSystem.fileName?_of_locate hbuild.wellFormed hbuild.links hlocate hfile
    rw [Path.extension?, hname, Manifest.fileAt_eq, List.getLast?_concat] at hextension
    exact absurd hextension (by decide)
  refine FileSystem.status_eq_ok_iff.2 ⟨found, ?_, (hagrees.others _ hplace hmanifest).trans hfile⟩
  exact FileSystem.locate_of_agreesAside hagrees hbuild.free.2 hbuild.links hlinks hthrough hlocate
    hplace hmanifest

namespace Rewritten
variable {fs changed : FileSystem} {root : Path} {location : Location}
  (h : Rewritten fs changed root location) {path : Path}
  (hthrough : fs.pathLeadsThrough (directoryAt location) path = false)

include h hthrough

/-- The archives have the bytes that they had. -/
lemma status_iff (hextension : path.extension?.any archiveExtensions.contains = true)
    {contents : Bytes} :
    changed.status path = .ok (.file contents) ↔ fs.status path = .ok (.file contents) := by
  constructor
  · refine status_of_agreesAside h.after h.before.links h.agrees.symm ?_ hextension
    rw [h.agrees.pathLeadsThrough_eq, hthrough]
  · exact status_of_agreesAside h.before h.after.links h.agrees hthrough hextension

/-- The same archives are there. -/
lemma isFile_eq (hextension : path.extension?.any archiveExtensions.contains = true) :
    changed.isFile path = fs.isFile path := by
  rw [Bool.eq_iff_iff, FileSystem.isFile_iff, FileSystem.isFile_iff]
  simp only [h.status_iff hthrough hextension]

/-- A path that has become a directory leads to the directory of the manifest, which is new. -/
lemma locate_of_isDirectory (hbefore : fs.isDirectory path = false)
    (hafter : changed.isDirectory path = true) :
    changed.locate path = .ok (directoryAt location) ∧
      fs.get? (directoryAt location) = none := by
  have hnot : ∀ found, fs.locate path = .ok found → fs.get? found ≠ some .directory := by
    intro found hlocate hfound
    have hdirectory := FileSystem.status_eq_ok_iff.2 ⟨found, hlocate, hfound⟩
    rw [FileSystem.isDirectory_iff.2 hdirectory] at hbefore
    cases hbefore
  obtain ⟨found, hlocate, hfound⟩ :=
    FileSystem.status_eq_ok_iff.1 (FileSystem.isDirectory_iff.1 hafter)
  have hmanifest : found ≠ fileAt location := by
    rintro rfl
    exact h.after.free.2 hfound
  obtain rfl : found = directoryAt location := by
    by_contra hplace
    have hthere := FileSystem.locate_of_agreesAside h.agrees.symm h.after.free.2 h.after.links
      h.before.links ((h.agrees.pathLeadsThrough_eq _ _).trans hthrough) hlocate hplace hmanifest
    exact hnot found hthere ((h.agrees.others found hplace hmanifest).symm.trans hfound)
  refine ⟨hlocate, ?_⟩
  cases hentry : fs.get? (directoryAt location) with
  | none => rfl
  | some entry =>
    cases entry with
    | directory =>
      exact absurd hentry (hnot _ ((h.keepsWays_symm hentry).locate hlocate hfound))
    | file contents => exact absurd hentry (h.before.free.1 contents)
    | link target => exact absurd hentry (h.before.links _ target)

omit hthrough in
/-- The directory of the manifest, where it is new, has no class that the root has not. -/
lemma findInDirectory_new (hlocate : changed.locate path = .ok (directoryAt location))
    (hnew : fs.get? (directoryAt location) = none) {className : String}
    (hroot : findInDirectory fs root className = .ok none) :
    findInDirectory changed path className = .ok none := by
  have hnone : ∀ contents,
      fs.get? (classLocation (directoryAt location) className) ≠ some (.file contents) := by
    intro contents hfile
    by_cases habsolute : (⟨ClassName.classPath className⟩ : Path).isAbsolute = true
    · -- an absolute path leads from the root to the same place
      have hsame : classLocation location className
          = classLocation (directoryAt location) className := by
        rw [classLocation, classLocation, origin, origin, if_pos habsolute, if_pos habsolute]
      rw [EntryPoint.findInDirectory_eq h.before.wellFormed h.before.links h.before.root
        h.before.directory, hsame, hfile] at hroot
      cases hroot
    · obtain ⟨front, stem, hnames⟩ := ClassName.exists_names_classPath className
      rw [classLocation, origin, if_neg habsolute, hnames] at hfile
      rw [h.before.wellFormed.directory_above (by simp) hfile] at hnew
      cases hnew
  rw [EntryPoint.findInDirectory_eq h.after.wellFormed h.after.links hlocate h.directory,
    h.get?_classLocation]
  split
  · rename_i contents hfile
    exact absurd hfile (hnone contents)
  · rfl

/-- An archive has the classes that it had. -/
lemma findInArchive_eq (hextension : path.extension?.any archiveExtensions.contains = true)
    (hfile : fs.isFile path = true) (className : String) :
    findInArchive changed path className = findInArchive fs path className := by
  obtain ⟨contents, hstatus⟩ := FileSystem.isFile_iff.1 hfile
  have hread : readArchive changed path = readArchive fs path := by
    rw [readArchive, readArchive, hstatus, (h.status_iff hthrough hextension).2 hstatus]
  rw [findInArchive, findInArchive, hread]

/-- As an element of the class path, a path answers as before where the root has no answer. -/
theorem find_sourceAt {className : String}
    (hroot : findInDirectory fs root className = .ok none) :
    (ClassPathElement.sourceAt changed path).find className
      = (ClassPathElement.sourceAt fs path).find className := by
  cases hbefore : fs.isDirectory path with
  | true =>
    obtain ⟨held, hlocate, hheld⟩ :=
      FileSystem.status_eq_ok_iff.1 (FileSystem.isDirectory_iff.1 hbefore)
    have hafter : changed.isDirectory path = true :=
      FileSystem.isDirectory_iff.2 (FileSystem.status_eq_ok_iff.2
        ⟨held, h.keepsWays.locate hlocate hheld, h.keepsWays.directories held hheld⟩)
    rw [ClassPathElement.sourceAt_directory hbefore, ClassPathElement.sourceAt_directory hafter,
      ByteSource.find_ofDirectory, ByteSource.find_ofDirectory,
      h.findInDirectory_eq hlocate hheld]
  | false =>
    by_cases harchive : path.extension?.any archiveExtensions.contains = true ∧
        fs.isFile path = true
    · obtain ⟨hextension, hfile⟩ := harchive
      have hafter := (h.isFile_eq hthrough hextension).trans hfile
      rw [ClassPathElement.sourceAt_archive hbefore hfile hextension,
        ClassPathElement.sourceAt_archive (FileSystem.isDirectory_of_isFile hafter) hafter
          hextension, ByteSource.find_ofArchive, ByteSource.find_ofArchive,
        h.findInArchive_eq hthrough hextension hfile]
    · have hother : path.extension?.any archiveExtensions.contains = true →
          fs.isFile path = false := by
        simpa using harchive
      rw [ClassPathElement.sourceAt_other hbefore hother]
      cases hafter : changed.isDirectory path with
      | true =>
        -- only the directory of the manifest can have come into being
        obtain ⟨hlocate, hnew⟩ := h.locate_of_isDirectory hthrough hbefore hafter
        rw [ClassPathElement.sourceAt_directory hafter, ByteSource.find_ofDirectory,
          h.findInDirectory_new hlocate hnew hroot]
        rfl
      | false =>
        rw [ClassPathElement.sourceAt_other hafter fun hextension =>
          (h.isFile_eq hthrough hextension).trans (hother hextension)]

end Rewritten

/-! ## The second run -/

/-- The class path over the root and the same elements has the classes that it had, if no element
leads through the directory of the manifest. -/
theorem Rewritten.source_eq {fs changed : FileSystem} {root : Path} {location : Location}
    (h : Rewritten fs changed root location) {elements : List Path}
    (hthrough : ∀ element ∈ elements,
      fs.pathLeadsThrough (directoryAt location) element = false) :
    (ClassPath.ofPaths changed root elements).source changed
      = (ClassPath.ofPaths fs root elements).source fs := by
  have hfind : ∀ className,
      ((ClassPath.ofPaths changed root elements).source changed).find className
        = ((ClassPath.ofPaths fs root elements).source fs).find className := by
    intro className
    rw [ClassPath.find_source_ofPaths, ClassPath.find_source_ofPaths,
      h.findInDirectory_eq h.before.root h.before.directory,
      ClassPathElement.find_firstOf_sourceAt, ClassPathElement.find_firstOf_sourceAt]
    split
    · rename_i hroot
      exact ByteSource.find_firstOf_congr fun element helement =>
        h.find_sourceAt (hthrough element helement) hroot
    · rfl
  generalize (ClassPath.ofPaths changed root elements).source changed = after at hfind ⊢
  generalize (ClassPath.ofPaths fs root elements).source fs = before at hfind ⊢
  obtain ⟨find⟩ := before
  obtain ⟨findAfter⟩ := after
  exact congrArg ByteSource.mk (funext hfind)

/-- The search gives the same answer, whether it loads the candidates all at once or not. -/
theorem Rewritten.resolve_eq {fs changed : FileSystem} {root : Path} {location : Location}
    (h : Rewritten fs changed root location) (source : ByteSource) (allows : String → Bool)
    (options : SearchOptions) (parallel : Bool) :
    resolve changed root source allows { options with parallel := parallel }
      = resolve fs root source allows options := by
  simp only [resolve, h.findClasses_eq, resolveCandidates, parseCandidates_eq_mapM]
  rfl

/-- Emission is idempotent in a file system without links where no temporary file lies in the place
for it, with a class path over the root and elements that do not lead through the directory of the
manifest. Once it has given a record, emission in the changed file system, with a class path opened
anew, gives the same record and leaves the file system just as it is, whether either run loads the
candidates all at once or not. -/
theorem resolveAndEmit_again {fs : FileSystem} (hfs : fs.WellFormed) (hlinks : fs.IsLinkFree)
    (root : Path) (elements : List Path) (allows : String → Bool) (options : SearchOptions)
    (htemporary : ∀ location, fs.locate root = .ok location →
      fs.get? (temporaryAt location) = none)
    (hthrough : ∀ location, fs.locate root = .ok location →
      ∀ element ∈ elements, fs.pathLeadsThrough (directoryAt location) element = false)
    {record : Record} {changed : FileSystem}
    (h : resolveAndEmit fs root ((ClassPath.ofPaths fs root elements).source fs) allows options
      = (.ok record, changed)) (parallel : Bool) :
    resolveAndEmit changed root ((ClassPath.ofPaths changed root elements).source changed) allows
      { options with parallel := parallel } = (.ok record, changed) := by
  obtain ⟨resolution, path, hresolve, rfl, hwrite⟩ := resolveAndEmit_eq_ok_iff.1 h
  obtain ⟨location, hroot, hlocation⟩ := exists_locate_of_resolve hresolve
  have hfree := htemporary location hroot
  rw [Record.write_eq_written _ hfs hroot hlocation (hlinks _) hfree] at hwrite
  obtain ⟨hchanged, hagain⟩ := Record.written_again hfs hlocation hwrite
  rcases Record.written_cases (Record.ofMainClass resolution.entryPoint.className) hfs
    (hlinks _) hfree with ⟨hunobstructed, after, hwritten, hpublished⟩ | ⟨-, failure, hfailure⟩
  · rw [hwrite] at hwritten
    cases hwritten
    have hrewritten := rewritten_of_published ⟨hfs, hlinks, hroot, hlocation, hunobstructed⟩
      hchanged hpublished
    refine resolveAndEmit_eq_ok_iff.2 ⟨resolution, Manifest.filePath root, ?_, rfl, ?_⟩
    · rw [hrewritten.source_eq (hthrough location hroot), hrewritten.resolve_eq, hresolve]
    · rw [Record.write_eq_written _ hchanged hrewritten.after.root hrewritten.after.directory
        (hrewritten.after.links _) hpublished.temporary, hagain]
  · rw [hwrite] at hfailure
    cases congrArg Prod.fst hfailure

/-- The small build has no links. -/
lemma isLinkFree_smallBuild (directory : String) (contents : Bytes) :
    (smallBuild directory contents).IsLinkFree := by
  intro location target h
  by_cases hroot : location = []
  · rw [hroot] at h
    cases h
  · simpa [smallBuild] using FileSystem.mem_entries_of_get? hroot h

/-- Emission in a small build gives the same once more, though an element of the class path is a
directory by then. -/
theorem resolveAndEmit_smallBuild_again :
    ∃ changed,
      resolveAndEmit (smallBuild "out" markedClass) ⟨"out"⟩
          ((ClassPath.ofPaths (smallBuild "out" markedClass) ⟨"out"⟩ [⟨"out/META-INF"⟩]).source
            (smallBuild "out" markedClass)) (fun _ => true) ⟨"LM;", .strict, true⟩
        = (.ok ⟨"1.0", "A"⟩, changed) ∧
      changed.isDirectory ⟨"out/META-INF"⟩ = true ∧
      resolveAndEmit changed ⟨"out"⟩
          ((ClassPath.ofPaths changed ⟨"out"⟩ [⟨"out/META-INF"⟩]).source changed) (fun _ => true)
          ⟨"LM;", .strict, false⟩
        = (.ok ⟨"1.0", "A"⟩, changed) := by
  have hfs : (smallBuild "out" markedClass).WellFormed := by
    decide +kernel
  have hroot : (smallBuild "out" markedClass).locate ⟨"out"⟩ = .ok ["out"] := by
    decide +kernel
  have hrun : (resolveAndEmit (smallBuild "out" markedClass) ⟨"out"⟩
      ((ClassPath.ofPaths (smallBuild "out" markedClass) ⟨"out"⟩ [⟨"out/META-INF"⟩]).source
        (smallBuild "out" markedClass)) (fun _ => true) ⟨"LM;", .strict, true⟩).1
      = .ok ⟨"1.0", "A"⟩ := by
    decide +kernel
  refine ⟨_, Prod.ext hrun rfl, by decide +kernel, ?_⟩
  refine resolveAndEmit_again hfs (isLinkFree_smallBuild "out" markedClass) ⟨"out"⟩
    [⟨"out/META-INF"⟩] (fun _ => true) ⟨"LM;", .strict, true⟩ ?_ ?_ (Prod.ext hrun rfl) false
  · intro location h
    rw [hroot] at h
    cases h
    decide +kernel
  · intro location h
    rw [hroot] at h
    cases h
    decide +kernel

end EntryPoint
