import EntryPoint.Proofs.Layout
import EntryPoint.Proofs.Lookup
import EntryPoint.Proofs.Resolution

/-!
# Sources over the same classes

The same classes can be held in memory, stored in a directory, put into an archive, or reached
through a class path with an empty output directory before that directory or archive. The source
over each of these layouts answers every class name with the same bytes, or has no class of that
name (`Answers`). Only where the bytes come from differs, which shows in nothing but the origin that
a failure to parse them names. So every layout gives the same entry point, or the same failure up to
that origin.
-/

namespace EntryPoint

open ClassName (IsDotted)

/-- A finite map from class names to bytes. -/
structure ClassMap where
  entries : List (String × Bytes)
  nodup : (entries.map Prod.fst).Nodup
  dotted : ∀ stored ∈ entries, IsDotted stored.1

/-! ## Layouts -/

/-- Whether an archive has an entry for each class at its path, with its bytes, and no other. -/
def Archive.Keeps (archive : Bytes) (classes : List (String × Bytes)) : Prop :=
  ∀ entryName, Archive.find? archive entryName
    = .ok ((classes.map fun stored => (ClassName.classPath stored.1, stored.2)).lookup entryName)

/-- Whether a source is one over a layout of the given classes: in memory, in a directory, in an
archive, or behind an empty output directory on a class path. -/
inductive IsSourceOf (classes : List (String × Bytes)) : ByteSource → Prop where
  | memory : IsSourceOf classes (.ofMemory classes)
  | directory {fs : FileSystem} {root : Path} {location : Location}
    (hroot : fs.locate root = .ok location) (h : KeepsClasses fs location classes) :
    IsSourceOf classes (.ofDirectory fs root)
  | archive {fs : FileSystem} {path : Path} {contents : Bytes}
    (hfile : fs.status path = .ok (.file contents)) (h : Archive.Keeps contents classes) :
    IsSourceOf classes (.ofArchive fs path)
  | directoryBehind {fs : FileSystem} {output root : Path} {empty location : Location}
    (houtput : fs.locate output = .ok empty) (hempty : KeepsClasses fs empty [])
    (hroot : fs.locate root = .ok location) (h : KeepsClasses fs location classes) :
    IsSourceOf classes ((ClassPath.ofPaths fs output [root]).source fs)
  | archiveBehind {fs : FileSystem} {output path : Path} {empty : Location} {contents : Bytes}
    (houtput : fs.locate output = .ok empty) (hempty : KeepsClasses fs empty [])
    (hextension : path.extension?.any archiveExtensions.contains = true)
    (hfile : fs.status path = .ok (.file contents)) (h : Archive.Keeps contents classes) :
    IsSourceOf classes ((ClassPath.ofPaths fs output [path]).source fs)

/-! ## What the sources answer -/

/-- Whether an answer is the given bytes, wherever they come from, or nothing if there are none. -/
def Answers (answer : Except Failure (Option ClassBytes)) (contents : Option Bytes) : Prop :=
  ∃ found, answer = .ok found ∧ found.map (·.contents) = contents

section
variable {fs : FileSystem} (classes : ClassMap) {className : String} (hname : IsDotted className)

/-- Classes in memory are looked up by their names. -/
lemma answers_ofMemory (className : String) :
    Answers ((ByteSource.ofMemory classes.entries).find className)
      (classes.entries.lookup className) := by
  refine ⟨_, rfl, ?_⟩
  rw [Option.map_map]
  exact Option.map_id'

include hname

/-- A directory has the classes that are stored there. -/
lemma answers_findInDirectory {root : Path} {location : Location}
    (hroot : fs.locate root = .ok location) (h : KeepsClasses fs location classes.entries) :
    Answers (findInDirectory fs root className) (classes.entries.lookup className) := by
  have hstatus : ∀ contents, fs.status (classFilePath root className) = .ok (.file contents) ↔
      classes.entries.lookup className = some contents := by
    intro contents
    rw [h.status_classFilePath_iff classes.dotted hroot hname, lookup_eq_some_iff_mem classes.nodup]
  rw [findInDirectory_eq_status]
  refine ⟨_, rfl, ?_⟩
  split
  · rename_i contents hfile
    exact ((hstatus contents).1 hfile).symm
  · rename_i hnone
    symm
    rw [Option.map_none, Option.eq_none_iff_forall_ne_some]
    intro contents hcontents
    exact hnone contents ((hstatus contents).2 hcontents)

/-- An archive has the classes that it keeps. -/
lemma answers_findInArchive {path : Path} {contents : Bytes}
    (hfile : fs.status path = .ok (.file contents)) (h : Archive.Keeps contents classes.entries) :
    Answers (findInArchive fs path className) (classes.entries.lookup className) := by
  have hread : readArchive fs path = .ok contents := by
    rw [readArchive, hfile]
  have hentry := h (ClassName.classPath className)
  rw [lookup_map_key fun stored hmem => hname.classPath_injective (classes.dotted stored hmem)]
    at hentry
  have hne : contents ≠ [] := by
    rintro rfl
    have hdirectory : Archive.readDirectory [] = .error .tooShort := rfl
    rw [Archive.find?, hdirectory] at hentry
    cases hentry
  have hfind : findInArchive fs path className
      = .ok ((classes.entries.lookup className).map fun bytes =>
          ⟨bytes, some (archiveOrigin path (ClassName.classPath className))⟩) := by
    simp only [findInArchive, hread, hentry]
  refine ⟨_, hfind, ?_⟩
  rw [Option.map_map]
  exact Option.map_id'

omit hname in
/-- Behind an output directory that has no class of the name, the only other element is asked. -/
lemma ClassPath.find_behind {output path : Path}
    (h : findInDirectory fs output className = .ok none) :
    ((ClassPath.ofPaths fs output [path]).source fs).find className
      = (ClassPathElement.sourceAt fs path).find className := by
  rw [ClassPath.find_source_ofPaths, h, ClassPathElement.find_firstOf_sourceAt, List.map_cons,
    ByteSource.find_firstOf_cons, List.map_nil]
  generalize (ClassPathElement.sourceAt fs path).find className = answer
  rcases answer with failure | _ | bytes
  all_goals rfl

/-- An empty directory has no class. -/
lemma findInDirectory_of_empty {output : Path} {empty : Location}
    (houtput : fs.locate output = .ok empty) (h : KeepsClasses fs empty []) :
    findInDirectory fs output className = .ok none := by
  obtain ⟨found, hfind, hfound⟩ :=
    answers_findInDirectory ⟨[], .nil, by simp⟩ hname houtput h
  rw [hfind, Option.map_eq_none_iff.1 hfound]

/-- Every layout has the classes and no others. -/
theorem IsSourceOf.answers {source : ByteSource} (h : IsSourceOf classes.entries source) :
    Answers (source.find className) (classes.entries.lookup className) := by
  cases h with
  | memory => exact answers_ofMemory classes className
  | directory hroot h =>
    rw [ByteSource.find_ofDirectory]
    exact answers_findInDirectory classes hname hroot h
  | archive hfile h =>
    rw [ByteSource.find_ofArchive]
    exact answers_findInArchive classes hname hfile h
  | @directoryBehind fs output root empty location houtput hempty hroot h =>
    have hdirectory : fs.isDirectory root = true :=
      FileSystem.isDirectory_iff.2 (FileSystem.status_eq_ok_iff.2 ⟨location, hroot, h.directory⟩)
    rw [ClassPath.find_behind (findInDirectory_of_empty hname houtput hempty),
      ClassPathElement.sourceAt_directory hdirectory, ByteSource.find_ofDirectory]
    exact answers_findInDirectory classes hname hroot h
  | @archiveBehind fs output path empty contents houtput hempty hextension hfile h =>
    have hisFile : fs.isFile path = true := FileSystem.isFile_iff.2 ⟨contents, hfile⟩
    rw [ClassPath.find_behind (findInDirectory_of_empty hname houtput hempty),
      ClassPathElement.sourceAt_archive (FileSystem.isDirectory_of_isFile hisFile) hisFile
        hextension, ByteSource.find_ofArchive]
    exact answers_findInArchive classes hname hfile h

end

/-! ## What is resolved -/

/-- A failure without the origin of the bytes that it is about. -/
def Failure.withoutOrigin : Failure → Failure
  | malformed className _ fault => malformed className none fault
  | failure => failure

/-- Changing the failures of a computation and of what comes after it changes those of the whole. -/
lemma mapError_bind {ε ε' α β : Type} (f : ε → ε') (x : Except ε α) (next : α → Except ε β) :
    (x >>= next).mapError f = x.mapError f >>= fun a => (next a).mapError f := by
  cases x <;> rfl

/-- Computations that agree on the members of a list give the same results for it. -/
lemma mapM_congr {ε α β : Type} {load other : α → Except ε β} {xs : List α}
    (h : ∀ x ∈ xs, load x = other x) : xs.mapM load = xs.mapM other := by
  induction xs with
  | nil => rfl
  | cons x xs ih =>
    obtain ⟨hx, hxs⟩ := List.forall_mem_cons.1 h
    rw [List.mapM_cons, List.mapM_cons, hx, ih hxs]

/-- Failures can be changed one by one. -/
lemma mapError_mapM {ε ε' α β : Type} (f : ε → ε') (load : α → Except ε β) (xs : List α) :
    (xs.mapM load).mapError f = xs.mapM fun x => (load x).mapError f := by
  induction xs with
  | nil => rfl
  | cons x xs ih =>
    simp only [List.mapM_cons, mapError_bind, ih]
    rfl

/-- What loading a candidate gives that has the given bytes, or none. -/
def summaryOf (className : String) : Option Bytes → Except Failure ClassFile.Summary
  | some contents => (ClassFile.parse contents).mapError (.malformed className none)
  | none => .error (.classNotFound className)

/-- Loading a candidate gives what its bytes determine, up to their origin. -/
lemma mapError_loadCandidate {source : ByteSource} {className : String} {contents : Option Bytes}
    (h : Answers (source.find className) contents) :
    (loadCandidate source className).mapError Failure.withoutOrigin
      = summaryOf className contents := by
  obtain ⟨found, hfind, rfl⟩ := h
  rcases found with _ | bytes
  · have hread : source.read className = .error (.classNotFound className) := by
      rw [ByteSource.read, hfind]
    rw [loadCandidate, hread]
    rfl
  · rw [loadCandidate_of_find hfind, Option.map_some, summaryOf]
    rcases ClassFile.parse bytes.contents with fault | summary
    all_goals rfl

/-- Where two sources answer every candidate alike, they give the same entry point, or the same
failure up to the origin of the bytes. -/
theorem mapError_resolveCandidates {source other : ByteSource} {candidates : NameSet}
    {stored : String → Option Bytes}
    (h : ∀ name ∈ candidates.names, Answers (source.find name) (stored name))
    (h' : ∀ name ∈ candidates.names, Answers (other.find name) (stored name))
    (options : SearchOptions) :
    (resolveCandidates source candidates options).mapError Failure.withoutOrigin
      = (resolveCandidates other candidates options).mapError Failure.withoutOrigin := by
  have hload : ∀ source : ByteSource,
      (∀ name ∈ candidates.names, Answers (source.find name) (stored name)) →
      (candidates.names.mapM (loadCandidate source)).mapError Failure.withoutOrigin
        = candidates.names.mapM fun name => summaryOf name (stored name) := by
    intro source hanswers
    rw [mapError_mapM]
    exact mapM_congr fun name hname => mapError_loadCandidate (hanswers name hname)
  have hresolve : ∀ source, resolveCandidates source candidates options
      = candidates.names.mapM (loadCandidate source) >>= selectEntryPoint options := by
    intro source
    rw [resolveCandidates, parseCandidates_eq_mapM]
    cases candidates.names.mapM (loadCandidate source) <;> rfl
  rw [hresolve, hresolve, mapError_bind, mapError_bind, hload source h, hload other h']

/-! ## The layouts agree -/

/-- No two classes of a map are in each other's way: their files and archive entries have distinct
names, and in every empty directory they can be stored, which changes nothing elsewhere. Whatever
the layout, every dotted class name is answered with the bytes that the map has for it, or with
nothing, and never with a failure. So all layouts give the same entry point among any candidates
with dotted names and with any options, or the same failure up to the origin of the bytes. -/
theorem layouts_agree (classes : ClassMap) :
    (classes.entries.map fun stored => ClassName.classPath stored.1).Nodup ∧
    (∀ fs root location, fs.locate root = .ok location → KeepsClasses fs location [] →
      ∃ laid, storeClasses root fs classes.entries = .ok laid ∧
        KeepsClasses laid location classes.entries ∧ fs.KeepsWays laid ∧
        ∀ other, ¬location <+: other → laid.get? other = fs.get? other) ∧
    (∀ source, IsSourceOf classes.entries source → ∀ name, IsDotted name →
      Answers (source.find name) (classes.entries.lookup name)) ∧
    ∀ source other, IsSourceOf classes.entries source → IsSourceOf classes.entries other →
      ∀ candidates : NameSet, (∀ name ∈ candidates.names, IsDotted name) → ∀ options,
        (resolveCandidates source candidates options).mapError Failure.withoutOrigin
          = (resolveCandidates other candidates options).mapError Failure.withoutOrigin := by
  refine ⟨?_, ?_, ?_, ?_⟩
  · have hnodup := List.Nodup.of_map Prod.fst classes.nodup
    refine (List.nodup_map_iff_inj_on hnodup).2 fun stored hstored other hother hpath => ?_
    have hname := (classes.dotted stored hstored).classPath_injective (classes.dotted other hother)
      hpath
    exact List.inj_on_of_nodup_map classes.nodup hstored hother hname
  · intro fs root location hroot hempty
    exact hempty.storeClasses hroot classes.dotted classes.nodup
  · intro source hsource name hname
    exact hsource.answers classes hname
  · intro source other hsource hother candidates hdotted options
    have hanswers : ∀ source, IsSourceOf classes.entries source → ∀ name ∈ candidates.names,
        Answers (source.find name) (classes.entries.lookup name) := fun _ hsource name hname =>
      hsource.answers classes (hdotted name hname)
    exact mapError_resolveCandidates (hanswers source hsource) (hanswers other hother) options

/-! ## Two classes -/

/-- The class `A` without any bytes, and a marked class that is called `class` in the package
`A`. -/
def twoClasses : ClassMap where
  entries := [("A", []), ("A.class", markedClass)]
  nodup := by decide
  dotted := by
    have hA : ClassName.IsComponent "A" := ⟨by decide, by decide, by decide, by decide⟩
    have hclass : ClassName.IsComponent "class" := ⟨by decide, by decide, by decide, by decide⟩
    intro stored hstored
    rcases List.mem_pair.1 hstored with rfl | rfl
    · exact ⟨["A"], by simp, by simpa using hA, rfl⟩
    · exact ⟨["A", "class"], by simp, by simpa using ⟨hA, hclass⟩, by decide⟩

/-- An archive with the entries `A.class` and `A/class.class`, both stored. -/
def twoClassArchive : Bytes :=
  [80, 75, 3, 4, 10, 0, 0, 0, 0, 0, 0, 0, 33, 0, 0, 0, 0, 0, 0, 0, 0, 0, 0, 0, 0, 0, 7, 0, 0, 0]
    ++ Bytes.ofText "A.class"
    ++ [80, 75, 3, 4, 10, 0, 0, 0, 0, 0, 0, 0, 33, 0, 124, 223, 3, 27, 77, 0, 0, 0, 77, 0, 0, 0]
    ++ [13, 0, 0, 0] ++ Bytes.ofText "A/class.class" ++ markedClass
    -- the directory of the archive
    ++ [80, 75, 1, 2, 10, 0, 10, 0, 0, 0, 0, 0, 0, 0, 33, 0, 0, 0, 0, 0, 0, 0, 0, 0, 0, 0, 0, 0]
    ++ [7, 0, 0, 0, 0, 0, 0, 0, 0, 0, 0, 0, 0, 0, 0, 0, 0, 0] ++ Bytes.ofText "A.class"
    ++ [80, 75, 1, 2, 10, 0, 10, 0, 0, 0, 0, 0, 0, 0, 33, 0, 124, 223, 3, 27, 77, 0, 0, 0, 77, 0]
    ++ [0, 0, 13, 0, 0, 0, 0, 0, 0, 0, 0, 0, 0, 0, 0, 0, 37, 0, 0, 0] ++ Bytes.ofText "A/class.class"
    ++ [80, 75, 5, 6, 0, 0, 0, 0, 2, 0, 2, 0, 112, 0, 0, 0, 157, 0, 0, 0, 0, 0]

/-- The checksum of the marked class, as the archive says it. -/
lemma checksum_markedClass : Crc32.checksum markedClass = 453238652 := by
  have hfront : (markedClass.take 40).foldl Crc32.shiftByte 0xFFFFFFFF = 1204332769 := by
    decide +kernel
  have hback : ~~~((markedClass.drop 40).foldl Crc32.shiftByte 1204332769) = 453238652 := by
    decide +kernel
  rw [Crc32.checksum, ← List.take_append_drop 40 markedClass, List.foldl_append, hfront, hback]

/-- The content of a stored entry is its data, if the checksum is right. -/
lemma Archive.readEntry_stored {bytes data : Bytes} {entry : Archive.Entry} {start : Nat}
    (hplain : entry.encrypted = false) (hmethod : entry.method = 0)
    (hstart : Archive.dataStart bytes entry = .ok start)
    (hdata : (bytes.drop start).take entry.compressedSize = data)
    (hchecksum : Crc32.checksum data = entry.checksum) :
    Archive.readEntry bytes entry = .ok data := by
  simp [Archive.readEntry, Archive.openEntry, hplain, hstart, hmethod, Archive.Method.ofNumber?,
    hdata, Archive.Method.expand, hchecksum]

/-- The archive keeps the two classes. -/
lemma keeps_twoClassArchive : Archive.Keeps twoClassArchive twoClasses.entries := by
  have hdirectory : Archive.readDirectory twoClassArchive
      = .ok [⟨"A.class", false, 0, 0, 0, 0⟩, ⟨"A/class.class", false, 0, 453238652, 77, 37⟩] := by
    decide +kernel
  have hfirst : Archive.readEntry twoClassArchive ⟨"A.class", false, 0, 0, 0, 0⟩ = .ok [] := by
    decide +kernel
  have hsecond : Archive.readEntry twoClassArchive ⟨"A/class.class", false, 0, 453238652, 77, 37⟩
      = .ok markedClass := by
    have hstart : Archive.dataStart twoClassArchive
        ⟨"A/class.class", false, 0, 453238652, 77, 37⟩ = .ok 80 := by
      decide +kernel
    have hdata : (twoClassArchive.drop 80).take 77 = markedClass := by
      decide +kernel
    exact Archive.readEntry_stored rfl rfl hstart hdata checksum_markedClass
  have hA : ClassName.classPath "A" = "A.class" := by
    decide
  have hclass : ClassName.classPath "A.class" = "A/class.class" := by
    decide
  intro entryName
  simp only [Archive.find?, hdirectory, Archive.lastNamed?, twoClasses, List.map_cons, hA, hclass,
    List.map_nil, List.lookup_cons, List.lookup_nil, List.reverse_cons, List.reverse_nil,
    List.nil_append, List.cons_append, List.find?_cons, List.find?_nil]
  by_cases hsame : entryName = "A.class"
  · subst hsame
    simp [hfirst, Except.map]
  by_cases hother : entryName = "A/class.class"
  · have hne : ("A/class.class" == "A.class") = false := by decide
    rw [hother, hne]
    simp only [decide_true, beq_self_eq_true]
    rw [hsecond]
    rfl
  · have hfirst : (entryName == "A.class") = false := by simpa using hsame
    have hsecond : (entryName == "A/class.class") = false := by simpa using hother
    simp [hfirst, hsecond, Ne.symm hsame, Ne.symm hother]

/-- An empty output directory, an empty directory for classes, and the archive. -/
def twoClassSystem : FileSystem :=
  ⟨[(["out"], .directory), (["lib"], .directory), (["jars"], .directory),
    (["jars", "all.jar"], .file twoClassArchive)], []⟩

/-- Nothing lies in the two directories. -/
lemma get?_twoClassSystem {directory : String} (h : directory ∈ ["out", "lib"])
    {relative : Location} (hne : relative ≠ []) :
    twoClassSystem.get? ([directory] ++ relative) = none := by
  rw [List.singleton_append, FileSystem.get?, if_neg (by simp), List.lookup_eq_none_iff]
  rcases List.mem_pair.1 h with rfl | rfl
  all_goals simp [twoClassSystem, hne]

/-- The sources over the layouts of the two classes, once they are stored in their directory. -/
def twoClassSources (laid : FileSystem) : List ByteSource :=
  [.ofMemory twoClasses.entries, .ofDirectory laid ⟨"lib"⟩, .ofArchive laid ⟨"jars/all.jar"⟩,
    (ClassPath.ofPaths laid ⟨"out"⟩ [⟨"lib"⟩]).source laid,
    (ClassPath.ofPaths laid ⟨"out"⟩ [⟨"jars/all.jar"⟩]).source laid]

/-- The two classes can be stored, and there are five sources over them then. -/
lemma exists_twoClassSources :
    ∃ laid, storeClasses ⟨"lib"⟩ twoClassSystem twoClasses.entries = .ok laid ∧
      ∀ source ∈ twoClassSources laid, IsSourceOf twoClasses.entries source := by
  have hlib : KeepsClasses twoClassSystem ["lib"] [] := by
    refine ⟨by decide +kernel, by decide +kernel, by simp, fun relative entry hne hentry => ?_⟩
    rw [get?_twoClassSystem (by simp) hne] at hentry
    cases hentry
  have hlocate : twoClassSystem.locate ⟨"lib"⟩ = .ok ["lib"] := by
    decide +kernel
  obtain ⟨laid, hlaid, hkeeps, hways, hothers⟩ :=
    hlib.storeClasses hlocate twoClasses.dotted twoClasses.nodup
  have hroot : laid.locate ⟨"lib"⟩ = .ok ["lib"] := hways.locate hlocate hlib.directory
  have houtput : laid.locate ⟨"out"⟩ = .ok ["out"] :=
    hways.locate (by decide +kernel) (by decide +kernel)
  have hempty : KeepsClasses laid ["out"] [] := by
    refine ⟨hkeeps.wellFormed, ?_, by simp, fun relative entry hne hentry => ?_⟩
    · rw [hothers ["out"] (by decide)]
      decide +kernel
    · rw [hothers _ (by simp), get?_twoClassSystem (by simp) hne] at hentry
      cases hentry
  have hfile : laid.status ⟨"jars/all.jar"⟩ = .ok (.file twoClassArchive) := by
    have hjars : laid.locate ⟨"jars"⟩ = .ok ["jars"] :=
      hways.locate (by decide +kernel) (by decide +kernel)
    have hentry : laid.get? (["jars"] ++ ["all.jar"]) = some (.file twoClassArchive) := by
      rw [hothers _ (by decide)]
      decide +kernel
    have hpath : (⟨"jars/all.jar"⟩ : Path) = Path.child ⟨"jars"⟩ ["all.jar"] := by
      decide
    rw [hpath]
    exact hkeeps.wellFormed.status_child hjars (by simp) hentry (by simp)
  refine ⟨laid, hlaid, fun source hsource => ?_⟩
  simp only [twoClassSources, List.mem_cons, List.not_mem_nil, or_false] at hsource
  rcases hsource with rfl | rfl | rfl | rfl | rfl
  · exact .memory
  · exact .directory hroot hkeeps
  · exact .archive hfile keeps_twoClassArchive
  · exact .directoryBehind houtput hempty hroot hkeeps
  · exact .archiveBehind houtput hempty (by decide) hfile keeps_twoClassArchive

/-- All five sources have the class without bytes, and all give the other one as the entry point. -/
theorem layouts_agree_twoClasses :
    ∃ laid, storeClasses ⟨"lib"⟩ twoClassSystem twoClasses.entries = .ok laid ∧
      ∀ source ∈ twoClassSources laid, Answers (source.find "A") (some []) ∧
        (resolveCandidates source (.ofList ["A.class"]) ⟨"LM;", .strict, false⟩).mapError
          Failure.withoutOrigin = .ok ⟨"A", 52, 0, ["LM;"]⟩ := by
  obtain ⟨laid, hlaid, hsources⟩ := exists_twoClassSources
  obtain ⟨-, -, hfind, hresolve⟩ := layouts_agree twoClasses
  have hmemory : (resolveCandidates (.ofMemory twoClasses.entries) (.ofList ["A.class"])
      ⟨"LM;", .strict, false⟩).mapError Failure.withoutOrigin = .ok ⟨"A", 52, 0, ["LM;"]⟩ := by
    decide +kernel
  refine ⟨laid, hlaid, fun source hsource => ⟨?_, ?_⟩⟩
  · refine hfind source (hsources source hsource) "A" ?_
    exact twoClasses.dotted ("A", []) (by simp [twoClasses])
  · rw [hresolve source _ (hsources source hsource) .memory _ ?_ _, hmemory]
    intro name hname
    rw [NameSet.mem_ofList, List.mem_singleton] at hname
    rw [hname]
    exact twoClasses.dotted ("A.class", markedClass) (by simp [twoClasses])

end EntryPoint
