import EntryPoint.Ownership
import EntryPoint.Proofs.Candidates
import EntryPoint.Proofs.Lookup
import EntryPoint.Proofs.Selection
import EntryPoint.Resolution
import Mathlib.Data.List.Forall2

/-!
# What resolution gives

`IsResolved` says which answer the class files of a build determine: the failure of the first of
them, in the order of the names, that is no class file; or else what is selected among their
summaries. For a plain build this is the answer, whatever else lies on the class path and whether
the candidates are loaded all at once or not. The exception is a root that is spelt as standard
input: the walk delivers nothing there, so that no class of such a build is ever examined.
-/

namespace EntryPoint

open ClassFile (Summary)

/-- A search succeeds only below a directory. -/
lemma exists_locate_of_resolve {fs : FileSystem} {root : Path} {source : ByteSource}
    {allows : String → Bool} {options : SearchOptions} {resolution : Resolution}
    (h : resolve fs root source allows options = .ok resolution) :
    ∃ location, fs.locate root = .ok location ∧ fs.get? location = some .directory := by
  cases hroot : fs.locate root with
  | error fault =>
    simp only [resolve, findClasses, scanClassFiles, hroot, reduceCtorEq] at h
  | ok location =>
    refine ⟨location, rfl, ?_⟩
    by_contra hdirectory
    have hscan : scanClassFiles fs root = .error (.access root .scanOfFile) := by
      simp only [scanClassFiles, hroot]
    simp only [resolve, findClasses, hscan, reduceCtorEq] at h

/-- Whether a class file has the given summary. -/
def StoredClass.Declares (stored : StoredClass) (summary : Summary) : Prop :=
  ClassFile.parse stored.contents = .ok summary

/-- The answer that the candidates of a build determine, in the order of their names. -/
inductive IsResolved (root : Path) (options : SearchOptions) (stored : List StoredClass) :
    Except Failure Resolution → Prop where
  /-- Some candidate is no class file, and the first one is reported, with its path. -/
  | malformed {before after : List StoredClass} {bad : StoredClass} {fault : ClassFile.Fault}
    (h : stored = before ++ bad :: after)
    (hbefore : ∀ good ∈ before, ∃ summary, good.Declares summary)
    (hbad : ClassFile.parse bad.contents = .error fault) :
    IsResolved root options stored
      (.error (.malformed bad.className (some (bad.path root)) fault))
  /-- All candidates are class files, but none can be selected. -/
  | failed {classes : List Summary} {failure : Failure}
    (hclasses : List.Forall₂ StoredClass.Declares stored classes)
    (hselected : IsSelected options classes (.error failure)) :
    IsResolved root options stored (.error failure)
  /-- All candidates are class files, and one is selected. -/
  | found {classes : List Summary} {entryPoint : Summary} {candidates : NameSet}
    (hclasses : List.Forall₂ StoredClass.Declares stored classes)
    (hselected : IsSelected options classes (.ok entryPoint))
    (hcandidates : candidates.names = stored.map (·.className)) :
    IsResolved root options stored (.ok ⟨candidates, entryPoint⟩)

/-- Where loading a candidate gives its summary, or its own failure, the answer to a list of
candidates is the one that they determine. -/
lemma isResolved_of_load {root : Path} (options : SearchOptions) {stored : List StoredClass}
    {source : ByteSource} {candidates : NameSet}
    (hnames : candidates.names = stored.map (·.className))
    (hload : ∀ candidate ∈ stored, loadCandidate source candidate.className
      = (ClassFile.parse candidate.contents).mapError
          (.malformed candidate.className (some (candidate.path root)))) :
    IsResolved root options stored
      (match resolveCandidates source candidates options with
        | .ok entryPoint => .ok ⟨candidates, entryPoint⟩
        | .error failure => .error failure) := by
  have hparse : parseCandidates source candidates options.parallel
      = stored.mapM fun candidate => loadCandidate source candidate.className := by
    rw [parseCandidates_eq_mapM, hnames, List.mapM_map]
    rfl
  have hok : ∀ candidate ∈ stored, ∀ summary,
      loadCandidate source candidate.className = .ok summary → candidate.Declares summary := by
    intro candidate hcandidate summary h
    rw [hload candidate hcandidate] at h
    cases hresult : ClassFile.parse candidate.contents with
    | error fault =>
      rw [hresult] at h
      cases h
    | ok found =>
      rw [hresult] at h
      cases h
      exact hresult
  rcases mapM_cases (fun candidate => loadCandidate source candidate.className) stored with
    ⟨classes, hmap, hclasses⟩ | ⟨before, bad, after, failure, hsplit, hbefore, hbad, hmap⟩
  · have hsummaries : List.Forall₂ StoredClass.Declares stored classes :=
      ((List.forall₂_and_left _ _).2 ⟨hok, hclasses⟩).imp fun _ summary h => h.1 summary h.2
    have hselected := isSelected_selectEntryPoint options classes
    simp only [resolveCandidates, hparse, hmap]
    cases hanswer : selectEntryPoint options classes with
    | error failure =>
      rw [hanswer] at hselected
      exact .failed hsummaries hselected
    | ok entryPoint =>
      rw [hanswer] at hselected
      exact .found hsummaries hselected hnames
  · simp only [resolveCandidates, hparse, hmap]
    have hmem : ∀ candidate ∈ before ++ bad :: after, candidate ∈ stored := by
      rw [hsplit]
      exact fun _ h => h
    rw [hload bad (hmem bad (by simp))] at hbad
    cases hresult : ClassFile.parse bad.contents with
    | ok summary =>
      rw [hresult] at hbad
      cases hbad
    | error fault =>
      rw [hresult] at hbad
      cases hbad
      refine .malformed hsplit (fun good hgood => ?_) hresult
      obtain ⟨summary, h⟩ := hbefore good hgood
      exact ⟨summary, hok good (hmem good (by simp [hgood])) summary h⟩

/-- The candidates of a plain build can be listed in the order of their names. -/
lemma exists_stored {fs : FileSystem} (hfs : fs.WellFormed) {location : Location}
    (hbuild : IsPlainBuild fs location) (root : Path) (allows : String → Bool) :
    ∃ stored : List StoredClass, stored.Pairwise (fun a b => a.className < b.className) ∧
      (∀ candidate, candidate ∈ stored ↔
        candidate.LiesBelow fs location ∧ allows candidate.className = true) ∧
      (allowedBelow fs root location allows).names = stored.map (·.className) := by
  have hnames := mem_allowedBelow_iff hfs hbuild root allows
  set names := (allowedBelow fs root location allows).names with hdefinition
  have hchoice : ∀ name, ∃ candidate : StoredClass,
      name ∈ names → candidate.LiesBelow fs location ∧ candidate.className = name := by
    intro name
    by_cases hname : name ∈ names
    · obtain ⟨-, candidate, h⟩ := (hnames name).1 hname
      exact ⟨candidate, fun _ => h⟩
    · exact ⟨⟨[], "", []⟩, fun h => absurd h hname⟩
  choose classOf hclassOf using hchoice
  have hmap : names = (names.map classOf).map (·.className) := by
    have hid : names.map ((·.className) ∘ classOf) = names.map id :=
      List.map_congr_left fun name hname => (hclassOf name hname).2
    rw [List.map_map, hid, List.map_id]
  refine ⟨names.map classOf, ?_, fun candidate => ?_, hmap⟩
  · have hascending : names.Pairwise (· < ·) := (allowedBelow fs root location allows).ascending
    rw [hmap] at hascending
    exact List.pairwise_map.1 hascending
  · rw [List.mem_map]
    constructor
    · rintro ⟨name, hname, rfl⟩
      obtain ⟨hlies, hclassName⟩ := hclassOf name hname
      rw [hclassName]
      exact ⟨hlies, ((hnames name).1 hname).1⟩
    · rintro ⟨hlies, hallowed⟩
      have hname := (hnames candidate.className).2 ⟨hallowed, candidate, hlies, rfl⟩
      obtain ⟨hother, heq⟩ := hclassOf _ hname
      exact ⟨candidate.className, hname, hother.eq_of_className_eq hbuild hlies heq⟩

/-- The report that no candidate was examined is right only where there is none. -/
lemma eq_nil_of_isResolved {root : Path} {options : SearchOptions} {stored : List StoredClass}
    (h : IsResolved root options stored (.error (.noEntryPoint options.marker 0))) :
    stored = [] := by
  generalize hanswer : Except.error (Failure.noEntryPoint options.marker 0) = answer at h
  cases h with
  | malformed => cases hanswer
  | failed hclasses hselected =>
    cases hanswer
    generalize hselection : Except.error (Failure.noEntryPoint options.marker 0) = selection
      at hselected
    cases hselected with
    | unmarked =>
      injection hselection with hfailure
      injection hfailure with _ hlength
      rw [← hclasses.length_eq] at hlength
      exact List.length_eq_zero_iff.1 hlength.symm
    | only => cases hselection
    | ambiguous => cases hselection
    | first => cases hselection
  | found => cases hanswer

/-- Below standard input, no candidate is examined. -/
lemma resolve_standardInput {fs : FileSystem} {root : Path} {location : Location}
    (hlocate : fs.locate root = .ok location) (hlocation : fs.get? location = some .directory)
    (hroot : root.isStandardInput = true) (source : ByteSource) (allows : String → Bool)
    (options : SearchOptions) :
    resolve fs root source allows options = .error (.noEntryPoint options.marker 0) := by
  have hselect : selectEntryPoint options [] = .error (.noEntryPoint options.marker 0) := by
    simp [selectEntryPoint, markedClasses]
  have hparse : parseCandidates source .empty options.parallel = .ok [] := by
    rw [parseCandidates_eq_mapM]
    rfl
  simp only [resolve, findClasses_standardInput hlocate hlocation hroot, resolveCandidates, hparse,
    hselect]

/-- Resolution in a plain build, with its root as output directory of the class path. There is a
list of the candidates, the class files below the root whose classes are allowed, in the ascending
order of their names. The answer is the one that they determine exactly if the root is not spelt as
standard input or there is no candidate; below standard input, no candidate is ever examined. -/
theorem resolve_output {fs : FileSystem} (hfs : fs.WellFormed) {root : Path} {location : Location}
    (hlocate : fs.locate root = .ok location) (hlocation : fs.get? location = some .directory)
    (hbuild : IsPlainBuild fs location) (allows : String → Bool) (options : SearchOptions)
    (added : FileSystem) (elements : List Path) :
    ∃ stored : List StoredClass, stored.Pairwise (fun a b => a.className < b.className) ∧
      (∀ candidate, candidate ∈ stored ↔
        candidate.LiesBelow fs location ∧ allows candidate.className = true) ∧
      (IsResolved root options stored
          (resolve fs root ((ClassPath.ofPaths added root elements).source fs) allows options) ↔
        root.isStandardInput = false ∨ stored = []) ∧
      (root.isStandardInput = true →
        resolve fs root ((ClassPath.ofPaths added root elements).source fs) allows options
          = .error (.noEntryPoint options.marker 0)) := by
  obtain ⟨stored, hascending, hstored, hnames⟩ := exists_stored hfs hbuild root allows
  refine ⟨stored, hascending, hstored, ?_⟩
  cases hroot : root.isStandardInput with
  | false =>
    have hload : ∀ candidate ∈ stored,
        loadCandidate ((ClassPath.ofPaths added root elements).source fs) candidate.className
          = (ClassFile.parse candidate.contents).mapError
              (.malformed candidate.className (some (candidate.path root))) := by
      intro candidate hcandidate
      obtain ⟨hlies, -⟩ := (hstored candidate).1 hcandidate
      have hfind := hlies.findInDirectory_className hfs hbuild hlocate
      exact loadCandidate_of_find (ClassPath.find_of_output hfind elements)
    have hresolved := isResolved_of_load options hnames hload
    have hanswer := findClasses_eq_allowedBelow hlocate hlocation hroot allows
    refine ⟨iff_of_true ?_ (Or.inl rfl), by simp⟩
    simp only [resolve, hanswer]
    exact hresolved
  | true =>
    have hanswer := resolve_standardInput hlocate hlocation hroot
      ((ClassPath.ofPaths added root elements).source fs) allows options
    refine ⟨?_, fun _ => hanswer⟩
    rw [hanswer]
    constructor
    · exact fun h => Or.inr (eq_nil_of_isResolved h)
    · rintro (h | rfl)
      · cases h
      · exact .failed .nil (.unmarked rfl)

/-- A class file that names the class `A` and carries the annotation `LM;`. -/
def markedClass : Bytes :=
  [0xCA, 0xFE, 0xBA, 0xBE, 0, 0, 0, 52]
    ++ [0, 5, 1, 0, 1, 65, 7, 0, 1, 1, 0, 25] ++ Bytes.ofText "RuntimeVisibleAnnotations"
    ++ [1, 0, 3] ++ Bytes.ofText "LM;"
    ++ [0, 33, 0, 2, 0, 0, 0, 0, 0, 0, 0, 0, 0, 1, 0, 3, 0, 0, 0, 6, 0, 1, 0, 4, 0, 0]

/-- A build that consists of the class file `A.class` in a directory. -/
def smallBuild (directory : String) (contents : Bytes) : FileSystem :=
  ⟨[([directory], .directory), ([directory, "A.class"], .file contents)], []⟩

/-- What lies below the directory of the small build. -/
lemma get?_smallBuild {directory : String} {contents : Bytes} {relative : Location} {entry : Entry}
    (h : (smallBuild directory contents).get? ([directory] ++ relative) = some entry) :
    relative = [] ∧ entry = .directory ∨ relative = ["A.class"] ∧ entry = .file contents := by
  simpa [smallBuild] using FileSystem.mem_entries_of_get? (by simp) h

/-- The only class below the directory of the small build is `A`. -/
lemma liesBelow_smallBuild_iff {directory : String} {contents : Bytes} {stored : StoredClass} :
    stored.LiesBelow (smallBuild directory contents) [directory]
      ↔ stored = ⟨[], "A", contents⟩ := by
  have hending : "A.class" = "A" ++ ClassName.classSuffix := rfl
  constructor
  · rintro ⟨-, h⟩
    rcases get?_smallBuild h with ⟨hnil, -⟩ | ⟨hrelative, hcontents⟩
    · exact absurd hnil stored.relative_ne_nil
    · obtain ⟨packages, stem, found⟩ := stored
      obtain rfl : found = contents := by
        simpa using hcontents
      rw [hending] at hrelative
      obtain ⟨rfl, hstem⟩ : packages = [] ∧ stem ++ ClassName.classSuffix
          = "A" ++ ClassName.classSuffix := by
        simpa [StoredClass.relative, List.append_eq_cons_iff] using hrelative
      rw [(String.append_left_inj _).1 hstem]
  · rintro rfl
    refine ⟨by simp, ?_⟩
    simp [smallBuild, StoredClass.relative, FileSystem.get?, ← hending, List.lookup_cons]

/-- The small build is plain. -/
lemma isPlainBuild_smallBuild (directory : String) (contents : Bytes) :
    IsPlainBuild (smallBuild directory contents) [directory] := by
  constructor
  · intro relative target h
    rcases get?_smallBuild h with ⟨-, hentry⟩ | ⟨-, hentry⟩
    · cases hentry
    · cases hentry
  · intro stored h
    rw [liesBelow_smallBuild_iff.1 h]
    intro name hname
    obtain rfl : name = "A" := by
      simpa [StoredClass.names] using hname
    decide

/-- Resolution finds the marked class of a small build. -/
theorem resolve_output_smallBuild :
    IsResolved ⟨"/out/"⟩ ⟨"LM;", .strict, true⟩ [⟨[], "A", markedClass⟩]
      (resolve (smallBuild "out" markedClass) ⟨"/out/"⟩
        ((ClassPath.ofPaths (smallBuild "out" markedClass) ⟨"/out/"⟩ [⟨"missing.jar"⟩]).source
          (smallBuild "out" markedClass)) (fun _ => true) ⟨"LM;", .strict, true⟩) := by
  have hfs : (smallBuild "out" markedClass).WellFormed := by
    decide +kernel
  have hlocate : (smallBuild "out" markedClass).locate ⟨"/out/"⟩ = .ok ["out"] := by
    decide +kernel
  obtain ⟨stored, hascending, hstored, hresolved, -⟩ := resolve_output hfs hlocate
    (by decide +kernel) (isPlainBuild_smallBuild "out" markedClass) (fun _ => true) ⟨"LM;", .strict, true⟩
    (smallBuild "out" markedClass) [⟨"missing.jar"⟩]
  have honly : stored = [⟨[], "A", markedClass⟩] := by
    have hmem : ∀ candidate, candidate ∈ stored ↔ candidate = ⟨[], "A", markedClass⟩ := by
      simpa [liesBelow_smallBuild_iff] using hstored
    match stored with
    | [] => simpa using hmem ⟨[], "A", markedClass⟩
    | [candidate] => rw [(hmem candidate).1 (by simp)]
    | first :: second :: rest =>
      have hlt := List.rel_of_pairwise_cons hascending List.mem_cons_self
      rw [(hmem first).1 (by simp), (hmem second).1 (by simp)] at hlt
      exact absurd hlt (Std.lt_irrefl)
  rw [honly] at hresolved
  exact hresolved.2 (Or.inl (by decide +kernel))

/-- A build in a directory called `-` has a class, which is no class file even, but resolution from
within the directory above reports that there is no candidate. -/
theorem resolve_standardInput_misses_class :
    (smallBuild "-" []).WellFormed ∧ (smallBuild "-" []).locate ⟨"-"⟩ = .ok ["-"] ∧
      IsPlainBuild (smallBuild "-" []) ["-"] ∧
      (∀ candidate : StoredClass, candidate.LiesBelow (smallBuild "-" []) ["-"] ↔
        candidate = ⟨[], "A", []⟩) ∧
      ¬IsResolved ⟨"-"⟩ ⟨defaultMarker, .strict, true⟩ [⟨[], "A", []⟩]
        (resolve (smallBuild "-" []) ⟨"-"⟩
          ((ClassPath.ofPaths (smallBuild "-" []) ⟨"-"⟩ []).source (smallBuild "-" []))
          (OwnershipFilter.ofFramework defaultFrameworkPackage).allows
          ⟨defaultMarker, .strict, true⟩) := by
  have hlocate : (smallBuild "-" []).locate ⟨"-"⟩ = .ok ["-"] := by
    decide +kernel
  refine ⟨by decide +kernel, hlocate, isPlainBuild_smallBuild "-" [],
    fun candidate => liesBelow_smallBuild_iff, fun h => ?_⟩
  rw [resolve_standardInput hlocate (by decide +kernel) (by decide +kernel)] at h
  cases eq_nil_of_isResolved h

end EntryPoint
