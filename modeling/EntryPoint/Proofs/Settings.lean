import EntryPoint.Proofs.Arguments
import EntryPoint.Proofs.Commands
import EntryPoint.Proofs.FirstHit

/-!
# Where the class path comes from

The elements of the class path are given by options, or else by a variable that joins them with
colons. Since empty parts of the variable are dropped, needless colons do not matter
(`splitPaths_joinPaths`), and both ways lead to the same class path (`classPath_of_settings`). In
front of its elements stands the root, and that is the one below which the classes are found.
-/

namespace EntryPoint.CommandLine

/-! ## Paths in a variable -/

/-- A text of paths with colons between them. In front of all paths stand some needless colons, and
behind each path as many as are given with it. -/
def joinPaths (leading : ℕ) (items : List (Path × ℕ)) : String :=
  String.ofList (List.replicate leading ':' ++ [':'].intercalate (items.map fun (path, needless) =>
    path.text.toList ++ List.replicate needless ':'))

/-- The parts of a text between colons that are not empty. -/
def pathParts (text : List Char) : List (List Char) :=
  (text.splitOn ':').filter fun part => !part.isEmpty

/-- The parts on both sides of a colon are those of the two texts there. -/
lemma pathParts_append_colon (before after : List Char) :
    pathParts (before ++ ':' :: after) = pathParts before ++ pathParts after := by
  rw [pathParts, List.splitOn_append_cons_self, List.filter_append]
  rfl

/-- Needless colons hold no parts. -/
lemma pathParts_append_replicate (text : List Char) (needless : ℕ) :
    pathParts (text ++ List.replicate needless ':') = pathParts text := by
  induction needless generalizing text with
  | zero => simp
  | succ needless ih =>
    have hnone : pathParts [] = [] := rfl
    rw [List.replicate_succ, pathParts_append_colon,
      ← List.nil_append (List.replicate needless ':'), ih, hnone, List.append_nil]

lemma pathParts_replicate_append (leading : ℕ) (text : List Char) :
    pathParts (List.replicate leading ':' ++ text) = pathParts text := by
  induction leading with
  | zero => simp
  | succ leading ih =>
    have hnone : pathParts [] = [] := rfl
    rw [List.replicate_succ, List.cons_append, ← List.nil_append (':' :: _), pathParts_append_colon,
      hnone, List.nil_append, ih]

/-- A path without a colon is one part. -/
lemma pathParts_text {path : Path} (hne : path.text ≠ "") (hcolon : ':' ∉ path.text.toList) :
    pathParts path.text.toList = [path.text.toList] := by
  have hnonempty : path.text.toList ≠ [] := by
    simpa using hne
  rw [pathParts, List.splitOn_eq_singleton hcolon]
  simp [hnonempty]

/-- The paths are read off the text that joins them. -/
theorem splitPaths_joinPaths (leading : ℕ) {items : List (Path × ℕ)}
    (hitems : ∀ item ∈ items, item.1.text ≠ "" ∧ ':' ∉ item.1.text.toList) :
    splitPaths (joinPaths leading items) = items.map Prod.fst := by
  have hparts : pathParts ([':'].intercalate (items.map fun (path, needless) =>
      path.text.toList ++ List.replicate needless ':'))
        = items.map fun item => item.1.text.toList := by
    induction items with
    | nil => rfl
    | cons item items ih =>
      obtain ⟨⟨hne, hcolon⟩, hrest⟩ := List.forall_mem_cons.1 hitems
      by_cases hnil : items = []
      · subst hnil
        simp [pathParts_append_replicate, pathParts_text hne hcolon]
      · rw [List.map_cons, List.map_cons, List.intercalate_cons_of_ne_nil (by simpa using hnil),
          List.append_assoc, List.singleton_append, pathParts_append_colon,
          pathParts_append_replicate, pathParts_text hne hcolon, ih hrest, List.singleton_append]
  rw [splitPaths, joinPaths, String.toList_ofList, ← pathParts, pathParts_replicate_append, hparts,
    List.map_map]
  refine List.map_congr_left fun item _ => ?_
  simp

/-! ## The root -/

/-- Which root the options and the environment name: that of the option, or else that of the
variable unless it is empty, or else the usual one. -/
inductive NamesRoot (options : Options) (environment : Environment) : Path → Prop where
  | ofOption {root : Path} (h : options.root = some root) : NamesRoot options environment root
  | ofVariable {text : String} (hoption : options.root = none)
    (h : environment.lookup rootVariable = some text) (hne : text ≠ "") :
    NamesRoot options environment ⟨text⟩
  | usual (hoption : options.root = none)
    (h : ∀ text, environment.lookup rootVariable = some text → text = "") :
    NamesRoot options environment ⟨"target/classes"⟩

lemma namesRoot_resolvedRoot (options : Options) (environment : Environment) :
    NamesRoot options environment (options.resolvedRoot environment) := by
  rw [Options.resolvedRoot]
  cases hoption : options.root with
  | some root => exact .ofOption hoption
  | none =>
    cases hvariable : environment.lookup rootVariable with
    | none => exact .usual hoption (by simp [hvariable])
    | some text =>
      by_cases hempty : text = ""
      · simp only [hempty, if_true]
        exact .usual hoption (by simp [hvariable, hempty])
      · simp only [hempty, if_false]
        exact .ofVariable hoption hvariable hempty

/-- Environments with the same variable for the root name the same root. -/
lemma resolvedRoot_congr {options : Options} {environment other : Environment}
    (h : other.lookup rootVariable = environment.lookup rootVariable) :
    options.resolvedRoot other = options.resolvedRoot environment := by
  rw [Options.resolvedRoot, Options.resolvedRoot, h]

/-- Whether a root is the place where the commands find classes, and the one that their class path
asks first. -/
structure SearchesRoot (options : Options) (environment : Environment) (fs : FileSystem)
    (root : Path) : Prop where
  /-- The classes that are listed are those found below the root. -/
  listed : runList options environment fs =
    match findClasses fs root options.ownership.allows with
    | .ok classes => .ok (.classes root classes.names)
    | .error failure => .error (.during ("Failed to scan " ++ root.text) (.ofFailure failure))
  /-- The classes that a resolution examines are those found below the root. -/
  resolved : ∀ milliseconds report, runResolve options environment milliseconds fs = .ok report →
    ∃ classes entryPoint, findClasses fs root options.ownership.allows = .ok classes ∧
      report = .resolved entryPoint classes.size milliseconds
  /-- Where the classes below the root cannot be found, a resolution fails for this reason. -/
  unresolved : ∀ milliseconds failure,
    findClasses fs root options.ownership.allows = .error failure →
      runResolve options environment milliseconds fs = .error (.ofFailure failure)
  /-- The root is the first element of the class path. -/
  first : (options.openClassPath environment fs).elements.head? = some (.directory root)
  /-- What the root answers is the answer. -/
  asked : ∀ later className, findInDirectory later root className ≠ .ok none →
    ((options.openClassPath environment fs).source later).find className
      = findInDirectory later root className

lemma searchesRoot_resolvedRoot (options : Options) (environment : Environment)
    (fs : FileSystem) :
    SearchesRoot options environment fs (options.resolvedRoot environment) where
  listed := rfl
  resolved milliseconds report h := by
    rw [runResolve] at h
    split at h
    · rename_i resolution hresolve
      obtain ⟨_, hfind, -⟩ := resolve_eq_ok_iff.1 hresolve
      exact ⟨resolution.candidates, resolution.entryPoint, hfind, (Except.ok.inj h).symm⟩
    · cases h
  unresolved milliseconds failure h := by
    simp only [runResolve, resolve, h]
  first := by
    rw [Options.openClassPath, ClassPath.elements_ofPaths]
    rfl
  asked later className h := by
    rw [Options.openClassPath, ClassPath.find_source_ofPaths]
    split
    · rename_i hnone
      exact absurd hnone h
    · rfl

/-! ## The class path -/

/-- The same options with other elements of the class path. -/
def Options.withClassPath (options : Options) (paths : List Path) : Options :=
  { options with classPath := paths }

/-- Where elements of the class path are given, they are its elements, whatever the variable
holds. -/
lemma openClassPath_of_ne_nil {options : Options} (h : options.classPath ≠ [])
    (environment : Environment) (fs : FileSystem) :
    options.openClassPath environment fs
      = .ofPaths fs (options.resolvedRoot environment) options.classPath := by
  rw [Options.openClassPath, Options.resolvedClassPath, if_pos h]

/-- Where no elements of the class path are given, they are those that the variable joins. -/
lemma openClassPath_of_joinPaths {options : Options} (hoptions : options.classPath = [])
    {environment : Environment} {leading : ℕ} {items : List (Path × ℕ)}
    (hitems : ∀ item ∈ items, item.1.text ≠ "" ∧ ':' ∉ item.1.text.toList)
    (h : environment.lookup classPathVariable = some (joinPaths leading items)) (fs : FileSystem) :
    options.openClassPath environment fs
      = .ofPaths fs (options.resolvedRoot environment) (items.map Prod.fst) := by
  have hgiven : ¬options.classPath ≠ [] := not_not.2 hoptions
  simp only [Options.openClassPath, Options.resolvedClassPath, if_neg hgiven, h,
    splitPaths_joinPaths leading hitems]

/-- Paths that are not empty and hold no colon can be given as elements of the class path by
repeated options, or be joined in the variable with any number of needless colons. Both ways lead to
the class path of the same root and the same paths, with the same number of elements and the same
answers at any later time. The root that this class path asks first is the one that is named by the
option, the variable or neither, and below which the classes are found that are listed or resolved.
Where any element is given by an option, the variable for the class path does not matter. -/
theorem classPath_of_settings {items : List (Path × ℕ)} (hne : items ≠ [])
    (hitems : ∀ item ∈ items, item.1.text ≠ "" ∧ ':' ∉ item.1.text.toList) {options : Options}
    (hoptions : options.classPath = []) {environment other : Environment} {leading : ℕ}
    (hvariable : environment.lookup classPathVariable = some (joinPaths leading items))
    (hroot : other.lookup rootVariable = environment.lookup rootVariable) (fs : FileSystem) :
    (∀ pieces arguments command, List.Forall₂ GivesElement (items.map Prod.fst) pieces →
      Invocation.parse arguments = .ok ⟨command, options⟩ →
        Invocation.parse (pieces.flatten ++ arguments)
          = .ok ⟨command, options.withClassPath (items.map Prod.fst)⟩) ∧
    ((options.withClassPath (items.map Prod.fst)).openClassPath other fs).size
      = (options.openClassPath environment fs).size ∧
    (∀ later className,
      (((options.withClassPath (items.map Prod.fst)).openClassPath other fs).source later).find
          className
        = ((options.openClassPath environment fs).source later).find className) ∧
    (∃ root, NamesRoot options environment root ∧
      (options.withClassPath (items.map Prod.fst)).openClassPath other fs
        = .ofPaths fs root (items.map Prod.fst) ∧
      options.openClassPath environment fs = .ofPaths fs root (items.map Prod.fst) ∧
      SearchesRoot (options.withClassPath (items.map Prod.fst)) other fs root ∧
      SearchesRoot options environment fs root) ∧
    ∀ flagged : Options, flagged.classPath ≠ [] → ∀ first second : Environment,
      first.lookup rootVariable = second.lookup rootVariable → ∀ opened later className,
        ((flagged.openClassPath first opened).source later).find className
          = ((flagged.openClassPath second opened).source later).find className := by
  have hflagged : (options.withClassPath (items.map Prod.fst)).classPath ≠ [] := by
    simpa [Options.withClassPath] using hne
  have hsameRoot : (options.withClassPath (items.map Prod.fst)).resolvedRoot other
      = options.resolvedRoot environment :=
    @resolvedRoot_congr options environment other hroot
  have hgiven : (options.withClassPath (items.map Prod.fst)).openClassPath other fs
      = .ofPaths fs (options.resolvedRoot environment) (items.map Prod.fst) := by
    rw [openClassPath_of_ne_nil hflagged, hsameRoot]
    rfl
  have hjoined := openClassPath_of_joinPaths hoptions hitems hvariable fs
  refine ⟨fun pieces arguments command hpieces hparse => ?_, ?_, fun later className => ?_,
    ⟨_, namesRoot_resolvedRoot options environment, hgiven, hjoined, ?_,
      searchesRoot_resolvedRoot options environment fs⟩, ?_⟩
  · have hpaths : ∀ path ∈ items.map Prod.fst, path.text ≠ "" := by
      intro path hpath
      obtain ⟨item, hitem, rfl⟩ := List.mem_map.1 hpath
      exact (hitems item hitem).1
    rw [parse_of_givesElement hpieces hpaths hparse, hoptions, List.append_nil]
    rfl
  · rw [hgiven, hjoined]
  · rw [hgiven, hjoined]
  · rw [← hsameRoot]
    exact searchesRoot_resolvedRoot _ other fs
  · intro flagged hne first second hsame opened later className
    rw [openClassPath_of_ne_nil hne, openClassPath_of_ne_nil hne, resolvedRoot_congr hsame]

/-- The options of a program that is told its root alone. -/
def rootedOptions : Options :=
  ⟨some ⟨"out"⟩, [], defaultMarker, defaultFrameworkPackage, [], false, none, false, .json, false⟩

/-- A directory and an archive are given by two options, each in another way, and then by a variable
with needless colons. Both class paths have three elements, and both find the class of the
directory; the variable is not looked at where the options are given. -/
theorem classPath_of_settings_libraries :
    joinPaths 1 [(⟨"lib"⟩, 2), (⟨"a.jar"⟩, 1)] = ":lib:::a.jar:" ∧
    Invocation.parse ["--classpath=lib", "--classpath", "a.jar", "--root", "out", "list"]
      = .ok ⟨.list, rootedOptions.withClassPath [⟨"lib"⟩, ⟨"a.jar"⟩]⟩ ∧
    (rootedOptions.openClassPath [(classPathVariable, ":lib:::a.jar:")] ClassPath.libraries).size
      = 3 ∧
    ((rootedOptions.openClassPath [(classPathVariable, ":lib:::a.jar:")]
      ClassPath.libraries).source ClassPath.libraries).find "A"
        = .ok (some ⟨[1], some ⟨"lib/A.class"⟩⟩) ∧
    (((rootedOptions.withClassPath [⟨"lib"⟩, ⟨"a.jar"⟩]).openClassPath
      [(classPathVariable, "missing.jar")] ClassPath.libraries).source ClassPath.libraries).find "A"
        = .ok (some ⟨[1], some ⟨"lib/A.class"⟩⟩) := by
  have htext : joinPaths 1 [(⟨"lib"⟩, 2), (⟨"a.jar"⟩, 1)] = ":lib:::a.jar:" := by
    decide
  have hplain : Invocation.parse ["--root", "out", "list"] = .ok ⟨.list, rootedOptions⟩ := by
    decide +kernel
  have hfound : (((rootedOptions.withClassPath [⟨"lib"⟩, ⟨"a.jar"⟩]).openClassPath []
      ClassPath.libraries).source ClassPath.libraries).find "A"
        = .ok (some ⟨[1], some ⟨"lib/A.class"⟩⟩) := by
    decide +kernel
  have hsize : ((rootedOptions.withClassPath [⟨"lib"⟩, ⟨"a.jar"⟩]).openClassPath []
      ClassPath.libraries).size = 3 := by
    decide +kernel
  have hvariable : List.lookup classPathVariable [(classPathVariable, ":lib:::a.jar:")]
      = some (joinPaths 1 [(⟨"lib"⟩, 2), (⟨"a.jar"⟩, 1)]) := by
    rw [htext]
    rfl
  obtain ⟨hparse, hsameSize, hsameFind, -, hignored⟩ :=
    @classPath_of_settings [(⟨"lib"⟩, 2), (⟨"a.jar"⟩, 1)] (by decide) (by decide) rootedOptions rfl
      [(classPathVariable, ":lib:::a.jar:")] [] 1 hvariable (by decide) ClassPath.libraries
  refine ⟨htext, ?_, hsameSize.symm.trans hsize, (hsameFind _ "A").symm.trans hfound, ?_⟩
  · exact hparse [["--classpath=lib"], ["--classpath", "a.jar"]] _ _
      (.cons .attached (.cons (.separate (by simp)) .nil)) hplain
  · rw [hignored _ (by decide) _ [] (by decide)]
    exact hfound

end EntryPoint.CommandLine
