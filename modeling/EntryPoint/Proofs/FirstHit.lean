import EntryPoint.Proofs.Lookup

/-!
# The first element that answers

A class path asks its elements in order and takes the first answer that is not `none`, be it the
bytes of the class or a failure (`IsFirstAnswer`). So what lies behind the element that answers does
not matter, and neither does an element that was asked before and had no answer. This holds whatever
has become of the elements since they were added: which elements there are is decided when they are
added, and what they answer when they are asked.
-/

namespace EntryPoint

namespace ByteSource

/-! ## Sources in order -/

/-- Whether an answer is that of the first source that has one, or `none` if no source has one. -/
inductive IsFirstAnswer (className : String) :
    List ByteSource → Except Failure (Option ClassBytes) → Prop where
  | answered {before after : List ByteSource} {source : ByteSource}
    {answer : Except Failure (Option ClassBytes)}
    (hbefore : ∀ other ∈ before, other.find className = .ok none)
    (h : source.find className = answer) (hanswer : answer ≠ .ok none) :
    IsFirstAnswer className (before ++ source :: after) answer
  | passed {sources : List ByteSource} (h : ∀ source ∈ sources, source.find className = .ok none) :
    IsFirstAnswer className sources (.ok none)

variable {className : String}

/-- Sources that have an answer keep it, and sources that have none leave it to those behind
them. -/
lemma find_firstOf_append (sources others : List ByteSource) (className : String) :
    (firstOf (sources ++ others)).find className
      = match (firstOf sources).find className with
        | .ok none => (firstOf others).find className
        | answer => answer := by
  induction sources with
  | nil => rfl
  | cons source sources ih =>
    rw [List.cons_append, find_firstOf_cons, find_firstOf_cons, ih]
    cases hanswer : source.find className with
    | error failure => rfl
    | ok found => cases found <;> rfl

/-- What follows an answer does not matter. -/
lemma find_firstOf_append_of_ne {sources : List ByteSource}
    (h : (firstOf sources).find className ≠ .ok none) (others : List ByteSource) :
    (firstOf (sources ++ others)).find className = (firstOf sources).find className := by
  rw [find_firstOf_append]
  split
  · rename_i hnone
    exact absurd hnone h
  · rfl

/-- Sources that have no answer do not matter. -/
lemma find_firstOf_append_of_none {sources : List ByteSource}
    (h : (firstOf sources).find className = .ok none) (others : List ByteSource) :
    (firstOf (sources ++ others)).find className = (firstOf others).find className := by
  rw [find_firstOf_append, h]

/-- There is no answer exactly if no source has one. -/
lemma find_firstOf_eq_none_iff {sources : List ByteSource} :
    (firstOf sources).find className = .ok none ↔
      ∀ source ∈ sources, source.find className = .ok none := by
  induction sources with
  | nil => simp [firstOf]
  | cons source sources ih =>
    rw [find_firstOf_cons, List.forall_mem_cons, ← ih]
    cases hanswer : source.find className with
    | error failure => simp
    | ok found => cases found <;> simp

/-- The answer of sources in order is that of the first one that has an answer. -/
theorem find_firstOf_eq_iff {sources : List ByteSource}
    {answer : Except Failure (Option ClassBytes)} :
    (firstOf sources).find className = answer ↔ IsFirstAnswer className sources answer := by
  constructor
  · rintro rfl
    induction sources with
    | nil => exact .passed (by simp)
    | cons source sources ih =>
      rw [find_firstOf_cons]
      split
      · rename_i hnone
        generalize (firstOf sources).find className = answer at ih
        cases ih with
        | answered hbefore h hanswer =>
          rw [← List.cons_append]
          exact .answered (List.forall_mem_cons.2 ⟨hnone, hbefore⟩) h hanswer
        | passed h => exact .passed (List.forall_mem_cons.2 ⟨hnone, h⟩)
      · rename_i hanswer
        have hfirst : IsFirstAnswer className ([] ++ source :: sources) (source.find className) :=
          .answered (by simp) rfl hanswer
        exact hfirst
  · rintro (⟨hbefore, rfl, hanswer⟩ | h)
    · rw [find_firstOf_append_of_none (find_firstOf_eq_none_iff.2 hbefore), find_firstOf_cons]
      split
      · rename_i hnone
        exact absurd hnone hanswer
      · rfl
    · exact find_firstOf_eq_none_iff.2 h

/-- A source that has been asked before is not needed. -/
lemma find_firstOf_again {before : List ByteSource} {source : ByteSource} (h : source ∈ before)
    (after : List ByteSource) :
    (firstOf (before ++ source :: after)).find className
      = (firstOf (before ++ after)).find className := by
  by_cases hbefore : (firstOf before).find className = .ok none
  · have hnone := find_firstOf_eq_none_iff.1 hbefore source h
    rw [find_firstOf_append_of_none hbefore, find_firstOf_append_of_none hbefore,
      find_firstOf_cons, hnone]
  · rw [find_firstOf_append_of_ne hbefore, find_firstOf_append_of_ne hbefore]

end ByteSource

namespace ClassPath

/-! ## Paths that are added -/

/-- Which elements a class path keeps of the paths that are added to it: those that were directories
when they were added, and those that were files with the extension of archives. -/
inductive Keeps : List Addition → List ClassPathElement → Prop where
  | none : Keeps [] []
  | directory {addition : Addition} {additions : List Addition} {elements : List ClassPathElement}
    (h : addition.system.isDirectory addition.path = true) (hrest : Keeps additions elements) :
    Keeps (addition :: additions) (.directory addition.path :: elements)
  | archive {addition : Addition} {additions : List Addition} {elements : List ClassPathElement}
    (h : addition.system.isFile addition.path = true)
    (hextension : addition.path.extension? = some "jar" ∨ addition.path.extension? = some "zip")
    (hrest : Keeps additions elements) :
    Keeps (addition :: additions) (.archive addition.path :: elements)
  | passedOver {addition : Addition} {additions : List Addition} {elements : List ClassPathElement}
    (hdirectory : addition.system.isDirectory addition.path = false)
    (harchive : addition.system.isFile addition.path = true →
      addition.path.extension? ≠ some "jar" ∧ addition.path.extension? ≠ some "zip")
    (hrest : Keeps additions elements) :
    Keeps (addition :: additions) elements

/-- The extensions of archives are `jar` and `zip`. -/
lemma any_contains_archiveExtensions_iff {extension? : Option String} :
    extension?.any archiveExtensions.contains = true ↔
      extension? = some "jar" ∨ extension? = some "zip" := by
  cases extension? <;> simp [archiveExtensions]

/-- The elements of a class path behind its output directory are those that it keeps. -/
lemma keeps_elements (additions : List Addition) :
    Keeps additions (additions.filterMap Addition.element?) := by
  induction additions with
  | nil => exact .none
  | cons addition additions ih =>
    have harchive := @any_contains_archiveExtensions_iff addition.path.extension?
    by_cases hdirectory : addition.system.isDirectory addition.path = true
    · have helement : addition.element? = some (.directory addition.path) := by
        simp only [Addition.element?, ClassPathElement.ofPath?, hdirectory, if_true]
      rw [List.filterMap_cons_some helement]
      exact .directory hdirectory ih
    rw [Bool.not_eq_true] at hdirectory
    by_cases hkept : addition.system.isFile addition.path = true ∧
        addition.path.extension?.any archiveExtensions.contains = true
    · have helement : addition.element? = some (.archive addition.path) := by
        simp only [Addition.element?, ClassPathElement.ofPath?, hdirectory, hkept.1, hkept.2,
          Bool.and_self, Bool.false_eq_true, if_true, if_false]
      rw [List.filterMap_cons_some helement]
      exact .archive hkept.1 (harchive.1 hkept.2) ih
    · have helement : addition.element? = none := by
        simp only [Addition.element?, ClassPathElement.ofPath?, hdirectory, Bool.and_eq_true, hkept,
          Bool.false_eq_true, if_false]
      rw [List.filterMap_cons_none helement]
      refine .passedOver hdirectory (fun hfile => ?_) ih
      rw [not_and, harchive, not_or] at hkept
      exact hkept hfile

/-- The class path asks for a class in the elements that it keeps, the output directory first. -/
lemma find_source_ofAdditions (fs : FileSystem) (output : Path) (additions : List Addition)
    (className : String) :
    ((ofAdditions output additions).source fs).find className
      = (ByteSource.firstOf ((ClassPathElement.directory output ::
          additions.filterMap Addition.element?).map (·.source fs))).find className := by
  rw [source, elements_ofAdditions]

/-- What a class path answers is the answer of the first element that it keeps and that has one,
with the output directory before all others: the bytes of the class or a failure. If no element has
an answer, the class is not found. Hence no addition behind them changes the answer once there is
one, and a path that is added again never changes it, be it in the same state of the file system or
in a state where it is still what it was when it was added before. -/
theorem find_isFirstAnswer (output : Path) (additions : List Addition) (fs : FileSystem)
    (className : String) :
    (∃ kept, (ofAdditions output additions).elements = .directory output :: kept ∧
      Keeps additions kept ∧
      ByteSource.IsFirstAnswer className
        ((ClassPathElement.directory output :: kept).map (·.source fs))
        (((ofAdditions output additions).source fs).find className)) ∧
    (((ofAdditions output additions).source fs).find className = .ok none →
      ((ofAdditions output additions).source fs).read className
        = .error (.classNotFound className)) ∧
    (((ofAdditions output additions).source fs).find className ≠ .ok none →
      ∀ more, ((ofAdditions output (additions ++ more)).source fs).find className
        = ((ofAdditions output additions).source fs).find className) ∧
    ∀ before again after, additions = before ++ again :: after →
      (∃ first ∈ before, first.path = again.path ∧
        (first.system = again.system ∨ first.element? = again.element?)) →
      ((ofAdditions output additions).source fs).find className
        = ((ofAdditions output (before ++ after)).source fs).find className := by
  refine ⟨⟨_, elements_ofAdditions output additions, keeps_elements additions, ?_⟩, ?_, ?_, ?_⟩
  · rw [← ByteSource.find_firstOf_eq_iff, find_source_ofAdditions]
  · intro h
    simp only [ByteSource.read, h]
  · intro h more
    rw [find_source_ofAdditions] at h ⊢
    rw [find_source_ofAdditions, List.filterMap_append, ← List.cons_append, List.map_append,
      ByteSource.find_firstOf_append_of_ne h]
  · rintro before again after rfl ⟨first, hfirst, hpath, hstate⟩
    have hsame : first.element? = again.element? := by
      rcases hstate with hsystem | hsame
      · rw [Addition.element?, hpath, hsystem, Addition.element?]
      · exact hsame
    rw [find_source_ofAdditions, find_source_ofAdditions, List.filterMap_append,
      List.filterMap_append]
    cases helement : again.element? with
    | none => rw [List.filterMap_cons_none helement]
    | some element =>
      have hmem : element ∈ before.filterMap Addition.element? :=
        List.mem_filterMap.2 ⟨first, hfirst, hsame.trans helement⟩
      rw [List.filterMap_cons_some helement, ← List.cons_append, ← List.cons_append,
        List.map_append, List.map_append, List.map_cons (a := element)]
      exact ByteSource.find_firstOf_again
        (List.mem_map.2 ⟨element, List.mem_cons_of_mem _ hmem, rfl⟩) _

/-- A directory, a text file and an archive in the current directory. -/
def libraries : FileSystem :=
  ⟨[(["lib"], .directory), (["lib", "A.class"], .file [1]), (["notes.txt"], .file [2]),
    (["a.jar"], .file [3])], []⟩

/-- Once the directory has gone, the class path over these libraries fails at the archive, which is
none. The text file was passed over, and neither the directory that is added again nor the archive
that comes last matters. -/
theorem find_isFirstAnswer_libraries :
    ((ofPaths libraries ⟨"out"⟩ [⟨"lib"⟩, ⟨"notes.txt"⟩, ⟨"lib"⟩, ⟨"a.jar"⟩, ⟨"a.jar"⟩]).source
      (libraries.eraseTree ["lib"])).find "A" = .error (.archive ⟨"a.jar"⟩ .tooShort) := by
  have hfirst : ((ofPaths libraries ⟨"out"⟩ [⟨"lib"⟩, ⟨"notes.txt"⟩, ⟨"a.jar"⟩]).source
      (libraries.eraseTree ["lib"])).find "A" = .error (.archive ⟨"a.jar"⟩ .tooShort) := by
    decide +kernel
  rw [ofPaths_eq_ofAdditions] at hfirst ⊢
  obtain ⟨-, -, -, hagain⟩ := find_isFirstAnswer ⟨"out"⟩
    ([⟨"lib"⟩, ⟨"notes.txt"⟩, ⟨"lib"⟩, ⟨"a.jar"⟩, ⟨"a.jar"⟩].map (⟨·, libraries⟩))
    (libraries.eraseTree ["lib"]) "A"
  obtain ⟨-, -, hmore, -⟩ := find_isFirstAnswer ⟨"out"⟩
    ([⟨"lib"⟩, ⟨"notes.txt"⟩, ⟨"a.jar"⟩].map (⟨·, libraries⟩)) (libraries.eraseTree ["lib"]) "A"
  rw [hagain [⟨⟨"lib"⟩, libraries⟩, ⟨⟨"notes.txt"⟩, libraries⟩] ⟨⟨"lib"⟩, libraries⟩
    [⟨⟨"a.jar"⟩, libraries⟩, ⟨⟨"a.jar"⟩, libraries⟩] rfl
    ⟨⟨⟨"lib"⟩, libraries⟩, List.mem_cons_self, rfl, .inl rfl⟩]
  rw [← hfirst]
  exact hmore (by rw [hfirst]; simp) [⟨⟨"a.jar"⟩, libraries⟩]

end ClassPath

end EntryPoint
