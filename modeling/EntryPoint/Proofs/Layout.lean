import EntryPoint.Proofs.ClassFilePath
import EntryPoint.Proofs.FileSystem.Directories

/-!
# Laying classes out in a directory

Classes are stored below a root one after the other: the directories of the packages are made where
they are missing, and the bytes are written to the class file. No class is in the way of another
one. Two class files have different names, since the components of a class name can be read off its
path; and no class file lies where a package needs a directory, since its name has a dot and that of
a package has none. So in an empty directory every list of classes can be stored, and afterwards the
class files are there, the directories of their packages, and nothing else (`KeepsClasses`).
-/

namespace EntryPoint

open FileSystem (IsFileName MadeAlong)

/-! ## The file of a class -/

namespace ClassName

/-- A name between the dots of a class name. -/
structure IsComponent (name : String) : Prop where
  ne_empty : name ≠ ""
  dot : '.' ∉ name.toList
  slash : '/' ∉ name.toList
  null : '\x00' ∉ name.toList

/-- Whether a class name consists of components with dots between them. -/
def IsDotted (className : String) : Prop :=
  ∃ components, components ≠ [] ∧ (∀ name ∈ components, IsComponent name) ∧
    className = ofNames components

/-- The names that lead from the root to the file of a class. -/
def fileNames (className : String) : Location :=
  (⟨classPath className⟩ : Path).segments

/-- The names that lead from the root to the directory of the class's package. -/
def packages (className : String) : Location :=
  (fileNames className).dropLast

lemma fileNames_ne_nil (className : String) : fileNames className ≠ [] :=
  Path.segments_ne_nil _

/-- The file of a class has a dot in its name, and none of its packages has. -/
lemma exists_fileNames_eq (className : String) :
    ∃ last, fileNames className = packages className ++ [last] ∧ '.' ∈ last.toList ∧
      ∀ name ∈ packages className, '.' ∉ name.toList := by
  obtain ⟨front, last, hsegments, hpieces⟩ := exists_segments_classPath className
  have hpackages : packages className = front := by
    rw [packages, fileNames, hsegments, List.dropLast_concat]
  refine ⟨last ++ classSuffix, by rw [hpackages, fileNames, hsegments], ?_, ?_⟩
  · simp [classSuffix]
  · intro name hname hdot
    rw [hpackages] at hname
    exact (hpieces name (List.mem_append_left _ hname) '.' hdot).1 rfl

/-- No class file lies in the way of a package. -/
lemma not_fileNames_prefix_packages (className other : String) :
    ¬fileNames className <+: packages other := by
  obtain ⟨last, hnames, hdot, -⟩ := exists_fileNames_eq className
  obtain ⟨-, -, -, hother⟩ := exists_fileNames_eq other
  intro hpart
  refine hother last (hpart.subset ?_) hdot
  rw [hnames]
  exact List.mem_append_right _ (List.mem_singleton_self last)

section
variable {className : String} (h : IsDotted className)

include h

/-- The file of a class lies along its components, the last one with the ending of class files. -/
lemma IsDotted.exists_components :
    ∃ front last, (∀ name ∈ front ++ [last], IsComponent name) ∧
      className = ofNames (front ++ [last]) ∧
      fileNames className = front ++ [last ++ classSuffix] := by
  obtain ⟨components, hne, hcomponents, rfl⟩ := h
  obtain ⟨front, last, rfl⟩ := List.eq_nil_or_concat components |>.resolve_left hne
  rw [List.concat_eq_append] at *
  refine ⟨front, last, hcomponents, rfl, ?_⟩
  rw [fileNames, classPath_ofNames fun name hname => (hcomponents name hname).dot,
    ← Path.spell_concat_append, Path.segments_spell (by simp)]
  intro name hname
  rcases List.mem_append.1 hname with hfront | hlast
  · exact (hcomponents name (List.mem_append_left _ hfront)).slash
  · obtain rfl := List.mem_singleton.1 hlast
    have hslash := (hcomponents last (by simp)).slash
    simp [classSuffix, hslash]

/-- File names lead to the file of a class. -/
lemma IsDotted.isFileName {name : String} (hname : name ∈ fileNames className) :
    IsFileName name := by
  obtain ⟨front, last, hcomponents, -, hnames⟩ := h.exists_components
  rw [hnames] at hname
  rcases List.mem_append.1 hname with hfront | hlast
  · have hcomponent := hcomponents name (List.mem_append_left _ hfront)
    refine ⟨hcomponent.ne_empty, ?_, ?_, hcomponent.slash⟩
    · rintro rfl
      exact hcomponent.dot (by decide)
    · rintro rfl
      exact hcomponent.dot (by decide)
  · obtain rfl := List.mem_singleton.1 hlast
    have hslash := (hcomponents last (by simp)).slash
    exact ⟨append_classSuffix_ne last (by decide), append_classSuffix_ne last (by decide),
      append_classSuffix_ne last (by decide), by simp [classSuffix, hslash]⟩

/-- No two classes share a file. -/
theorem IsDotted.fileNames_injective {other : String} (hother : IsDotted other)
    (heq : fileNames className = fileNames other) : className = other := by
  obtain ⟨front, last, -, hname, hnames⟩ := h.exists_components
  obtain ⟨front', last', -, hname', hnames'⟩ := hother.exists_components
  rw [hnames, hnames'] at heq
  obtain ⟨rfl, hlast⟩ := List.append_inj' heq rfl
  have hstem : last = last' := (String.append_left_inj _).1 (List.singleton_injective hlast)
  rw [hname, hname', hstem]

/-- No two classes share an entry of an archive. -/
theorem IsDotted.classPath_injective {other : String} (hother : IsDotted other)
    (heq : classPath className = classPath other) : className = other :=
  h.fileNames_injective hother (by rw [fileNames, heq, fileNames])

end

end ClassName

open ClassName (IsDotted fileNames packages)

/-- A class is looked up at its names below the root. -/
lemma classFilePath_eq_child (root : Path) (className : String) :
    classFilePath root className = root.child (fileNames className) := by
  rw [classFilePath, Path.child, fileNames, Path.spell_segments]

/-! ## Storing -/

/-- Makes the directories of the packages of a class below a root, where it has any. -/
def makePackages (root : Path) (fs : FileSystem) (className : String) :
    Except SystemFault Unit × FileSystem :=
  match packages className with
  | [] => (.ok (), fs)
  | names => fs.makeDirectories (root.child names)

/-- Stores the bytes of a class below a root. -/
def storeClass (root : Path) (fs : FileSystem) (stored : String × Bytes) :
    Except SystemFault FileSystem :=
  match makePackages root fs stored.1 with
  | (.error fault, _) => .error fault
  | (.ok (), fs) => fs.write (classFilePath root stored.1) stored.2

/-- Stores the bytes of classes, one after the other. -/
def storeClasses (root : Path) (fs : FileSystem) (classes : List (String × Bytes)) :
    Except SystemFault FileSystem :=
  classes.foldlM (storeClass root) fs

/-- Whether a directory keeps the files of the given classes, the directories of their packages and
nothing else. -/
structure KeepsClasses (fs : FileSystem) (location : Location) (classes : List (String × Bytes)) :
    Prop where
  wellFormed : fs.WellFormed
  directory : fs.get? location = some .directory
  files : ∀ stored ∈ classes, fs.get? (location ++ fileNames stored.1) = some (.file stored.2)
  others : ∀ relative entry, relative ≠ [] → fs.get? (location ++ relative) = some entry →
    ∃ stored ∈ classes, relative = fileNames stored.1 ∧ entry = .file stored.2 ∨
      relative <+: packages stored.1 ∧ entry = .directory

/-- Making the directories of a package changes nothing in the places of class files. -/
lemma FileSystem.MadeAlong.get?_fileNames {fs made : FileSystem} {location : Location}
    {className : String} (h : MadeAlong fs location (packages className) made) (other : String) :
    made.get? (location ++ fileNames other) = fs.get? (location ++ fileNames other) := by
  refine h.others _ fun part hpart heq => ?_
  rw [List.append_right_inj] at heq
  exact ClassName.not_fileNames_prefix_packages other className (heq ▸ hpart)

namespace KeepsClasses
variable {fs : FileSystem} {location : Location} {classes : List (String × Bytes)}
  (h : KeepsClasses fs location classes)

include h

/-- There are no links. -/
lemma noLink (relative : Location) (target : String) :
    fs.get? (location ++ relative) ≠ some (.link target) := by
  intro hentry
  by_cases hne : relative = []
  · rw [hne, List.append_nil, h.directory] at hentry
    cases hentry
  · obtain ⟨stored, -, ⟨-, hfile⟩ | ⟨-, hdirectory⟩⟩ := h.others relative _ hne hentry
    · cases hfile
    · cases hdirectory

/-- What lies in the way of a package is a directory. -/
lemma eq_directory_of_prefix {className : String} {part : Location}
    (hpart : part <+: packages className) {entry : Entry}
    (hentry : fs.get? (location ++ part) = some entry) : entry = .directory := by
  by_cases hne : part = []
  · rw [hne, List.append_nil, h.directory] at hentry
    exact (Option.some.inj hentry).symm
  · obtain ⟨stored, -, ⟨rfl, -⟩ | ⟨-, hdirectory⟩⟩ := h.others part entry hne hentry
    · exact absurd hpart (ClassName.not_fileNames_prefix_packages stored.1 className)
    · exact hdirectory

variable (hdotted : ∀ stored ∈ classes, IsDotted stored.1)

include hdotted

/-- What lies in the place of a class file belongs to a class of that name. -/
lemma exists_of_get? {className : String} (hname : IsDotted className) {entry : Entry}
    (hentry : fs.get? (location ++ fileNames className) = some entry) :
    ∃ contents, (className, contents) ∈ classes ∧ entry = .file contents := by
  obtain ⟨⟨other, contents⟩, hmem, ⟨hnames, hfile⟩ | ⟨hpart, -⟩⟩ :=
    h.others _ entry (ClassName.fileNames_ne_nil className) hentry
  · obtain rfl := hname.fileNames_injective (hdotted _ hmem) hnames
    exact ⟨contents, hmem, hfile⟩
  · exact absurd hpart (ClassName.not_fileNames_prefix_packages className other)

/-- The path of a class file leads to the bytes of the class, if the class is there. -/
theorem status_classFilePath_iff {root : Path} (hroot : fs.locate root = .ok location)
    {className : String} (hname : IsDotted className) {contents : Bytes} :
    fs.status (classFilePath root className) = .ok (.file contents) ↔
      (className, contents) ∈ classes := by
  rw [classFilePath_eq_child, h.wellFormed.status_child_iff hroot h.directory
    (ClassName.fileNames_ne_nil className) (fun name => hname.isFileName)
    fun part _ => h.noLink part]
  constructor
  · intro hentry
    obtain ⟨found, hmem, hfile⟩ := h.exists_of_get? hdotted hname hentry
    cases hfile
    exact hmem
  · exact h.files (className, contents)

/-! ## One more class -/

section
variable {root : Path} (hroot : fs.locate root = .ok location) {className : String}
  (hname : IsDotted className)

include hroot hname

omit hdotted in
/-- The directories of the packages of a class can be made. -/
lemma makePackages :
    ∃ made, makePackages root fs className = (.ok (), made) ∧
      MadeAlong fs location (packages className) made := by
  have hnames : ∀ name ∈ packages className, IsFileName name := fun name hmem =>
    hname.isFileName (List.dropLast_subset _ hmem)
  rw [EntryPoint.makePackages]
  split
  · rename_i hnil
    refine ⟨fs, rfl, h.wellFormed.madeAlong ?_⟩
    rw [hnil, List.append_nil, h.directory]
  · rename_i hne
    exact h.wellFormed.makeDirectories_child hroot h.directory hne hnames
      fun part hpart entry => h.eq_directory_of_prefix hpart

variable (hnew : ∀ contents, (className, contents) ∉ classes) {made : FileSystem}
  (hmade : MadeAlong fs location (packages className) made)

include hnew hmade

omit hroot in
/-- Once the directories of its packages are made, the file of a new class is free. -/
lemma free_of_madeAlong : made.get? (location ++ fileNames className) = none := by
  rw [hmade.get?_fileNames, Option.eq_none_iff_forall_ne_some]
  intro entry hentry
  obtain ⟨contents, hmem, -⟩ := h.exists_of_get? hdotted hname hentry
  exact hnew contents hmem

omit hroot in
/-- With the file of a new class in the directory of its package, the class is kept too. -/
lemma set_file (contents : Bytes) :
    KeepsClasses (made.set (location ++ fileNames className) (.file contents)) location
      (classes ++ [(className, contents)]) := by
  have hfree := h.free_of_madeAlong hdotted hname hnew hmade
  have hplace : location ++ fileNames className ≠ [] := by
    simp [ClassName.fileNames_ne_nil]
  have hothers : ∀ relative, relative ≠ fileNames className →
      (made.set (location ++ fileNames className) (.file contents)).get? (location ++ relative)
        = made.get? (location ++ relative) := fun relative hne =>
    FileSystem.get?_set_of_ne made _ fun heq => hne (List.append_cancel_left heq)
  refine ⟨?_, ?_, ?_, ?_⟩
  · obtain ⟨last, hsplit, -⟩ := ClassName.exists_fileNames_eq className
    have hlast : IsFileName last := hname.isFileName (by simp [hsplit])
    rw [hsplit, ← List.append_assoc] at hfree ⊢
    refine hmade.wellFormed.set hlast (hmade.directory _ List.prefix_rfl) (Or.inr ?_)
    rw [hfree]
    simp
  · have hroot := hothers [] (ClassName.fileNames_ne_nil className).symm
    rw [List.append_nil] at hroot
    rw [hroot]
    simpa using hmade.directory [] List.nil_prefix
  · rintro ⟨other, stored⟩ hmem
    rcases List.mem_append.1 hmem with hold | hmem
    · have hnames : fileNames other ≠ fileNames className := by
        intro heq
        obtain rfl := (hdotted _ hold).fileNames_injective hname heq
        exact hnew stored hold
      rw [hothers _ hnames, hmade.get?_fileNames]
      exact h.files (other, stored) hold
    · cases List.mem_singleton.1 hmem
      exact FileSystem.get?_set_self made _ hplace
  · intro relative entry hrelative hentry
    by_cases hfile : relative = fileNames className
    · rw [hfile, FileSystem.get?_set_self made _ hplace] at hentry
      exact ⟨(className, contents), by simp, Or.inl ⟨hfile, (Option.some.inj hentry).symm⟩⟩
    rw [hothers relative hfile] at hentry
    by_cases hpart : relative <+: packages className
    · rw [hmade.directory relative hpart] at hentry
      exact ⟨(className, contents), by simp, Or.inr ⟨hpart, (Option.some.inj hentry).symm⟩⟩
    · have hkept := hmade.others (location ++ relative) fun part hother heq =>
        hpart (List.append_cancel_left heq ▸ hother)
      rw [hkept] at hentry
      obtain ⟨stored, hmem, hlies⟩ := h.others relative entry hrelative hentry
      exact ⟨stored, List.mem_append_left _ hmem, hlies⟩

omit hmade in
/-- A further class can be stored, and nothing else changes. -/
theorem storeClass (contents : Bytes) :
    ∃ changed, storeClass root fs (className, contents) = .ok changed ∧
      KeepsClasses changed location (classes ++ [(className, contents)]) ∧
      fs.KeepsWays changed ∧
      ∀ other, ¬location <+: other → changed.get? other = fs.get? other := by
  obtain ⟨last, hsplit, -⟩ := ClassName.exists_fileNames_eq className
  obtain ⟨made, hpackages, hmade⟩ := h.makePackages hroot hname
  have hfree := h.free_of_madeAlong hdotted hname hnew hmade
  have hkept := h.set_file hdotted hname hnew hmade contents
  have hroot' : made.locate root = .ok location := hmade.keepsWays.locate hroot h.directory
  have hwrite : made.write (classFilePath root className) contents
      = .ok (made.set (location ++ fileNames className) (.file contents)) := by
    have hlast : IsFileName last := hname.isFileName (by simp [hsplit])
    rw [hsplit, ← List.append_assoc] at hfree ⊢
    rw [classFilePath_eq_child, hsplit, FileSystem.write,
      hmade.wellFormed.place_child_vacant hroot' hlast (hmade.directory _ List.prefix_rfl) hfree]
  have hkeeps : made.KeepsWays (made.set (location ++ fileNames className) (.file contents)) :=
    FileSystem.keepsWays_set _ fun found hfound => by
      rw [hfree] at hfound
      cases hfound
  refine ⟨_, ?_, hkept, hmade.keepsWays.trans hkeeps, ?_⟩
  · simp only [EntryPoint.storeClass, hpackages, hwrite]
  · intro other hother
    have hbelow : ∀ relative, other ≠ location ++ relative := by
      rintro relative rfl
      exact hother (List.prefix_append location relative)
    rw [FileSystem.get?_set_of_ne _ _ (hbelow _), hmade.others _ fun part _ => hbelow part]

end

end KeepsClasses

/-- Classes with names of their own can be stored where none of them is kept yet. -/
theorem KeepsClasses.storeClasses {fs : FileSystem} {root : Path} {location : Location}
    (hroot : fs.locate root = .ok location) {classes more : List (String × Bytes)}
    (h : KeepsClasses fs location classes)
    (hdotted : ∀ stored ∈ classes ++ more, IsDotted stored.1)
    (hkeys : ((classes ++ more).map Prod.fst).Nodup) :
    ∃ changed, storeClasses root fs more = .ok changed ∧
      KeepsClasses changed location (classes ++ more) ∧
      fs.KeepsWays changed ∧
      ∀ other, ¬location <+: other → changed.get? other = fs.get? other := by
  induction more generalizing fs classes with
  | nil =>
    rw [List.append_nil]
    exact ⟨fs, rfl, h, .refl fs, fun _ _ => rfl⟩
  | cons stored more ih =>
    obtain ⟨className, contents⟩ := stored
    have hold : ∀ stored ∈ classes, IsDotted stored.1 := fun stored hmem =>
      hdotted stored (List.mem_append_left _ hmem)
    have hname : IsDotted className := hdotted (className, contents) (by simp)
    have hnew : ∀ contents, (className, contents) ∉ classes := by
      intro other hmem
      rw [List.map_append, List.nodup_append] at hkeys
      exact hkeys.2.2 className (List.mem_map_of_mem hmem) className (by simp) rfl
    obtain ⟨middle, hstore, hmiddle, hkeeps, hothers⟩ :=
      h.storeClass hold hroot hname hnew contents
    have hroot' : middle.locate root = .ok location := hkeeps.locate hroot h.directory
    have hsplit : classes ++ (className, contents) :: more
        = classes ++ [(className, contents)] ++ more := by
      simp
    rw [hsplit] at hdotted hkeys ⊢
    obtain ⟨changed, hrest, hchanged, hkeeps', hothers'⟩ := ih hroot' hmiddle hdotted hkeys
    refine ⟨changed, ?_, hchanged, hkeeps.trans hkeeps', fun other hother => ?_⟩
    · rw [EntryPoint.storeClasses, List.foldlM_cons, hstore]
      exact hrest
    · rw [hothers' other hother, hothers other hother]

end EntryPoint
