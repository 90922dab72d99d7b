import EntryPoint.Manifest.Storage
import EntryPoint.Proofs.FileSystem.Walking

/-!
# What writing a manifest does

Writing goes through three changes of the file system: the directory is made, the temporary file is
written, and the temporary file takes the place of the manifest. `Record.written` says what remains
of them at the end: the manifest alone, or nothing at all where a file stands in the way of the
directory or a directory in the way of the manifest.
-/

namespace EntryPoint.Manifest

open FileSystem (IsFileName)

/-! ## The paths and their locations -/

/-- The location of the manifest's directory for a root at a given location. -/
def directoryAt (location : Location) : Location :=
  location ++ ["META-INF"]

/-- The location of the manifest. -/
def fileAt (location : Location) : Location :=
  location ++ ["META-INF", "MANIFEST.MF"]

/-- The location of the temporary file. -/
def temporaryAt (location : Location) : Location :=
  location ++ ["META-INF", "MANIFEST.MF.tmp"]

lemma isFileName_directory : IsFileName "META-INF" :=
  ⟨by decide, by decide, by decide, by decide⟩

lemma isFileName_file : IsFileName "MANIFEST.MF" :=
  ⟨by decide, by decide, by decide, by decide⟩

lemma isFileName_temporary : IsFileName "MANIFEST.MF.tmp" :=
  ⟨by decide, by decide, by decide, by decide⟩

/-- The manifest and the temporary file are different places. -/
lemma fileAt_ne_temporaryAt (location : Location) : fileAt location ≠ temporaryAt location := by
  simp [fileAt, temporaryAt]

lemma fileAt_eq (location : Location) :
    fileAt location = directoryAt location ++ ["MANIFEST.MF"] := by
  simp [fileAt, directoryAt]

lemma temporaryAt_eq (location : Location) :
    temporaryAt location = directoryAt location ++ ["MANIFEST.MF.tmp"] := by
  simp [temporaryAt, directoryAt]

/-- The manifest's directory is what lies below the root under its name. -/
lemma directoryPath_eq (root : Path) : directoryPath root = root.child ["META-INF"] :=
  rfl

/-- The manifest is what lies in its directory under its name. -/
lemma filePath_eq (root : Path) :
    filePath root = (directoryPath root).child ["MANIFEST.MF"] :=
  rfl

/-- The temporary file lies beside the manifest. -/
lemma temporaryPath_eq (root : Path) :
    temporaryPath root = (directoryPath root).child ["MANIFEST.MF.tmp"] := by
  apply Path.eq_of_text_eq
  rw [temporaryPath, filePath_eq,
    Path.text_child _ (by simp) (by simpa using isFileName_file),
    Path.text_child _ (by simp) (by simpa using isFileName_temporary), String.append_assoc]
  rfl

/-- The manifest's directory is made before its parents are looked at. -/
lemma exists_lineage_directoryPath (root : Path) :
    ∃ parents, (directoryPath root).lineage = directoryPath root :: parents := by
  rw [directoryPath_eq]
  exact ⟨_, Path.lineage_child_concat root [] (by simpa using isFileName_directory)⟩

/-! ## The three changes -/

section
variable {fs : FileSystem} (hfs : fs.WellFormed) {root : Path} {location : Location}
  (hroot : fs.locate root = .ok location)

include hfs hroot in
/-- What lies in the place of the manifest's directory is found by its path, unless it is a link. -/
lemma locate_directoryPath {entry : Entry} (h : fs.get? (directoryAt location) = some entry)
    (hlink : ∀ target, entry ≠ .link target) :
    fs.locate (directoryPath root) = .ok (directoryAt location) := by
  rw [FileSystem.locate, directoryPath_eq, hfs.place_child_found hroot (by simp) h (fun _ => hlink)]
  rfl

include hfs hroot in
/-- The manifest's directory is made if nothing lies in its place. -/
lemma makeDirectories_vacant (hlocation : fs.get? location = some .directory)
    (h : fs.get? (directoryAt location) = none) :
    fs.makeDirectories (directoryPath root)
      = (.ok (), fs.set (directoryAt location) .directory) := by
  obtain ⟨parents, hlineage⟩ := exists_lineage_directoryPath root
  have hhere : fs.get? (location ++ []) = some .directory := by
    rwa [List.append_nil]
  have hplace := hfs.place_child_vacant hroot isFileName_directory hhere
    (by simpa [directoryAt] using h) false
  have hmake : fs.makeDirectory (root.child ["META-INF"])
      = .ok (fs.set (directoryAt location) .directory) := by
    rw [List.nil_append, List.append_nil] at hplace
    rw [FileSystem.makeDirectory, hplace]
    rfl
  rw [FileSystem.makeDirectories, hlineage, directoryPath_eq, FileSystem.makeLineage, hmake]

include hfs hroot in
/-- Where something lies in the place of the manifest's directory, nothing is made, and its path has
to lead to a directory. -/
lemma makeDirectories_found {entry : Entry} (h : fs.get? (directoryAt location) = some entry) :
    fs.makeDirectories (directoryPath root)
      = (if fs.isDirectory (directoryPath root) then .ok () else .error .alreadyExists, fs) := by
  obtain ⟨parents, hlineage⟩ := exists_lineage_directoryPath root
  have hmake : fs.makeDirectory (root.child ["META-INF"]) = .error .alreadyExists := by
    rw [FileSystem.makeDirectory, hfs.place_child_found hroot (by simp) h (by simp)]
  rw [FileSystem.makeDirectories, hlineage, directoryPath_eq, FileSystem.makeLineage, hmake]

end

/-- Whether the path of the manifest's directory leads to a directory, which is at the given
location. -/
structure Ready (fs : FileSystem) (root : Path) (directory : Location) : Prop where
  wellFormed : fs.WellFormed
  locate : fs.locate (directoryPath root) = .ok directory
  directory : fs.get? directory = some .directory

/-- Once it is made, the manifest's directory is there, and it is empty. -/
lemma ready_set_directory {fs : FileSystem} (hfs : fs.WellFormed) {root : Path}
    {location : Location} (hroot : fs.locate root = .ok location)
    (hlocation : fs.get? location = some .directory) (h : fs.get? (directoryAt location) = none) :
    Ready (fs.set (directoryAt location) .directory) root (directoryAt location) ∧
      ∀ name, (fs.set (directoryAt location) .directory).get? (directoryAt location ++ [name])
        = none := by
  have hkeeps : fs.KeepsWays (fs.set (directoryAt location) .directory) :=
    FileSystem.keepsWays_set _ (by simp [h])
  have hfs' : (fs.set (directoryAt location) .directory).WellFormed :=
    hfs.set isFileName_directory hlocation (Or.inl rfl)
  have hdirectory : (fs.set (directoryAt location) .directory).get? (directoryAt location)
      = some .directory := FileSystem.get?_set_self fs _ (by simp [directoryAt])
  have hlocate := locate_directoryPath hfs' (hkeeps.locate hroot hlocation) hdirectory (by simp)
  refine ⟨⟨hfs', hlocate, hdirectory⟩, fun name => ?_⟩
  rw [FileSystem.get?_set_of_ne fs _ (by simp)]
  by_contra hsome
  obtain ⟨entry, hsome⟩ := Option.ne_none_iff_exists'.1 hsome
  rw [hfs.directory_of_get? hsome] at h
  cases h

section
variable {fs : FileSystem} {root : Path} {directory : Location} (hready : Ready fs root directory)
  {entry : Entry} (hentry : fs.get? (directory ++ ["MANIFEST.MF.tmp"]) = some entry)
  (hfile : entry ≠ .directory)

include hready hentry

lemma place_temporary :
    fs.place false (temporaryPath root) = .ok (.found (directory ++ ["MANIFEST.MF.tmp"])) := by
  rw [temporaryPath_eq]
  exact hready.wellFormed.place_child_found hready.locate (by simp) hentry (by simp)

include hfile

/-- What lies in the temporary file's place takes the place of the manifest, unless that is a
directory. -/
lemma rename_temporary :
    fs.rename (temporaryPath root) (filePath root)
      = if fs.get? (directory ++ ["MANIFEST.MF"]) = some .directory then
          .error .isADirectory
        else
          .ok ((fs.erase (directory ++ ["MANIFEST.MF.tmp"])).set (directory ++ ["MANIFEST.MF"])
            entry) := by
  have hsource := place_temporary hready hentry
  have hdiffer : directory ++ ["MANIFEST.MF"] ≠ directory ++ ["MANIFEST.MF.tmp"] := by
    simp
  rw [FileSystem.rename, hsource, filePath_eq]
  rcases hmanifest : fs.get? (directory ++ ["MANIFEST.MF"]) with _ | found
  · have hhere : fs.get? (directory ++ []) = some .directory := by
      rw [List.append_nil, hready.directory]
    have hplace := hready.wellFormed.place_child_vacant hready.locate isFileName_file hhere
      (by rwa [List.append_nil]) false
    rw [List.nil_append, List.append_nil] at hplace
    rw [hplace]
    simp only [hentry, reduceCtorEq, if_false]
  · have hplace : fs.place false ((directoryPath root).child ["MANIFEST.MF"])
        = .ok (.found (directory ++ ["MANIFEST.MF"])) :=
      hready.wellFormed.place_child_found hready.locate (by simp) hmanifest (by simp)
    rw [hplace]
    simp only [hentry, hmanifest, hdiffer, if_false]
    rcases found with _ | _ | _
    · rfl
    · simp only [Option.some.injEq, reduceCtorEq, if_false]
    · simp only [Option.some.injEq, reduceCtorEq, if_false]

/-- What lies in the temporary file's place is removed. -/
lemma removeFile_temporary :
    fs.removeFile (temporaryPath root)
      = .ok (fs.erase (directory ++ ["MANIFEST.MF.tmp"])) := by
  rw [FileSystem.removeFile, place_temporary hready hentry]
  simp only [hentry]
  split
  · rename_i hdirectory
    exact absurd (Option.some.inj hdirectory) hfile
  · rfl

end

section
variable {fs : FileSystem} {root : Path} {directory : Location} (hready : Ready fs root directory)

section
variable (h : ∀ entry, fs.get? (directory ++ ["MANIFEST.MF.tmp"]) = some entry →
    ∃ stored, entry = .file stored) (contents : Bytes)

include hready h

/-- The temporary file is written if nothing lies in its place, or an older one. -/
lemma write_temporary :
    fs.write (temporaryPath root) contents
      = .ok (fs.set (directory ++ ["MANIFEST.MF.tmp"]) (.file contents)) := by
  rw [temporaryPath_eq, FileSystem.write]
  rcases hentry : fs.get? (directory ++ ["MANIFEST.MF.tmp"]) with _ | entry
  · have hhere : fs.get? (directory ++ []) = some .directory := by
      rw [List.append_nil, hready.directory]
    have hplace := hready.wellFormed.place_child_vacant hready.locate isFileName_temporary hhere
      (by rwa [List.append_nil]) true
    rw [List.nil_append, List.append_nil] at hplace
    rw [hplace]
  · obtain ⟨stored, rfl⟩ := h entry hentry
    rw [hready.wellFormed.place_child_found hready.locate (by simp) hentry (by simp)]
    simp only [hentry]

/-- With the temporary file, the manifest's directory is where it was. -/
lemma ready_set_temporary :
    Ready (fs.set (directory ++ ["MANIFEST.MF.tmp"]) (.file contents)) root directory := by
  have hkeeps : fs.KeepsWays (fs.set (directory ++ ["MANIFEST.MF.tmp"]) (.file contents)) :=
    FileSystem.keepsWays_set _ h
  have hnodirectory : fs.get? (directory ++ ["MANIFEST.MF.tmp"]) ≠ some .directory := by
    intro hentry
    obtain ⟨stored, hstored⟩ := h _ hentry
    cases hstored
  exact ⟨hready.wellFormed.set isFileName_temporary hready.directory (Or.inr hnodirectory),
    hkeeps.locate hready.locate hready.directory, hkeeps.directories _ hready.directory⟩

end

include hready in
/-- The temporary file takes the place of what lies at the manifest's path, unless that is a
directory; then it is removed again. -/
lemma publish_written (h : fs.get? (directory ++ ["MANIFEST.MF.tmp"]) = none) (contents : Bytes) :
    publish (fs.set (directory ++ ["MANIFEST.MF.tmp"]) (.file contents)) root
      = if fs.get? (directory ++ ["MANIFEST.MF"]) = some .directory then
          (.error (.access (filePath root) (.system .isADirectory)), fs)
        else
          (.ok (filePath root), fs.set (directory ++ ["MANIFEST.MF"]) (.file contents)) := by
  have hdiffer : directory ++ ["MANIFEST.MF"] ≠ directory ++ ["MANIFEST.MF.tmp"] := by
    simp
  have hready' := ready_set_temporary hready (by simp [h]) contents
  have herase := FileSystem.erase_set fs (.file contents) h
  have htemporary := FileSystem.get?_set_self fs (.file contents)
    (List.append_ne_nil_of_right_ne_nil directory (List.cons_ne_nil "MANIFEST.MF.tmp" []))
  rw [publish, rename_temporary hready' htemporary (by simp),
    FileSystem.get?_set_of_ne fs _ hdiffer, herase]
  split_ifs with hmanifest
  · simp only [removeFile_temporary hready' htemporary (by simp), herase]
  · rfl

end

/-! ## All of them -/

/-- The outcome of writing a manifest below a root at a location where no temporary file lies. -/
def Record.written (record : Record) (fs : FileSystem) (root : Path) (location : Location) :
    Except Failure Path × FileSystem :=
  match fs.get? (directoryAt location) with
  | none =>
    (.ok (filePath root), (fs.set (directoryAt location) .directory).set (fileAt location)
      (.file (Bytes.ofText record.render)))
  | some .directory =>
    if fs.get? (fileAt location) = some .directory then
      (.error (.access (filePath root) (.system .isADirectory)), fs)
    else
      (.ok (filePath root), fs.set (fileAt location) (.file (Bytes.ofText record.render)))
  | some _ => (.error (.access (directoryPath root) (.system .alreadyExists)), fs)

/-- Where the manifest's directory is no link and holds no temporary file, writing has the outcome
that `Record.written` says: the temporary file never stays. -/
theorem Record.write_eq_written (record : Record) {fs : FileSystem} (hfs : fs.WellFormed)
    {root : Path} {location : Location} (hroot : fs.locate root = .ok location)
    (hlocation : fs.get? location = some .directory)
    (hlink : ∀ target, fs.get? (directoryAt location) ≠ some (.link target))
    (htemporary : fs.get? (temporaryAt location) = none) :
    record.write fs root = record.written fs root location := by
  rw [temporaryAt_eq] at htemporary
  cases hentry : fs.get? (directoryAt location) with
  | none =>
    obtain ⟨hready, hempty⟩ := ready_set_directory hfs hroot hlocation hentry
    rw [write, makeDirectories_vacant hfs hroot hlocation hentry]
    simp only [write_temporary hready (by simp [hempty]), publish_written hready (hempty _), hempty,
      written, hentry, fileAt_eq, reduceCtorEq, if_false]
  | some entry =>
    have hnolink : ∀ target, entry ≠ .link target := by
      rintro target rfl
      exact hlink target hentry
    have hlocate := locate_directoryPath hfs hroot hentry hnolink
    rw [write, makeDirectories_found hfs hroot hentry]
    simp only [FileSystem.isDirectory, FileSystem.status, hlocate, hentry]
    cases entry with
    | directory =>
      have hready : Ready fs root (directoryAt location) := ⟨hfs, hlocate, hentry⟩
      simp only [if_true, write_temporary hready (by simp [htemporary]),
        publish_written hready htemporary,
        written, hentry, fileAt_eq]
    | file contents => simp [written, hentry]
    | link target => exact absurd rfl (hnolink target)

/-- How a file system differs from an earlier one once a record is published below a root at a
location: the manifest holds the rendered record, its directory exists, no temporary file remains,
and everything else is as it was. -/
structure Published (record : Record) (location : Location) (fs changed : FileSystem) : Prop where
  file : changed.get? (fileAt location) = some (.file (Bytes.ofText record.render))
  directory : changed.get? (directoryAt location) = some .directory
  temporary : changed.get? (temporaryAt location) = none
  others : ∀ other, other ≠ fileAt location → other ≠ directoryAt location →
    changed.get? other = fs.get? other
  current : changed.currentDirectory = fs.currentDirectory

/-- Putting the rendered record into its directory publishes it. -/
lemma published_set (record : Record) {location : Location} {fs : FileSystem}
    (hdirectory : fs.get? (directoryAt location) = some .directory)
    (htemporary : fs.get? (temporaryAt location) = none) :
    Published record location fs
      (fs.set (fileAt location) (.file (Bytes.ofText record.render))) := by
  have hne : directoryAt location ≠ fileAt location := by
    simp [directoryAt, fileAt]
  constructor
  · exact FileSystem.get?_set_self fs _ (by simp [fileAt])
  · rw [FileSystem.get?_set_of_ne fs _ hne, hdirectory]
  · rw [FileSystem.get?_set_of_ne fs _ (fileAt_ne_temporaryAt location).symm, htemporary]
  · intro other hfile _
    exact FileSystem.get?_set_of_ne fs _ hfile
  · rfl

/-- Whether nothing is in the way of a manifest: no file in the place of its directory, and no
directory in its own. -/
def Unobstructed (fs : FileSystem) (location : Location) : Prop :=
  (∀ contents, fs.get? (directoryAt location) ≠ some (.file contents)) ∧
    fs.get? (fileAt location) ≠ some .directory

/-- A record is published if nothing is in its way, and otherwise nothing has changed. -/
theorem Record.written_cases (record : Record) {fs : FileSystem} (hfs : fs.WellFormed)
    {root : Path} {location : Location}
    (hlink : ∀ target, fs.get? (directoryAt location) ≠ some (.link target))
    (htemporary : fs.get? (temporaryAt location) = none) :
    (Unobstructed fs location ∧
      ∃ changed, record.written fs root location = (.ok (filePath root), changed) ∧
        Published record location fs changed) ∨
    (¬Unobstructed fs location ∧
      ∃ failure, record.written fs root location = (.error failure, fs)) := by
  have hdiffer : temporaryAt location ≠ directoryAt location := by
    simp [temporaryAt, directoryAt]
  cases hentry : fs.get? (directoryAt location) with
  | none =>
    have hpublished := published_set record
      (FileSystem.get?_set_self fs .directory (by simp [directoryAt]))
      ((FileSystem.get?_set_of_ne fs .directory hdiffer).trans htemporary)
    refine Or.inl ⟨⟨by simp [hentry], fun hfile => ?_⟩, _, by rw [written, hentry], ?_⟩
    · rw [fileAt_eq] at hfile
      rw [hfs.directory_of_get? hfile] at hentry
      cases hentry
    · refine { hpublished with others := fun other hfile hdirectory => ?_ }
      rw [hpublished.others other hfile hdirectory, FileSystem.get?_set_of_ne fs _ hdirectory]
  | some entry =>
    cases entry with
    | directory =>
      by_cases hfile : fs.get? (fileAt location) = some .directory
      · refine Or.inr ⟨fun hfree => hfree.2 hfile,
          .access (filePath root) (.system .isADirectory), ?_⟩
        simp only [written, hentry, if_pos hfile]
      · refine Or.inl ⟨⟨by simp [hentry], hfile⟩, _, ?_, published_set record hentry htemporary⟩
        simp only [written, hentry, if_neg hfile]
    | file contents =>
      refine Or.inr ⟨fun hfree => hfree.1 contents hentry,
        .access (directoryPath root) (.system .alreadyExists), ?_⟩
      simp only [written, hentry]
    | link target => exact absurd hentry (hlink target)

/-- Where a record is written, the manifest is put into its directory, once this directory is
there. -/
lemma Record.exists_set_of_written {record : Record} {fs : FileSystem} (hfs : fs.WellFormed)
    {root : Path} {location : Location} (hlocation : fs.get? location = some .directory)
    {path : Path} {changed : FileSystem}
    (h : record.written fs root location = (.ok path, changed)) :
    ∃ made : FileSystem, made.WellFormed ∧ made.get? (directoryAt location) = some .directory ∧
      made.get? (fileAt location) ≠ some .directory ∧
      changed = made.set (fileAt location) (.file (Bytes.ofText record.render)) := by
  have hdiffer : fileAt location ≠ directoryAt location := by
    simp [fileAt, directoryAt]
  rw [written] at h
  split at h
  · rename_i hnone
    refine ⟨fs.set (directoryAt location) .directory,
      hfs.set isFileName_directory hlocation (Or.inl rfl),
      FileSystem.get?_set_self fs _ (by simp [directoryAt]), fun hfile => ?_,
      (congrArg Prod.snd h).symm⟩
    rw [FileSystem.get?_set_of_ne fs _ hdiffer, fileAt_eq] at hfile
    rw [hfs.directory_of_get? hfile] at hnone
    cases hnone
  · rename_i hdirectory
    split_ifs at h with hfile
    · cases congrArg Prod.fst h
    · exact ⟨fs, hfs, hdirectory, hfile, (congrArg Prod.snd h).symm⟩
  · cases congrArg Prod.fst h

/-- Writing a record leaves a well-formed file system, and writing it once more changes nothing. -/
theorem Record.written_again {record : Record} {fs : FileSystem} (hfs : fs.WellFormed)
    {root : Path} {location : Location} (hlocation : fs.get? location = some .directory)
    {path : Path} {changed : FileSystem}
    (h : record.written fs root location = (.ok path, changed)) :
    changed.WellFormed ∧ record.written changed root location = (.ok (filePath root), changed) := by
  obtain ⟨made, hmade, hdirectory, hfile, rfl⟩ := exists_set_of_written hfs hlocation h
  have hdiffer : directoryAt location ≠ fileAt location := by
    simp [directoryAt, fileAt]
  have hstored := FileSystem.get?_set_self made (.file (Bytes.ofText record.render))
    (show fileAt location ≠ [] by simp [fileAt])
  constructor
  · rw [fileAt_eq] at hfile ⊢
    exact hmade.set isFileName_file hdirectory (Or.inr hfile)
  · simp only [written, FileSystem.get?_set_of_ne made _ hdiffer, hdirectory, hstored,
      FileSystem.set_set, Option.some.injEq, reduceCtorEq, if_false]

end EntryPoint.Manifest
