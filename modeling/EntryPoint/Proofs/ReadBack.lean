import EntryPoint.Proofs.Emission
import EntryPoint.Proofs.Manifest.RoundTrip
import EntryPoint.Proofs.Text.Utf8

/-!
# Reading back what was emitted

The manifest that is emitted holds the rendered record, and reading it back gives the record unless
the name of the class that was found holds a line feed: a name may be any text, and what follows a
line feed in it is read as another header. Nor can the manifest be read back where the root's path
leads through the link whose place the manifest has taken.
-/

namespace EntryPoint

namespace Manifest

/-! ## Where the manifest is found afterwards -/

/-- The path of the manifest's directory ends in its name. -/
lemma withoutTrailing_directoryPath (root : Path) :
    Path.withoutTrailing (directoryPath root).segments = (directoryPath root).segments := by
  rw [directoryPath_eq, Path.segments_child root (by simp) (by simpa using isFileName_directory),
    Path.withoutTrailing, if_neg (by simp)]

/-- Whether the path of the manifest's directory leads there without a link that lies in the place
of the manifest itself. -/
def ReachedAside (fs : FileSystem) (root : Path) : Prop :=
  ∀ directory target, fs.locate (directoryPath root) = .ok directory →
    fs.get? (directory ++ ["MANIFEST.MF"]) = some (.link target) →
      (fs.erase (directory ++ ["MANIFEST.MF"])).locate (directoryPath root) = .ok directory

section
variable {fs : FileSystem} {root : Path} {directory : Location} (hready : Ready fs root directory)
  (hfree : fs.get? (directory ++ ["MANIFEST.MF"]) ≠ some .directory)

include hready hfree

/-- With a file in the place of the manifest, the path of its directory leads there still, if it
leads there without the link in that place. -/
lemma locate_set_file (haside : ReachedAside fs root) (contents : Bytes) :
    (fs.set (directory ++ ["MANIFEST.MF"]) (.file contents)).locate (directoryPath root)
      = .ok directory := by
  have hne : directory ++ ["MANIFEST.MF"] ≠ [] := by
    simp
  cases hentry : fs.get? (directory ++ ["MANIFEST.MF"]) with
  | none =>
    exact (FileSystem.keepsWays_set _ (by simp [hentry])).locate hready.locate hready.directory
  | some entry =>
    cases entry with
    | directory => exact absurd hentry hfree
    | file earlier =>
      exact (FileSystem.keepsWays_set _ (by simp [hentry])).locate hready.locate hready.directory
    | link target =>
      have hdirectory : (fs.erase (directory ++ ["MANIFEST.MF"])).get? directory
          = some .directory := by
        rw [FileSystem.get?_erase_of_ne fs (by simp), hready.directory]
      exact (fs.keepsWays_set_file hne contents).1.locate
        (haside directory target hready.locate hentry) hdirectory

omit hfree in
/-- If the path of the manifest's directory leads to a directory when a file lies in the place of
the manifest, then it leads there without the link in that place. -/
lemma reachedAside_of_locate {contents : Bytes} {found : Location}
    (hfound : (fs.set (directory ++ ["MANIFEST.MF"]) (.file contents)).locate (directoryPath root)
      = .ok found)
    (hfoundAt : (fs.set (directory ++ ["MANIFEST.MF"]) (.file contents)).get? found
      = some .directory) :
    ReachedAside fs root := by
  have hne : directory ++ ["MANIFEST.MF"] ≠ [] := by
    simp
  have hways := fs.keepsWays_set_file hne contents
  intro other target hother hlink
  rw [hready.locate] at hother
  cases hother
  -- without the link, and so with it, the path leads to where it leads now
  have hwithout := hways.2.locate hfound hfoundAt
  have hwith := (fs.keepsWays_erase hne).locate hwithout (hways.2.directories _ hfoundAt)
  rw [hready.locate] at hwith
  cases hwith
  exact hwithout

/-- The manifest is read back as the record that was written exactly if the record has no line feed
and the path of its directory leads there without the link in its place. -/
theorem read_set_iff (record : Record) :
    Record.read (fs.set (directory ++ ["MANIFEST.MF"]) (.file (Bytes.ofText record.render))) root
        = .ok (some record) ↔
      record.IsSingleLine ∧ ReachedAside fs root := by
  have hne : directory ++ ["MANIFEST.MF"] ≠ [] := by
    simp
  have hlocate := locate_set_file hready hfree
  have hfile := FileSystem.get?_set_self fs (.file (Bytes.ofText record.render)) hne
  have hfs : (fs.set (directory ++ ["MANIFEST.MF"])
      (.file (Bytes.ofText record.render))).WellFormed :=
    hready.wellFormed.set isFileName_file hready.directory (Or.inr hfree)
  set changed := fs.set (directory ++ ["MANIFEST.MF"]) (.file (Bytes.ofText record.render))
  constructor
  · intro hread
    unfold Record.read at hread
    split at hread
    · cases hread
    rename_i contents hcontents
    constructor
    · split at hread
      · exact isSingleLine_of_parse? (Except.ok.inj hread)
      · cases hread
    · obtain ⟨below, hbelow⟩ : ∃ below, changed.locate (filePath root) = .ok below := by
        rw [FileSystem.read, FileSystem.status] at hcontents
        cases hbelow : changed.locate (filePath root) with
        | ok below => exact ⟨below, rfl⟩
        | error fault =>
          rw [hbelow] at hcontents
          cases hcontents
      obtain ⟨found, hfound, hfoundAt⟩ := hfs.exists_locate_of_child
        (withoutTrailing_directoryPath root) isFileName_file hbelow
      exact reachedAside_of_locate hready hfound hfoundAt
  · rintro ⟨hsingle, haside⟩
    have hstatus := hfs.status_child (hlocate haside _) (List.cons_ne_nil "MANIFEST.MF" [])
      hfile (by simp)
    rw [← filePath_eq] at hstatus
    unfold Record.read
    simp only [FileSystem.read, hstatus, Bytes.text?_ofText, parse?_render hsingle]

end

/-! ## After writing -/

/-- Where a record is written, its rendered text takes the place of the manifest in the manifest's
directory, once this directory is there. -/
lemma Record.exists_set_of_write {record : Record} {fs : FileSystem} (hfs : fs.WellFormed)
    {root : Path} {location : Location} (hroot : fs.locate root = .ok location)
    (hlocation : fs.get? location = some .directory)
    (htemporary : ∀ directory, fs.locate (directoryPath root) = .ok directory →
      fs.get? (directory ++ ["MANIFEST.MF.tmp"]) = none)
    {path : Path} {changed : FileSystem} (h : record.write fs root = (.ok path, changed)) :
    ∃ made directory, Ready made root directory ∧
      made.get? (directory ++ ["MANIFEST.MF"]) ≠ some .directory ∧
      changed = made.set (directory ++ ["MANIFEST.MF"]) (.file (Bytes.ofText record.render)) ∧
      (ReachedAside made root ↔ ReachedAside fs root) := by
  have hpublish : ∀ {made : FileSystem} {directory : Location}, Ready made root directory →
      made.get? (directory ++ ["MANIFEST.MF.tmp"]) = none →
      fs.makeDirectories (directoryPath root) = (.ok (), made) →
      made.get? (directory ++ ["MANIFEST.MF"]) ≠ some .directory ∧
        changed = made.set (directory ++ ["MANIFEST.MF"])
          (.file (Bytes.ofText record.render)) := by
    intro made directory hready hfree hmake
    rw [write, hmake] at h
    simp only [write_temporary hready (by simp [hfree]), publish_written hready hfree] at h
    split_ifs at h with hfile
    · cases congrArg Prod.fst h
    · exact ⟨hfile, (congrArg Prod.snd h).symm⟩
  cases hentry : fs.get? (directoryAt location) with
  | none =>
    obtain ⟨hready, hempty⟩ := ready_set_directory hfs hroot hlocation hentry
    obtain ⟨hfree, hchanged⟩ := hpublish hready (hempty _)
      (makeDirectories_vacant hfs hroot hlocation hentry)
    refine ⟨_, _, hready, hfree, hchanged, iff_of_true ?_ ?_⟩
    · intro directory target hlocate hlink
      rw [hready.locate] at hlocate
      cases hlocate
      rw [hempty] at hlink
      cases hlink
    · intro directory target hlocate
      have hhere : fs.get? (location ++ []) = some .directory := by
        rwa [List.append_nil]
      have hvacant := hfs.place_child_vacant hroot isFileName_directory hhere
        (by simpa [directoryAt] using hentry) true
      rw [List.nil_append, ← directoryPath_eq] at hvacant
      rw [FileSystem.locate, hvacant] at hlocate
      cases hlocate
  | some entry =>
    have hmake := makeDirectories_found hfs hroot hentry
    have hdirectory : fs.isDirectory (directoryPath root) = true := by
      by_contra hnot
      rw [write, hmake, if_neg hnot] at h
      cases congrArg Prod.fst h
    rw [if_pos hdirectory] at hmake
    obtain ⟨directory, hready⟩ : ∃ directory, Ready fs root directory := by
      unfold FileSystem.isDirectory FileSystem.status at hdirectory
      cases hlocate : fs.locate (directoryPath root) with
      | error fault => simp [hlocate] at hdirectory
      | ok directory =>
        refine ⟨directory, hfs, hlocate, ?_⟩
        cases hfound : fs.get? directory with
        | none => simp [hlocate, hfound] at hdirectory
        | some found => cases found <;> simp [hlocate, hfound] at hdirectory ⊢
    obtain ⟨hfree, hchanged⟩ := hpublish hready (htemporary directory hready.locate) hmake
    exact ⟨fs, directory, hready, hfree, hchanged, Iff.rfl⟩

lemma isSingleLine_ofMainClass_iff (mainClass : String) :
    (Record.ofMainClass mainClass).IsSingleLine ↔ '\n' ∉ mainClass.toList := by
  have hversion : '\n' ∉ formatVersion.toList := by
    decide
  exact and_iff_right hversion

/-- The main section of a rendered record consists of its two headers exactly if the name of the
class has no line feed. -/
lemma unfold_render_ofMainClass_iff (mainClass : String) :
    unfold (Record.ofMainClass mainClass).render.toList
        = [header versionHeader formatVersion, header mainClassHeader mainClass] ↔
      '\n' ∉ mainClass.toList := by
  constructor
  · intro h hline
    have hmem : header mainClassHeader mainClass
        ∈ unfold (Record.ofMainClass mainClass).render.toList := by
      simp [h]
    exact not_mem_of_mem_unfold hmem (List.mem_append_right _ hline)
  · intro hline
    exact unfold_render ((isSingleLine_ofMainClass_iff mainClass).2 hline)

end Manifest

open Manifest (Record ReachedAside directoryPath header versionHeader mainClassHeader)

/-- What is emitted is read back, where no temporary file lies in the manifest's directory, exactly
if the name of the class has no line feed and the path of this directory does not lead through the
link whose place the manifest takes. The headers of the main section are the version and the main
class alone exactly if the name has no line feed. -/
theorem read_resolveAndEmit_iff {fs : FileSystem} (hfs : fs.WellFormed) (root : Path)
    (source : ByteSource) (allows : String → Bool) (options : SearchOptions)
    (htemporary : ∀ directory, fs.locate (directoryPath root) = .ok directory →
      fs.get? (directory ++ ["MANIFEST.MF.tmp"]) = none)
    {record : Record} {changed : FileSystem}
    (hemit : resolveAndEmit fs root source allows options = (.ok record, changed)) :
    (Record.read changed root = .ok (some record) ↔
      '\n' ∉ record.mainClass.toList ∧ ReachedAside fs root) ∧
    (Manifest.unfold record.render.toList
        = [header versionHeader record.version, header mainClassHeader record.mainClass] ↔
      '\n' ∉ record.mainClass.toList) := by
  rw [resolveAndEmit] at hemit
  cases hresolve : resolve fs root source allows options with
  | error failure =>
    rw [hresolve] at hemit
    cases congrArg Prod.fst hemit
  | ok resolution =>
    obtain ⟨location, hroot, hlocation⟩ := exists_locate_of_resolve hresolve
    simp only [hresolve] at hemit
    split at hemit
    · rename_i path after hwrite
      cases hemit
      obtain ⟨made, directory, hready, hfree, rfl, haside⟩ :=
        Record.exists_set_of_write hfs hroot hlocation htemporary hwrite
      rw [Manifest.read_set_iff hready hfree, haside]
      exact ⟨and_congr_left fun _ => Manifest.isSingleLine_ofMainClass_iff _,
        Manifest.unfold_render_ofMainClass_iff _⟩
    · cases congrArg Prod.fst hemit

/-- The manifest that takes the place of a link which leads nowhere is read back. -/
theorem read_resolveAndEmit_markedBuild :
    Record.read (resolveAndEmit markedBuild ⟨"/out"⟩ (.ofDirectory markedBuild ⟨"/out"⟩)
      (fun _ => true) ⟨"LM;", .strict, false⟩).2 ⟨"/out"⟩ = .ok (some ⟨"1.0", "A"⟩) := by
  have hfs : markedBuild.WellFormed := by
    decide +kernel
  have hlocate : markedBuild.locate (directoryPath ⟨"/out"⟩) = .ok ["out", "META-INF"] := by
    decide +kernel
  have hrun : (resolveAndEmit markedBuild ⟨"/out"⟩ (.ofDirectory markedBuild ⟨"/out"⟩)
      (fun _ => true) ⟨"LM;", .strict, false⟩).1 = .ok ⟨"1.0", "A"⟩ := by
    decide +kernel
  obtain ⟨hread, -⟩ := read_resolveAndEmit_iff hfs ⟨"/out"⟩
    (.ofDirectory markedBuild ⟨"/out"⟩) (fun _ => true) ⟨"LM;", .strict, false⟩
    (by
      intro directory h
      rw [hlocate] at h
      cases h
      decide)
    (Prod.ext hrun rfl)
  refine hread.2 ⟨by decide, ?_⟩
  intro directory target h _
  rw [hlocate] at h
  cases h
  decide +kernel

/-- A class file that carries the annotation `LM;` and declares a name with a line feed, behind
which another header follows. -/
def brokenNameClass : Bytes :=
  [0xCA, 0xFE, 0xBA, 0xBE, 0, 0, 0, 52]
    ++ [0, 5, 1, 0, 15] ++ Bytes.ofText "A\nMain-Class: B"
    ++ [7, 0, 1, 1, 0, 25] ++ Bytes.ofText "RuntimeVisibleAnnotations"
    ++ [1, 0, 3] ++ Bytes.ofText "LM;"
    ++ [0, 33, 0, 2, 0, 0, 0, 0, 0, 0, 0, 0, 0, 1, 0, 3, 0, 0, 0, 6, 0, 1, 0, 4, 0, 0]

/-- The manifest of a build with this class file names another class. -/
theorem read_resolveAndEmit_brokenName :
    (smallBuild "out" brokenNameClass).WellFormed ∧
      (smallBuild "out" brokenNameClass).locate (directoryPath ⟨"out"⟩) = .error .notFound ∧
      ∃ changed, resolveAndEmit (smallBuild "out" brokenNameClass) ⟨"out"⟩
          (.ofDirectory (smallBuild "out" brokenNameClass) ⟨"out"⟩) (fun _ => true)
          ⟨"LM;", .strict, false⟩ = (.ok ⟨"1.0", "A\nMain-Class: B"⟩, changed) ∧
        Record.read changed ⟨"out"⟩ = .ok (some ⟨"1.0", "B"⟩) := by
  refine ⟨by decide +kernel, by decide +kernel, _, Prod.ext ?_ rfl, ?_⟩
  · decide +kernel
  · decide +kernel

end EntryPoint
