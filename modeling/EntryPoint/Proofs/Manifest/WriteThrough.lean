import EntryPoint.Proofs.FileSystem.Changes
import EntryPoint.Proofs.ReadBack

/-!
# Writing through links

The temporary file has a fixed name, and that name may be taken. A file of that name is overwritten
and then moved, so nothing else notices. A link of that name is followed: what it leads to is
overwritten, and it is the link that takes the place of the manifest. `Record.write_replaces_iff`
says that a manifest takes its place and leaves everything else as it was exactly if no link has the
name of the temporary file, and none that the path of the directory needs has that of the manifest.
-/

namespace EntryPoint.Manifest

open FileSystem (GrowsAlong)

/-! ## The steps of a write -/

/-- The three changes behind a manifest that was written. -/
lemma Record.exists_of_write {record : Record} {fs : FileSystem} {root path : Path}
    {changed : FileSystem} (h : record.write fs root = (.ok path, changed)) :
    ∃ made written, fs.makeDirectories (directoryPath root) = (.ok (), made) ∧
      made.write (temporaryPath root) (Bytes.ofText record.render) = .ok written ∧
      written.rename (temporaryPath root) (filePath root) = .ok changed := by
  rw [write] at h
  split at h
  · cases congrArg Prod.fst h
  rename_i made hmake
  split at h
  · cases congrArg Prod.fst h
  rename_i written hwrite
  refine ⟨made, written, hmake, hwrite, ?_⟩
  rw [publish] at h
  split at h
  · rename_i hrename
    exact hrename.trans (congrArg Except.ok (congrArg Prod.snd h))
  · cases congrArg Prod.fst h

/-- Making the manifest's directory adds directories alone, and where it succeeds the path leads to
one. -/
lemma ready_of_makeDirectories {fs : FileSystem} (hfs : fs.WellFormed) {root : Path}
    {answer : Except SystemFault Unit} {made : FileSystem}
    (h : fs.makeDirectories (directoryPath root) = (answer, made)) :
    made.WellFormed ∧ GrowsAlong (directoryPath root).lineage fs made ∧
      (answer = .ok () → ∃ directory, Ready made root directory) := by
  obtain ⟨hmade, hgrows, hdirectory⟩ := hfs.makeLineage h
  refine ⟨hmade, hgrows, fun hanswer => ?_⟩
  obtain ⟨parents, hlineage⟩ := exists_lineage_directoryPath root
  have hleads := hdirectory hanswer (directoryPath root) (by simp [hlineage])
  obtain ⟨directory, hlocate, hentry⟩ :=
    FileSystem.status_eq_ok_iff.1 (FileSystem.isDirectory_iff.1 hleads)
  exact ⟨directory, hmade, hlocate, hentry⟩

/-- The temporary file is written where nothing or a file has its name; a link of that name stays,
and it is written to what the link leads to. -/
lemma write_temporary_cases {fs : FileSystem} {root : Path} {directory : Location}
    (hready : Ready fs root directory) {contents : Bytes} {written : FileSystem}
    (h : fs.write (temporaryPath root) contents = .ok written) :
    Ready written root directory ∧
      ((∃ target, fs.get? (directory ++ ["MANIFEST.MF.tmp"]) = some (.link target) ∧
          written.get? (directory ++ ["MANIFEST.MF.tmp"]) = some (.link target)) ∨
        ((∀ entry, fs.get? (directory ++ ["MANIFEST.MF.tmp"]) = some entry →
            ∃ stored, entry = .file stored) ∧
          written = fs.set (directory ++ ["MANIFEST.MF.tmp"]) (.file contents))) := by
  obtain ⟨location, hne, hfree, hwritten, hafter⟩ := hready.wellFormed.write h
  have hkeeps : fs.KeepsWays written := by
    rw [hwritten]
    exact FileSystem.keepsWays_set _ hfree
  refine ⟨⟨hafter, hkeeps.locate hready.locate hready.directory,
    hkeeps.directories _ hready.directory⟩, ?_⟩
  by_cases htemporary : ∀ entry, fs.get? (directory ++ ["MANIFEST.MF.tmp"]) = some entry →
      ∃ stored, entry = .file stored
  · rw [write_temporary hready htemporary] at h
    exact Or.inr ⟨htemporary, (Except.ok.inj h).symm⟩
  push Not at htemporary
  obtain ⟨entry, hentry, hnofile⟩ := htemporary
  rcases entry with _ | stored | target
  · rw [temporaryPath_eq, FileSystem.write, hready.wellFormed.place_child_found hready.locate
      (by simp) hentry (by simp)] at h
    simp only [hentry] at h
    cases h
  · exact absurd rfl (hnofile stored)
  · refine Or.inl ⟨target, hentry, ?_⟩
    have hother : directory ++ ["MANIFEST.MF.tmp"] ≠ location := by
      rintro rfl
      obtain ⟨stored, hstored⟩ := hfree _ hentry
      cases hstored
    rw [hwritten, FileSystem.get?_set_of_ne fs _ hother, hentry]

/-! ## What is left afterwards -/

/-- Whether a record has taken the place of the manifest in a directory, to which the root leads
still, while everything else that was there is as it was. -/
structure Replaces (record : Record) (root : Path) (directory : Location)
    (fs changed : FileSystem) : Prop where
  reached : changed.locate (filePath root) = .ok (directory ++ ["MANIFEST.MF"])
  manifest : changed.get? (directory ++ ["MANIFEST.MF"])
    = some (.file (Bytes.ofText record.render))
  others : ∀ other entry, other ≠ directory ++ ["MANIFEST.MF"] →
    other ≠ directory ++ ["MANIFEST.MF.tmp"] → fs.get? other = some entry →
    changed.get? other = some entry

section
variable {fs : FileSystem} {directory : Location}
  (htemporary : ∀ entry, fs.get? (directory ++ ["MANIFEST.MF.tmp"]) = some entry →
    ∃ stored, entry = .file stored) (contents : Bytes)

/-- What lies in a file system after the temporary file was written and moved, the manifest
aside. -/
lemma get?_moved {other : Location} (hother : other ≠ directory ++ ["MANIFEST.MF"]) :
    (((fs.set (directory ++ ["MANIFEST.MF.tmp"]) (.file contents)).erase
        (directory ++ ["MANIFEST.MF.tmp"])).set (directory ++ ["MANIFEST.MF"])
          (.file contents)).get? other
      = if other = directory ++ ["MANIFEST.MF.tmp"] then none else fs.get? other := by
  rw [FileSystem.get?_set_of_ne _ _ hother]
  split_ifs with hsame
  · rw [hsame, FileSystem.get?_erase_self _ (by simp)]
  · rw [FileSystem.get?_erase_of_ne _ hsame, FileSystem.get?_set_of_ne _ _ hsame]

include htemporary in
/-- Once the temporary file has been moved, the ways are those that are there with a file in the
place of the manifest. -/
lemma keepsWays_moved {moved : FileSystem}
    (hmoved : moved = ((fs.set (directory ++ ["MANIFEST.MF.tmp"]) (.file contents)).erase
      (directory ++ ["MANIFEST.MF.tmp"])).set (directory ++ ["MANIFEST.MF"]) (.file contents)) :
    (fs.set (directory ++ ["MANIFEST.MF"]) (.file contents)).KeepsWays moved ∧
      moved.KeepsWays (fs.set (directory ++ ["MANIFEST.MF"]) (.file contents)) := by
  have hiff : ∀ other found, (∀ stored, found ≠ .file stored) →
      ((fs.set (directory ++ ["MANIFEST.MF"]) (.file contents)).get? other = some found ↔
        moved.get? other = some found) := by
    intro other found hfound
    by_cases hmanifest : other = directory ++ ["MANIFEST.MF"]
    · rw [hmanifest, hmoved, FileSystem.get?_set_self _ _ (by simp),
        FileSystem.get?_set_self _ _ (by simp)]
    rw [FileSystem.get?_set_of_ne fs _ hmanifest, hmoved, get?_moved contents hmanifest]
    split_ifs with hsame
    · rw [hsame]
      refine iff_of_false (fun hentry => ?_) (by simp)
      obtain ⟨stored, hstored⟩ := htemporary found hentry
      exact hfound stored hstored
    · rfl
  have hcurrent : moved.currentDirectory = fs.currentDirectory := by
    rw [hmoved]
    rfl
  constructor
  · exact ⟨hcurrent, fun other => (hiff other _ (by simp)).1,
      fun other _ => (hiff other _ (by simp)).1⟩
  · exact ⟨hcurrent.symm, fun other => (hiff other _ (by simp)).2,
      fun other _ => (hiff other _ (by simp)).2⟩

end

/-- A manifest that was written has taken its place and left everything else as it was exactly if
its directory, once made, holds no link with the name of the temporary file and is reached without a
link in the place of the manifest. -/
theorem Record.write_replaces_iff (record : Record) {fs : FileSystem} (hfs : fs.WellFormed)
    {root path : Path} {changed : FileSystem} (h : record.write fs root = (.ok path, changed)) :
    ∃ made directory, fs.makeDirectories (directoryPath root) = (.ok (), made) ∧
      made.locate (directoryPath root) = .ok directory ∧
      (Replaces record root directory fs changed ↔
        (∀ target, fs.get? (directory ++ ["MANIFEST.MF.tmp"]) ≠ some (.link target)) ∧
          ReachedAside made root) := by
  obtain ⟨made, written, hmake, hwrite, hrename⟩ := Record.exists_of_write h
  obtain ⟨-, hgrows, hexists⟩ := ready_of_makeDirectories hfs hmake
  obtain ⟨directory, hready⟩ := hexists rfl
  refine ⟨made, directory, hmake, hready.locate, ?_⟩
  obtain ⟨hready', ⟨target, hlink, hstays⟩ | ⟨htemporary, rfl⟩⟩ :=
    write_temporary_cases hready hwrite
  · -- the link was followed, and then it took the manifest's place
    rw [rename_temporary hready' hstays (by simp)] at hrename
    split_ifs at hrename
    obtain rfl := Except.ok.inj hrename
    refine iff_of_false (fun hreplaces => ?_) fun hnolink => ?_
    · have hmanifest := hreplaces.manifest
      rw [FileSystem.get?_set_self _ _ (by simp)] at hmanifest
      cases hmanifest
    · exact hnolink.1 target ((hgrows.get?_eq (by simp)).1 hlink)
  · have hstored := made.get?_set_self (.file (Bytes.ofText record.render))
      (List.append_ne_nil_of_right_ne_nil directory (List.cons_ne_nil "MANIFEST.MF.tmp" []))
    rw [rename_temporary hready' hstored (by simp)] at hrename
    split_ifs at hrename with hfree
    rw [FileSystem.get?_set_of_ne made _ (by simp)] at hfree
    have hchanged := (Except.ok.inj hrename).symm
    obtain ⟨hways, hways'⟩ := keepsWays_moved htemporary _ hchanged
    have hmanifest : changed.get? (directory ++ ["MANIFEST.MF"])
        = some (.file (Bytes.ofText record.render)) := by
      rw [hchanged, FileSystem.get?_set_self _ _ (by simp)]
    have hwell : changed.WellFormed := by
      rw [hchanged]
      refine (hready'.wellFormed.erase hstored (by simp)).set isFileName_file ?_ (Or.inr ?_)
      · rw [FileSystem.get?_erase_of_ne _ (by simp), hready'.directory]
      · rwa [FileSystem.get?_erase_of_ne _ (by simp), FileSystem.get?_set_of_ne made _ (by simp)]
    constructor
    · intro hreplaces
      refine ⟨fun target hlink => ?_, ?_⟩
      · obtain ⟨stored, hstored⟩ := htemporary _ ((hgrows.get?_eq (by simp)).2 hlink)
        cases hstored
      · obtain ⟨found, hfound, hfoundAt⟩ := hwell.exists_locate_of_child
          (withoutTrailing_directoryPath root) isFileName_file hreplaces.reached
        exact reachedAside_of_locate hready (hways'.locate hfound hfoundAt)
          (hways'.directories _ hfoundAt)
    · rintro ⟨-, haside⟩
      have hlocate := hways.locate (locate_set_file hready hfree haside _) (by
        rw [FileSystem.get?_set_of_ne made _ (by simp), hready.directory])
      constructor
      · rw [FileSystem.locate, filePath_eq,
          hwell.place_child_found hlocate (by simp) hmanifest (by simp)]
      · exact hmanifest
      · intro other entry hother htemp hentry
        rw [hchanged, get?_moved _ hother, if_neg htemp, hgrows.kept _ _ hentry]

/-- A file outside the root, to which the manifest of the root is a link, and something in the place
of the temporary file. -/
def staleBuild (temporary : Entry) : FileSystem :=
  ⟨[(["precious"], .file (Bytes.ofText "kept")), (["out"], .directory),
    (["out", "META-INF"], .directory), (["out", "META-INF", "MANIFEST.MF"], .link "../../precious"),
    (["out", "META-INF", "MANIFEST.MF.tmp"], temporary)], []⟩

/-- Over an old temporary file, the manifest takes the place of the link, and the file to which the
link led stays. -/
theorem write_replaces_staleBuild :
    Replaces ⟨"1.0", "A"⟩ ⟨"out"⟩ ["out", "META-INF"] (staleBuild (.file []))
      (Record.write ⟨"1.0", "A"⟩ (staleBuild (.file [])) ⟨"out"⟩).2 := by
  have hfs : (staleBuild (.file [])).WellFormed := by
    decide +kernel
  have hrun : (Record.write ⟨"1.0", "A"⟩ (staleBuild (.file [])) ⟨"out"⟩).1
      = .ok ⟨"out/META-INF/MANIFEST.MF"⟩ := by
    decide +kernel
  have hmade : (staleBuild (.file [])).makeDirectories (directoryPath ⟨"out"⟩)
      = (.ok (), staleBuild (.file [])) := by
    decide +kernel
  have hlocate : (staleBuild (.file [])).locate (directoryPath ⟨"out"⟩)
      = .ok ["out", "META-INF"] := by
    decide +kernel
  obtain ⟨made, directory, hmake, hdirectory, hiff⟩ :=
    Record.write_replaces_iff ⟨"1.0", "A"⟩ hfs (Prod.ext hrun rfl)
  obtain rfl : staleBuild (.file []) = made := congrArg Prod.snd (hmade.symm.trans hmake)
  obtain rfl : ["out", "META-INF"] = directory := Except.ok.inj (hlocate.symm.trans hdirectory)
  have htemporary : (staleBuild (.file [])).get? ["out", "META-INF", "MANIFEST.MF.tmp"]
      = some (.file []) := by
    decide
  refine hiff.2 ⟨fun target hlink => ?_, fun other target hother hlink => ?_⟩
  · exact absurd (htemporary.symm.trans hlink) (by simp)
  · obtain rfl : ["out", "META-INF"] = other := Except.ok.inj (hlocate.symm.trans hother)
    decide +kernel

/-- Over a link in the place of the temporary file, the file to which the link leads is overwritten
although the manifest is written, and the manifest is that link. -/
theorem write_through_staleBuild :
    (staleBuild (.link "../../precious")).WellFormed ∧
      ∃ changed, Record.write ⟨"1.0", "A"⟩ (staleBuild (.link "../../precious")) ⟨"out"⟩
          = (.ok ⟨"out/META-INF/MANIFEST.MF"⟩, changed) ∧
        changed.get? ["precious"]
          = some (.file (Bytes.ofText (Record.render ⟨"1.0", "A"⟩))) ∧
        changed.get? ["precious"] ≠ (staleBuild (.link "../../precious")).get? ["precious"] ∧
        changed.get? ["out", "META-INF", "MANIFEST.MF"] = some (.link "../../precious") := by
  refine ⟨by decide +kernel, _, Prod.ext ?_ rfl, ?_, ?_, ?_⟩
  all_goals decide +kernel

end EntryPoint.Manifest
