import EntryPoint.Proofs.Manifest.WriteThrough
import Mathlib.Logic.Relation

/-!
# Writing that stops on its way

A manifest is written in many steps: one for each directory that is made, one that opens the
temporary file, one for each piece of the text that is appended to it, and one that moves it.
`Step` has a rule for each of them and one for its failure, whatever the reason, and `Reaches` says
how far a run may have come when the process stops. As long as nothing in the manifest's directory
is a link, the manifest is at each such point what it was before or the whole new text.

There is one exception, which no link is needed for. A root may be spelt by way of the manifest's
own path, as in `out/META-INF/MANIFEST.MF/../..`, and where no manifest is there, making the
directories along the root makes one in its place.
-/

namespace EntryPoint.Manifest

open FileSystem (GrowsAlong)

/-! ## Steps -/

/-- How far the writing of a manifest has come. -/
inductive Stage where
  /-- The first directory of a list is to be made, or else the next one before it; others wait until
  it is there. -/
  | seeking (lineage waiting : List Path)
  /-- The directories that wait are made, and then the temporary file is opened. -/
  | making (waiting : List Path)
  /-- The temporary file holds the first part of the text. -/
  | writing (written : Bytes)
  /-- The temporary file could not be moved and is removed. -/
  | removing (fault : SystemFault)
  | finished (answer : Except Failure Path)

/-- The path that the answer names where the next step of a stage is refused and the answer is given
at once. -/
def Stage.subject? (root : Path) : Stage → Option Path
  | .seeking _ _ => some (directoryPath root)
  | .making (_ :: _) => some (directoryPath root)
  | .making [] => some (temporaryPath root)
  | .writing _ => some (temporaryPath root)
  | .removing _ => none
  | .finished _ => none

/-- A directory is made, or it is there already. -/
inductive Enters (path : Path) : FileSystem → FileSystem → Prop where
  | made {fs changed : FileSystem} (h : fs.makeDirectory path = .ok changed) :
    Enters path fs changed
  | there {fs : FileSystem} (h : fs.isDirectory path = true) : Enters path fs fs

/-- One step of writing a record below a root. -/
inductive Step (record : Record) (root : Path) : Stage × FileSystem → Stage × FileSystem → Prop where
  | enter {path : Path} {parents waiting : List Path} {fs changed : FileSystem}
    (h : Enters path fs changed) :
    Step record root (.seeking (path :: parents) waiting, fs) (.making waiting, changed)
  /-- A directory is not found to lie in another one, which is made first. -/
  | climb (path : Path) (parents waiting : List Path) (fs : FileSystem) :
    Step record root (.seeking (path :: parents) waiting, fs) (.seeking parents (path :: waiting), fs)
  | arrive (waiting : List Path) (fs : FileSystem) :
    Step record root (.seeking [] waiting, fs) (.making waiting, fs)
  | enterWaiting {path : Path} {waiting : List Path} {fs changed : FileSystem}
    (h : Enters path fs changed) :
    Step record root (.making (path :: waiting), fs) (.making waiting, changed)
  | create {fs changed : FileSystem} (h : fs.write (temporaryPath root) [] = .ok changed) :
    Step record root (.making [], fs) (.writing [], changed)
  | append {written piece : Bytes} {fs changed : FileSystem}
    (hpart : written ++ piece <+: Bytes.ofText record.render)
    (h : fs.write (temporaryPath root) (written ++ piece) = .ok changed) :
    Step record root (.writing written, fs) (.writing (written ++ piece), changed)
  | move {fs changed : FileSystem}
    (h : fs.rename (temporaryPath root) (filePath root) = .ok changed) :
    Step record root (.writing (Bytes.ofText record.render), fs)
      (.finished (.ok (filePath root)), changed)
  /-- The temporary file cannot be moved. -/
  | retract (fault : SystemFault) (fs : FileSystem) :
    Step record root (.writing (Bytes.ofText record.render), fs) (.removing fault, fs)
  | remove {fault : SystemFault} {fs changed : FileSystem}
    (h : fs.removeFile (temporaryPath root) = .ok changed) :
    Step record root (.removing fault, fs)
      (.finished (.error (.access (filePath root) (.system fault))), changed)
  /-- The temporary file cannot be removed either. -/
  | leave (fault : SystemFault) (fs : FileSystem) :
    Step record root (.removing fault, fs)
      (.finished (.error (.access (filePath root) (.system fault))), fs)
  /-- Any other step is refused. -/
  | refuse {stage : Stage} {path : Path} (hsubject : stage.subject? root = some path)
    (fault : SystemFault) (fs : FileSystem) :
    Step record root (stage, fs) (.finished (.error (.access path (.system fault))), fs)

/-- Whether writing a record may have come to a stage and changed the file system in a way by the
time when the process stops. -/
def Reaches (record : Record) (root : Path) (fs : FileSystem) (stage : Stage)
    (changed : FileSystem) : Prop :=
  Relation.ReflTransGen (Step record root) (.seeking (directoryPath root).lineage [], fs)
    (stage, changed)

/-- Whether the manifest's directory holds no link. That is the directory to which its path leads,
or will lead once missing ones have been made. -/
def HoldsNoLink (fs : FileSystem) (root : Path) : Prop :=
  ∀ made directory, GrowsAlong (directoryPath root).lineage fs made →
    made.locate (directoryPath root) = .ok directory →
    ∀ name target, fs.get? (directory ++ [name]) ≠ some (.link target)

/-! ## What is known at each stage -/

/-- Whether a location is as it was, or a directory has been made there because the path of the
manifest's directory leads by way of it. -/
def AsBefore (root : Path) (fs changed : FileSystem) (location : Location) : Prop :=
  changed.get? location = fs.get? location ∨
    (fs.get? location = none ∧ changed.get? location = some .directory ∧
      ∃ path ∈ (directoryPath root).lineage, changed.locate path = .ok location)

/-- Whether the manifest is as it was. -/
structure Untouched (root : Path) (fs changed : FileSystem) : Prop where
  ways : fs.KeepsWays changed
  manifest : ∀ directory, changed.locate (directoryPath root) = .ok directory →
    AsBefore root fs changed (directory ++ ["MANIFEST.MF"])

/-- Whether the manifest is the text of a record. -/
structure Renewed (record : Record) (root : Path) (fs changed : FileSystem) : Prop where
  ways : fs.KeepsWays changed
  manifest : ∃ directory, changed.locate (directoryPath root) = .ok directory ∧
    changed.get? (directory ++ ["MANIFEST.MF"]) = some (.file (Bytes.ofText record.render))

/-- Whether directories were made up to that of the manifest, in which a file may be written under
the temporary name. -/
structure Prepared (root : Path) (directory : Location) (fs made : FileSystem) : Prop where
  grows : GrowsAlong (directoryPath root).lineage fs made
  ready : Ready made root directory
  temporary : ∀ entry, made.get? (directory ++ ["MANIFEST.MF.tmp"]) = some entry →
    ∃ stored, entry = .file stored
  manifest : ∀ target, made.get? (directory ++ ["MANIFEST.MF"]) ≠ some (.link target)

/-- Whether the temporary file has been written so far. -/
def Drafted (root : Path) (written : Bytes) (fs changed : FileSystem) : Prop :=
  ∃ made directory, Prepared root directory fs made ∧
    changed = made.set (directory ++ ["MANIFEST.MF.tmp"]) (.file written)

/-- What a run leaves at each stage. -/
def Holds (record : Record) (root : Path) (fs : FileSystem) : Stage × FileSystem → Prop
  | (.seeking lineage waiting, changed) =>
    changed.WellFormed ∧ GrowsAlong (directoryPath root).lineage fs changed ∧
      lineage ⊆ (directoryPath root).lineage ∧ waiting ⊆ (directoryPath root).lineage
  | (.making waiting, changed) =>
    changed.WellFormed ∧ GrowsAlong (directoryPath root).lineage fs changed ∧
      waiting ⊆ (directoryPath root).lineage
  | (.writing written, changed) => Drafted root written fs changed
  | (.removing _, changed) => Drafted root (Bytes.ofText record.render) fs changed
  | (.finished (.ok _), changed) => Renewed record root fs changed
  | (.finished (.error _), changed) => Untouched root fs changed

section
variable {fs made changed : FileSystem} {root : Path}

/-- What lay at a location before growing is there, unless a directory was made. -/
lemma asBefore_of_grows (hgrows : GrowsAlong (directoryPath root).lineage fs made)
    (hways : made.KeepsWays changed) {location : Location}
    (h : changed.get? location = made.get? location) : AsBefore root fs changed location := by
  rcases hfound : fs.get? location with _ | entry
  · rcases hmade : made.get? location with _ | entry
    · exact Or.inl (by rw [h, hmade, hfound])
    · obtain ⟨rfl, path, hmem, hlocate⟩ := hgrows.added location entry hfound hmade
      exact Or.inr ⟨hfound, h.trans hmade, path, hmem, hways.locate hlocate hmade⟩
  · exact Or.inl (by rw [h, hgrows.kept _ _ hfound, hfound])

/-- While directories are made, the manifest is as it was. -/
lemma untouched_of_grows (hgrows : GrowsAlong (directoryPath root).lineage fs changed) :
    Untouched root fs changed :=
  ⟨hgrows.keepsWays, fun _ _ => asBefore_of_grows hgrows (.refl changed) rfl⟩

end

namespace Prepared

variable {root : Path} {directory : Location} {fs made changed : FileSystem}
  (h : Prepared root directory fs made)

include h

/-- What differs from the prepared file system in files other than the manifest leaves this as it
was. -/
lemma untouched (hways : made.KeepsWays changed)
    (hsame : changed.get? (directory ++ ["MANIFEST.MF"])
      = made.get? (directory ++ ["MANIFEST.MF"])) :
    Untouched root fs changed := by
  refine ⟨h.grows.keepsWays.trans hways, fun other hother => ?_⟩
  rw [hways.locate h.ready.locate h.ready.directory] at hother
  obtain rfl : directory = other := Except.ok.inj hother
  exact asBefore_of_grows h.grows hways hsame

/-- Without the temporary file, the manifest is as it was. -/
lemma untouched_erase (written : Bytes) :
    Untouched root fs ((made.set (directory ++ ["MANIFEST.MF.tmp"]) (.file written)).erase
      (directory ++ ["MANIFEST.MF.tmp"])) := by
  have hkept : ∀ other found, (∀ stored, found ≠ .file stored) → made.get? other = some found →
      ((made.set (directory ++ ["MANIFEST.MF.tmp"]) (.file written)).erase
        (directory ++ ["MANIFEST.MF.tmp"])).get? other = some found := by
    intro other found hnofile hfound
    have hne : other ≠ directory ++ ["MANIFEST.MF.tmp"] := by
      rintro rfl
      obtain ⟨stored, hstored⟩ := h.temporary found hfound
      exact hnofile stored hstored
    rw [FileSystem.get?_erase_of_ne _ hne, FileSystem.get?_set_of_ne _ _ hne, hfound]
  refine h.untouched ⟨rfl, fun other => hkept other _ (by simp),
    fun other target => hkept other _ (by simp)⟩ ?_
  rw [FileSystem.get?_erase_of_ne _ (by simp), FileSystem.get?_set_of_ne _ _ (by simp)]

/-- With the temporary file moved, the manifest is the text of the record. -/
lemma renewed {record : Record}
    (hfree : made.get? (directory ++ ["MANIFEST.MF"]) ≠ some .directory)
    (hmoved : changed = ((made.set (directory ++ ["MANIFEST.MF.tmp"])
      (.file (Bytes.ofText record.render))).erase (directory ++ ["MANIFEST.MF.tmp"])).set
        (directory ++ ["MANIFEST.MF"]) (.file (Bytes.ofText record.render))) :
    Renewed record root fs changed := by
  have hfile : ∀ entry, made.get? (directory ++ ["MANIFEST.MF"]) = some entry →
      ∃ stored, entry = .file stored := by
    rintro (_ | stored | target) hentry
    · exact absurd hentry hfree
    · exact ⟨stored, rfl⟩
    · exact absurd hentry (h.manifest target)
  have hways := (FileSystem.keepsWays_set (.file (Bytes.ofText record.render)) hfile).trans
    (keepsWays_moved h.temporary _ hmoved).1
  refine ⟨h.grows.keepsWays.trans hways, directory,
    hways.locate h.ready.locate h.ready.directory, ?_⟩
  rw [hmoved, FileSystem.get?_set_self _ _ (by simp)]

/-- With the temporary file, the directory is where it was. -/
lemma ready_set (written : Bytes) :
    Ready (made.set (directory ++ ["MANIFEST.MF.tmp"]) (.file written)) root directory ∧
      (made.set (directory ++ ["MANIFEST.MF.tmp"]) (.file written)).get?
        (directory ++ ["MANIFEST.MF.tmp"]) = some (.file written) :=
  ⟨ready_set_temporary h.ready h.temporary written, made.get?_set_self _ (by simp)⟩

/-- The temporary file may be written again. -/
lemma drafted_of_write {written more : Bytes}
    (hwrite : (made.set (directory ++ ["MANIFEST.MF.tmp"]) (.file written)).write
      (temporaryPath root) more = .ok changed) :
    Drafted root more fs changed := by
  obtain ⟨hready, hstored⟩ := h.ready_set written
  rw [write_temporary hready (by simp [hstored]), FileSystem.set_set] at hwrite
  exact ⟨made, directory, h, (Except.ok.inj hwrite).symm⟩

end Prepared

/-- As long as only the temporary file is written, the manifest is as it was. -/
lemma Drafted.untouched {root : Path} {written : Bytes} {fs changed : FileSystem}
    (h : Drafted root written fs changed) : Untouched root fs changed := by
  obtain ⟨made, directory, hprepared, rfl⟩ := h
  exact hprepared.untouched (FileSystem.keepsWays_set _ hprepared.temporary)
    (FileSystem.get?_set_of_ne made _ (by simp))

section
variable {record : Record} {root : Path} {fs : FileSystem} (hlinks : HoldsNoLink fs root)

include hlinks

/-- Where a file may be written under the temporary name, it is not written through a link. -/
lemma prepared_of_write {made changed : FileSystem} {written : Bytes} (hmade : made.WellFormed)
    (hgrows : GrowsAlong (directoryPath root).lineage fs made)
    (h : made.write (temporaryPath root) written = .ok changed) :
    ∃ directory, Prepared root directory fs made ∧
      changed = made.set (directory ++ ["MANIFEST.MF.tmp"]) (.file written) := by
  obtain ⟨place, hplace⟩ : ∃ place, made.place true (temporaryPath root) = .ok place := by
    rw [FileSystem.write] at h
    split at h
    · exact ⟨_, ‹_›⟩
    · exact ⟨_, ‹_›⟩
    · cases h
  rw [temporaryPath_eq] at hplace
  obtain ⟨directory, hlocate, hdirectory⟩ := hmade.exists_locate_of_place_child
    (withoutTrailing_directoryPath root) isFileName_temporary hplace
  have hready : Ready made root directory := ⟨hmade, hlocate, hdirectory⟩
  have hnolink : ∀ name target, made.get? (directory ++ [name]) ≠ some (.link target) := by
    intro name target hlink
    exact hlinks made directory hgrows hlocate name target ((hgrows.get?_eq (by simp)).1 hlink)
  obtain ⟨-, ⟨target, hlink, -⟩ | ⟨htemporary, hchanged⟩⟩ := write_temporary_cases hready h
  · exact absurd hlink (hnolink _ target)
  · exact ⟨directory, ⟨hgrows, hready, htemporary, hnolink _⟩, hchanged⟩

omit hlinks in
/-- Making a directory, or finding it there, adds directories alone. -/
lemma Enters.grows {path : Path} {made changed : FileSystem} (h : Enters path made changed)
    (hmade : made.WellFormed) : changed.WellFormed ∧ GrowsAlong [path] made changed := by
  obtain hmake | - := h
  · obtain ⟨hchanged, hgrows, -⟩ := hmade.makeDirectory hmake
    exact ⟨hchanged, hgrows⟩
  · exact ⟨hmade, .refl _ _⟩

/-- Every step leaves what is known at the stage to which it leads. -/
theorem Step.holds {before after : Stage × FileSystem} (h : Step record root before after)
    (hbefore : Holds record root fs before) : Holds record root fs after := by
  cases h with
  | enter hstep =>
    obtain ⟨hmade, hgrows, hlineage, hwaiting⟩ := hbefore
    obtain ⟨hchanged, hgrows'⟩ := hstep.grows hmade
    exact ⟨hchanged, hgrows.trans (hgrows'.mono (by simpa using (List.cons_subset.1 hlineage).1)),
      hwaiting⟩
  | climb path parents waiting made =>
    obtain ⟨hmade, hgrows, hlineage, hwaiting⟩ := hbefore
    obtain ⟨hpath, hparents⟩ := List.cons_subset.1 hlineage
    exact ⟨hmade, hgrows, hparents, List.cons_subset.2 ⟨hpath, hwaiting⟩⟩
  | arrive waiting made =>
    obtain ⟨hmade, hgrows, -, hwaiting⟩ := hbefore
    exact ⟨hmade, hgrows, hwaiting⟩
  | enterWaiting hstep =>
    obtain ⟨hmade, hgrows, hwaiting⟩ := hbefore
    obtain ⟨hpath, hrest⟩ := List.cons_subset.1 hwaiting
    obtain ⟨hchanged, hgrows'⟩ := hstep.grows hmade
    exact ⟨hchanged, hgrows.trans (hgrows'.mono (by simpa using hpath)), hrest⟩
  | create hwrite =>
    obtain ⟨hmade, hgrows, -⟩ := hbefore
    obtain ⟨directory, hprepared, hchanged⟩ := prepared_of_write hlinks hmade hgrows hwrite
    exact ⟨_, directory, hprepared, hchanged⟩
  | append hpart hwrite =>
    obtain ⟨made, directory, hprepared, rfl⟩ := hbefore
    exact hprepared.drafted_of_write hwrite
  | move hrename =>
    obtain ⟨made, directory, hprepared, rfl⟩ := hbefore
    obtain ⟨hready, hstored⟩ := hprepared.ready_set (Bytes.ofText record.render)
    rw [rename_temporary hready hstored (by simp)] at hrename
    split_ifs at hrename with hfree
    rw [FileSystem.get?_set_of_ne made _ (by simp)] at hfree
    exact hprepared.renewed hfree (Except.ok.inj hrename).symm
  | retract fault made => exact hbefore
  | remove hremove =>
    obtain ⟨made, directory, hprepared, rfl⟩ := hbefore
    obtain ⟨hready, hstored⟩ := hprepared.ready_set (Bytes.ofText record.render)
    rw [removeFile_temporary hready hstored (by simp)] at hremove
    obtain rfl := Except.ok.inj hremove
    exact hprepared.untouched_erase _
  | leave fault made =>
    exact hbefore.untouched
  | @refuse stage path hsubject fault made =>
    rcases stage with ⟨lineage, waiting⟩ | waiting | written | _ | _
    · exact untouched_of_grows hbefore.2.1
    · exact untouched_of_grows hbefore.2.1
    · exact hbefore.untouched
    · cases hsubject
    · cases hsubject

/-- So does every run. -/
theorem holds_of_run (hfs : fs.WellFormed) {after : Stage × FileSystem}
    (h : Relation.ReflTransGen (Step record root) (.seeking (directoryPath root).lineage [], fs)
      after) : Holds record root fs after := by
  induction h with
  | refl => exact ⟨hfs, .refl _ _, List.Subset.refl _, List.nil_subset _⟩
  | tail _ hstep ih => exact hstep.holds hlinks ih

end

/-! ## The run of the program -/

section
variable (record : Record) (root : Path)

/-- Making directories goes through the stages of making them. -/
lemma reaches_of_makeLineage {lineage : List Path} {fs changed : FileSystem}
    {answer : Except SystemFault Unit} (h : FileSystem.makeLineage lineage fs = (answer, changed))
    (waiting : List Path) :
    (answer = .ok () → Relation.ReflTransGen (Step record root) (.seeking lineage waiting, fs)
      (.making waiting, changed)) ∧
    ∀ fault, answer = .error fault → Relation.ReflTransGen (Step record root)
      (.seeking lineage waiting, fs)
      (.finished (.error (.access (directoryPath root) (.system fault))), changed) := by
  induction lineage generalizing fs changed answer waiting with
  | nil =>
    cases h
    exact ⟨fun _ => .single (.arrive waiting _), by simp⟩
  | cons path parents ih =>
    rw [FileSystem.makeLineage] at h
    split at h
    · rename_i made hmake
      cases h
      exact ⟨fun _ => .single (.enter (.made hmake)), by simp⟩
    · split at h
      · rename_i fault after hrest
        cases h
        refine ⟨by simp, fun other hother => ?_⟩
        exact .head (.climb path parents waiting fs) ((ih hrest (path :: waiting)).2 other hother)
      · rename_i after hrest
        have hclimb := Relation.ReflTransGen.head (.climb path parents waiting fs)
          ((ih hrest (path :: waiting)).1 rfl)
        split at h
        · rename_i made hmake
          cases h
          exact ⟨fun _ => hclimb.tail (.enterWaiting (.made hmake)), by simp⟩
        · rename_i fault _
          split_ifs at h with hthere
          · cases h
            exact ⟨fun _ => hclimb.tail (.enterWaiting (.there hthere)), by simp⟩
          · cases h
            refine ⟨by simp, fun other hother => ?_⟩
            cases hother
            exact hclimb.tail (.refuse rfl fault _)
    · rename_i fault _ hmake
      split_ifs at h with hthere
      · cases h
        exact ⟨fun _ => .single (.enter (.there hthere)), by simp⟩
      · cases h
        refine ⟨by simp, fun other hother => ?_⟩
        cases hother
        exact .single (.refuse rfl fault fs)

/-- Writing a record is a run. -/
theorem Record.reaches_write {fs : FileSystem} (hfs : fs.WellFormed)
    (hlinks : HoldsNoLink fs root) :
    Reaches record root fs (.finished (record.write fs root).1) (record.write fs root).2 := by
  rw [write]
  split
  · rename_i fault made hmake
    exact (reaches_of_makeLineage record root hmake []).2 fault rfl
  rename_i made hmake
  have hmaking : Reaches record root fs (.making []) made :=
    (reaches_of_makeLineage record root hmake []).1 rfl
  split
  · rename_i fault hwrite
    exact hmaking.tail (.refuse rfl fault made)
  rename_i written hwrite
  obtain ⟨hmade, hgrows, -⟩ := ready_of_makeDirectories hfs hmake
  obtain ⟨directory, hprepared, rfl⟩ := prepared_of_write hlinks hmade hgrows hwrite
  obtain ⟨hready, hstored⟩ := hprepared.ready_set []
  have hcreate := write_temporary hprepared.ready hprepared.temporary []
  have happend := write_temporary hready (by simp [hstored]) ([] ++ Bytes.ofText record.render)
  rw [FileSystem.set_set] at happend
  have hwhole : [] ++ Bytes.ofText record.render <+: Bytes.ofText record.render := by
    simp only [List.nil_append, List.prefix_rfl]
  have hwriting : Reaches record root fs (.writing ([] ++ Bytes.ofText record.render))
      (made.set (directory ++ ["MANIFEST.MF.tmp"]) (.file ([] ++ Bytes.ofText record.render))) :=
    (hmaking.tail (.create hcreate)).tail (.append hwhole happend)
  rw [List.nil_append] at hwriting
  rw [publish]
  split
  · rename_i moved hrename
    exact hwriting.tail (.move hrename)
  · rename_i fault hrename
    have hremoving := hwriting.tail (.retract fault _)
    split
    · rename_i removed hremove
      exact hremoving.tail (.remove hremove)
    · exact hremoving.tail (.leave fault _)

end

/-! ## Never half-written -/

/-- At every point of every run, the manifest is as it was or the text of the record, and in the end
the answer tells which of the two. -/
theorem Record.write_never_half (record : Record) {fs : FileSystem} (hfs : fs.WellFormed)
    {root : Path} (hlinks : HoldsNoLink fs root) :
    Reaches record root fs (.finished (record.write fs root).1) (record.write fs root).2 ∧
    ∀ stage changed, Reaches record root fs stage changed →
      (Untouched root fs changed ∨ Renewed record root fs changed) ∧
      (∀ path, stage = .finished (.ok path) → Renewed record root fs changed) ∧
      ∀ failure, stage = .finished (.error failure) → Untouched root fs changed := by
  refine ⟨Record.reaches_write record root hfs hlinks, fun stage changed hreaches => ?_⟩
  have hholds := holds_of_run hlinks hfs hreaches
  rcases stage with ⟨lineage, waiting⟩ | waiting | written | fault | failure | path
  · exact ⟨Or.inl (untouched_of_grows hholds.2.1), by simp, by simp⟩
  · exact ⟨Or.inl (untouched_of_grows hholds.2.1), by simp, by simp⟩
  · exact ⟨Or.inl hholds.untouched, by simp, by simp⟩
  · exact ⟨Or.inl hholds.untouched, by simp, by simp⟩
  · exact ⟨Or.inl hholds, by simp, fun _ _ => hholds⟩
  · exact ⟨Or.inr hholds, fun _ _ => hholds, by simp⟩

/-- A root with an older manifest. -/
def olderBuild : FileSystem :=
  ⟨[(["out"], .directory), (["out", "META-INF"], .directory),
    (["out", "META-INF", "MANIFEST.MF"], .file (Bytes.ofText "older"))], []⟩

/-- Whenever writing stops, the manifest is the older one or the new one. -/
theorem write_never_half_olderBuild :
    olderBuild.WellFormed ∧ HoldsNoLink olderBuild ⟨"out"⟩ ∧
      ∀ stage changed, Reaches ⟨"1.0", "A"⟩ ⟨"out"⟩ olderBuild stage changed →
        changed.get? ["out", "META-INF", "MANIFEST.MF"] = some (.file (Bytes.ofText "older")) ∨
          changed.get? ["out", "META-INF", "MANIFEST.MF"]
            = some (.file (Bytes.ofText (Record.render ⟨"1.0", "A"⟩))) := by
  have hfs : olderBuild.WellFormed := by
    decide +kernel
  have hlinks : HoldsNoLink olderBuild ⟨"out"⟩ := by
    intro made directory _ _ name target hlink
    have hmem := FileSystem.mem_entries_of_get? (by simp) hlink
    simp [olderBuild] at hmem
  have hlocate : olderBuild.locate (directoryPath ⟨"out"⟩) = .ok ["out", "META-INF"] := by
    decide +kernel
  have holder : olderBuild.get? ["out", "META-INF", "MANIFEST.MF"]
      = some (.file (Bytes.ofText "older")) := by
    decide +kernel
  refine ⟨hfs, hlinks, fun stage changed hreaches ↦ ?_⟩
  obtain ⟨-, hruns⟩ := Record.write_never_half ⟨"1.0", "A"⟩ hfs hlinks
  obtain ⟨huntouched | hrenewed, -, -⟩ := hruns stage changed hreaches
  · have hstays := huntouched.ways.locate hlocate (by decide)
    rcases huntouched.manifest _ hstays with hsame | ⟨hnone, -, -⟩
    · exact Or.inl (hsame.trans holder)
    · exact absurd (hnone.symm.trans holder) (by simp)
  · obtain ⟨directory, hdirectory, hfile⟩ := hrenewed.manifest
    have hstays := hrenewed.ways.locate hlocate (by decide)
    obtain rfl : ["out", "META-INF"] = directory := Except.ok.inj (hstays.symm.trans hdirectory)
    exact Or.inr hfile

/-- A root without a manifest. -/
def bareBuild : FileSystem :=
  ⟨[(["out"], .directory), (["out", "META-INF"], .directory)], []⟩

/-- Where a root is spelt by way of the path of its manifest, a directory is made in the place of
the manifest. It is there when writing has failed, although nothing was there before. -/
theorem write_makes_directory_bareBuild :
    bareBuild.WellFormed ∧ (∀ location target, bareBuild.get? location ≠ some (.link target)) ∧
      ∃ failure changed, Reaches ⟨"1.0", "A"⟩ ⟨"out/META-INF/MANIFEST.MF/../.."⟩ bareBuild
          (.finished (.error failure)) changed ∧
        changed.locate (directoryPath ⟨"out/META-INF/MANIFEST.MF/../.."⟩)
          = .ok ["out", "META-INF"] ∧
        bareBuild.get? ["out", "META-INF", "MANIFEST.MF"] = none ∧
        changed.get? ["out", "META-INF", "MANIFEST.MF"] = some .directory := by
  have hfs : bareBuild.WellFormed := by
    decide +kernel
  have hlinks : ∀ location target, bareBuild.get? location ≠ some (.link target) := by
    rintro location target hlink
    by_cases hroot : location = []
    · rw [hroot] at hlink
      cases hlink
    · have hmem := FileSystem.mem_entries_of_get? hroot hlink
      simp [bareBuild] at hmem
  have hreaches := Record.reaches_write ⟨"1.0", "A"⟩ ⟨"out/META-INF/MANIFEST.MF/../.."⟩ hfs
    fun _ directory _ _ name target => hlinks (directory ++ [name]) target
  have hanswer : (Record.write ⟨"1.0", "A"⟩ bareBuild ⟨"out/META-INF/MANIFEST.MF/../.."⟩).1
      = .error (.access (filePath ⟨"out/META-INF/MANIFEST.MF/../.."⟩) (.system .isADirectory)) := by
    decide +kernel
  rw [hanswer] at hreaches
  refine ⟨hfs, hlinks, _, _, hreaches, ?_, ?_, ?_⟩
  all_goals decide +kernel

end EntryPoint.Manifest
