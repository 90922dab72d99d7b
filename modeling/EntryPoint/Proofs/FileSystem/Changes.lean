import EntryPoint.FileSystem.Change
import EntryPoint.Proofs.FileSystem.Walking

/-!
# What changes leave

A walk that ends at nothing ends at a free name in a directory, and once a directory is made there
the same path leads to it. So making a directory with its missing parents adds directories and does
nothing else: every entry stays, and each new directory is where one of the paths leads that were
to be made (`GrowsAlong`). This holds whether or not the last of them could be made; if it was, its
path leads to a directory. Writing puts a file at a free name or in the place of a file. All changes
leave a file system well-formed.
-/

namespace EntryPoint.FileSystem

open EntryPoint.Path (isBlank)

/-! ## Free names -/

/-- Whether a name is free in a directory. -/
structure IsVacant (fs : FileSystem) (holder : Location) (name : String) : Prop where
  directory : fs.get? holder = some .directory
  isFileName : IsFileName name
  free : fs.get? (holder ++ [name]) = none

/-- A walk that stops on its way stops at a free name, or at a link in a directory with segments
left over. -/
lemma WellFormed.advance_stops {fs : FileSystem} (hfs : fs.WellFormed) {followLast : Bool}
    {directory : Location} (hdirectory : fs.get? directory = some .directory)
    {segments : List String} (hslash : ∀ segment ∈ segments, '/' ∉ segment.toList)
    {progress : Progress} (h : fs.advance followLast directory segments = .ok progress) :
    (∀ holder name, progress = .arrived (.vacant holder name) → fs.IsVacant holder name) ∧
    (∀ holder target rest, progress = .atLink holder target rest →
      fs.get? holder = some .directory ∧ ∀ segment ∈ rest, '/' ∉ segment.toList) := by
  induction segments generalizing directory with
  | nil =>
    obtain rfl : .arrived (.found directory) = progress := Except.ok.inj h
    simp
  | cons segment rest ih =>
    rw [List.forall_mem_cons] at hslash
    rw [advance] at h
    by_cases hblank : isBlank segment = true
    · rw [if_pos hblank] at h
      exact ih hdirectory hslash.2 h
    by_cases hup : segment = ".."
    · rw [if_neg hblank, if_pos hup] at h
      exact ih (hfs.directory_dropLast hdirectory) hslash.2 h
    have hname : IsFileName segment := by
      simp only [isBlank, Bool.or_eq_true, decide_eq_true_eq, not_or] at hblank
      exact ⟨hblank.1, hblank.2, hup, hslash.1⟩
    rw [if_neg hblank, if_neg hup] at h
    rcases hentry : fs.get? (directory ++ [segment]) with _ | _ | contents | target
    all_goals simp only [hentry] at h
    · split_ifs at h
      obtain rfl : .arrived (.vacant directory segment) = progress := Except.ok.inj h
      refine ⟨fun holder name hplace => ?_, by simp⟩
      cases hplace
      exact ⟨hdirectory, hname, hentry⟩
    · exact ih hentry hslash.2 h
    · split_ifs at h
      obtain rfl : .arrived (.found (directory ++ [segment])) = progress := Except.ok.inj h
      simp
    · split_ifs at h
      · obtain rfl : .arrived (.found (directory ++ [segment])) = progress := Except.ok.inj h
        simp
      · obtain rfl : .atLink directory target rest = progress := Except.ok.inj h
        refine ⟨by simp, fun holder found left hlink => ?_⟩
        cases hlink
        exact ⟨hdirectory, hslash.2⟩

/-- No segment of a path holds a slash. -/
lemma slash_notMem_segments (path : Path) : ∀ segment ∈ path.segments, '/' ∉ segment.toList :=
  fun _ hsegment hslash => (Path.mem_and_ne_of_mem_segments hsegment hslash).2 rfl

/-- A path that leads to nothing leads to a free name in a directory. -/
theorem WellFormed.isVacant_of_place {fs : FileSystem} (hfs : fs.WellFormed) {followLast : Bool}
    {path : Path} {holder : Location} {name : String}
    (h : fs.place followLast path = .ok (.vacant holder name)) : fs.IsVacant holder name := by
  have hwalk : ∀ links directory segments, fs.get? directory = some .directory →
      (∀ segment ∈ segments, '/' ∉ segment.toList) →
      fs.walk followLast links directory segments = .ok (.vacant holder name) →
      fs.IsVacant holder name := by
    intro links
    induction links using Nat.strongRecOn with
    | ind links ih =>
      intro directory segments hdirectory hslash hvacant
      rcases walk_eq_ok_iff.1 hvacant with
        harrived | ⟨left, place, target, rest, rfl, -, hlink, hrest⟩
      · exact (hfs.advance_stops hdirectory hslash harrived).1 _ _ rfl
      · obtain ⟨hplace, hleft⟩ := (hfs.advance_stops hdirectory hslash hlink).2 _ _ _ rfl
        refine ih left (Nat.lt_succ_self left) _ _ (get?_origin hplace _) ?_ hrest
        exact List.forall_mem_append.2 ⟨slash_notMem_segments _, hleft⟩
  unfold place at h
  split_ifs at h
  exact hwalk _ _ _ (get?_origin hfs.current path) (slash_notMem_segments path) h

section
variable {fs changed : FileSystem} (hkeeps : fs.KeepsWays changed) {holder : Location}
  {name : String} (hmade : changed.get? (holder ++ [name]) = some .directory)
  {followLast : Bool}

include hkeeps

/-- Segments that lead to a link that has to be followed lead there after a change that keeps the
ways, also where a link at their end is followed. -/
lemma KeepsWays.advance_atLink {directory place : Location} {segments rest : List String}
    {target : String}
    (h : fs.advance followLast directory segments = .ok (.atLink place target rest)) :
    changed.advance true directory segments = .ok (.atLink place target rest) := by
  induction segments generalizing directory with
  | nil => cases h
  | cons segment more ih =>
    rw [FileSystem.advance] at h ⊢
    by_cases hblank : isBlank segment = true
    · rw [if_pos hblank] at h ⊢
      exact ih h
    by_cases hup : segment = ".."
    · rw [if_neg hblank, if_pos hup] at h ⊢
      exact ih h
    rw [if_neg hblank, if_neg hup] at h ⊢
    rcases hentry : fs.get? (directory ++ [segment]) with _ | _ | contents | found
    all_goals simp only [hentry] at h
    · split_ifs at h
      cases h
    · simp only [hkeeps.directories _ hentry]
      exact ih h
    · split_ifs at h
      cases h
    · split_ifs at h
      · cases h
      · simp only [hkeeps.links _ _ hentry, not_true_eq_false, and_false, if_false]
        exact h

include hmade

/-- Segments that led to a free name lead to the directory that is made there. -/
lemma KeepsWays.advance_made {directory : Location} {segments : List String}
    (h : fs.advance followLast directory segments = .ok (.arrived (.vacant holder name))) :
    changed.advance true directory segments = .ok (.arrived (.found (holder ++ [name]))) := by
  induction segments generalizing directory with
  | nil => cases h
  | cons segment rest ih =>
    rw [FileSystem.advance] at h ⊢
    by_cases hblank : isBlank segment = true
    · rw [if_pos hblank] at h ⊢
      exact ih h
    by_cases hup : segment = ".."
    · rw [if_neg hblank, if_pos hup] at h ⊢
      exact ih h
    rw [if_neg hblank, if_neg hup] at h ⊢
    rcases hentry : fs.get? (directory ++ [segment]) with _ | _ | contents | found
    all_goals simp only [hentry] at h
    · split_ifs at h with hrest
      cases h
      have hblanks : ∀ other ∈ rest, isBlank other = true := by
        intro other hother
        have hempty := List.all_eq_true.1 hrest other hother
        simp [isBlank, of_decide_eq_true hempty]
      simp only [hmade]
      exact advance_blanks changed true _ hblanks
    · simp only [hkeeps.directories _ hentry]
      exact ih h
    · split_ifs at h
      cases h
    · split_ifs at h <;> cases h

/-- A path that led to a free name leads to the directory that is made there. -/
theorem KeepsWays.locate_made {path : Path}
    (h : fs.place followLast path = .ok (.vacant holder name)) :
    changed.locate path = .ok (holder ++ [name]) := by
  have hwalk : ∀ links directory segments,
      fs.walk followLast links directory segments = .ok (.vacant holder name) →
      changed.walk true links directory segments = .ok (.found (holder ++ [name])) := by
    intro links
    induction links using Nat.strongRecOn with
    | ind links ih =>
      intro directory segments hvacant
      rcases walk_eq_ok_iff.1 hvacant with
        harrived | ⟨left, place, target, rest, rfl, htarget, hlink, hrest⟩
      · exact walk_eq_ok_iff.2 (Or.inl (hkeeps.advance_made hmade harrived))
      · exact walk_eq_ok_iff.2 (Or.inr ⟨left, place, target, rest, rfl, htarget,
          hkeeps.advance_atLink hlink, ih left (Nat.lt_succ_self left) _ _ hrest⟩)
  unfold place at h
  split_ifs at h with htext
  rw [locate_eq_ok_iff_place, place, if_neg htext, hkeeps.current, hwalk _ _ _ h]

end

/-! ## Growing -/

/-- Whether one file system has grown into another by directories to which some of the given paths
lead, and by nothing else. -/
structure GrowsAlong (paths : List Path) (fs changed : FileSystem) : Prop where
  current : changed.currentDirectory = fs.currentDirectory
  kept : ∀ location entry, fs.get? location = some entry → changed.get? location = some entry
  added : ∀ location entry, fs.get? location = none → changed.get? location = some entry →
    entry = .directory ∧ ∃ path ∈ paths, changed.locate path = .ok location

namespace GrowsAlong

variable {paths more : List Path} {fs middle changed : FileSystem}

lemma refl (paths : List Path) (fs : FileSystem) : GrowsAlong paths fs fs := by
  refine ⟨rfl, fun _ _ h => h, fun location entry hnone hsome => ?_⟩
  rw [hnone] at hsome
  cases hsome

/-- Whatever grows keeps its ways. -/
lemma keepsWays (h : GrowsAlong paths fs changed) : fs.KeepsWays changed :=
  ⟨h.current, fun _ hentry => h.kept _ _ hentry, fun _ _ hentry => h.kept _ _ hentry⟩

lemma mono (h : GrowsAlong paths fs changed) (hsub : paths ⊆ more) :
    GrowsAlong more fs changed := by
  refine ⟨h.current, h.kept, fun location entry hnone hsome => ?_⟩
  obtain ⟨hentry, path, hmem, hlocate⟩ := h.added location entry hnone hsome
  exact ⟨hentry, path, hsub hmem, hlocate⟩

lemma trans (h : GrowsAlong paths fs middle) (h' : GrowsAlong paths middle changed) :
    GrowsAlong paths fs changed := by
  refine ⟨h'.current.trans h.current, fun _ _ hentry => h'.kept _ _ (h.kept _ _ hentry), ?_⟩
  intro location entry hnone hsome
  rcases hentry : middle.get? location with _ | found
  · exact h'.added location entry hentry hsome
  · obtain ⟨rfl, path, hmem, hlocate⟩ := h.added location found hnone hentry
    have hkept := h'.kept _ _ hentry
    rw [hsome] at hkept
    exact ⟨Option.some.inj hkept, path, hmem, h'.keepsWays.locate hlocate hentry⟩

/-- What lies at a location after growing lay there before, unless it is a directory. -/
lemma get?_eq (h : GrowsAlong paths fs changed) {location : Location} {entry : Entry}
    (hentry : entry ≠ .directory) :
    changed.get? location = some entry ↔ fs.get? location = some entry := by
  refine ⟨fun hsome => ?_, h.kept location entry⟩
  rcases hfound : fs.get? location with _ | found
  · exact absurd (h.added location entry hfound hsome).1 hentry
  · rw [← h.kept _ _ hfound, hsome]

end GrowsAlong

/-! ## Making a directory, and its parents -/

/-- A directory is made at a free name. -/
lemma makeDirectory_eq_ok_iff {fs : FileSystem} {path : Path} {changed : FileSystem} :
    fs.makeDirectory path = .ok changed ↔
      ∃ holder name, fs.place false path = .ok (.vacant holder name) ∧
        changed = fs.set (holder ++ [name]) .directory := by
  rw [makeDirectory]
  rcases fs.place false path with fault | location | ⟨holder, name⟩
  · simp
  · simp
  · simp [eq_comm]

/-- Where a directory is made, its path leads to it, and nothing else changes. -/
theorem WellFormed.makeDirectory {fs : FileSystem} (hfs : fs.WellFormed) {path : Path}
    {changed : FileSystem} (h : fs.makeDirectory path = .ok changed) :
    changed.WellFormed ∧ GrowsAlong [path] fs changed ∧ changed.isDirectory path = true := by
  obtain ⟨holder, name, hplace, rfl⟩ := makeDirectory_eq_ok_iff.1 h
  obtain ⟨hholder, hname, hfree⟩ := hfs.isVacant_of_place hplace
  have hmade := fs.get?_set_self .directory
    (List.append_ne_nil_of_right_ne_nil holder (List.cons_ne_nil name []))
  have hkeeps : fs.KeepsWays (fs.set (holder ++ [name]) .directory) :=
    keepsWays_set _ (by simp [hfree])
  have hlocate := hkeeps.locate_made hmade hplace
  refine ⟨hfs.set hname hholder (Or.inl rfl), ⟨rfl, ?_, ?_⟩, ?_⟩
  · intro location entry hentry
    have hne : location ≠ holder ++ [name] := by
      rintro rfl
      rw [hfree] at hentry
      cases hentry
    rwa [get?_set_of_ne fs _ hne]
  · intro location entry hnone hsome
    by_cases hsame : location = holder ++ [name]
    · subst hsame
      rw [hmade] at hsome
      exact ⟨(Option.some.inj hsome).symm, path, List.mem_singleton_self path, hlocate⟩
    · rw [get?_set_of_ne fs _ hsame, hnone] at hsome
      cases hsome
  · exact isDirectory_iff.2 (status_eq_ok_iff.2 ⟨_, hlocate, hmade⟩)

/-- Making directories, one in the other, adds directories alone, and if all could be made then the
path of the innermost leads to one. -/
theorem WellFormed.makeLineage {fs : FileSystem} (hfs : fs.WellFormed) {lineage : List Path}
    {answer : Except SystemFault Unit} {changed : FileSystem}
    (h : makeLineage lineage fs = (answer, changed)) :
    changed.WellFormed ∧ GrowsAlong lineage fs changed ∧
      (answer = .ok () → ∀ path ∈ lineage.head?, changed.isDirectory path = true) := by
  induction lineage generalizing fs answer changed with
  | nil =>
    cases h
    exact ⟨hfs, .refl [] _, by simp⟩
  | cons path parents ih =>
    have hsingle : [path] ⊆ path :: parents := by
      simp
    have hparents : parents ⊆ path :: parents := by
      simp
    simp only [List.head?_cons, Option.mem_some_iff, forall_eq']
    rw [FileSystem.makeLineage] at h
    split at h
    · rename_i made hmake
      cases h
      obtain ⟨hchanged, hgrows, hdirectory⟩ := hfs.makeDirectory hmake
      exact ⟨hchanged, hgrows.mono hsingle, fun _ => hdirectory⟩
    · split at h
      · rename_i fault after hrest
        cases h
        obtain ⟨hchanged, hgrows, -⟩ := ih hfs hrest
        exact ⟨hchanged, hgrows.mono hparents, by simp⟩
      · rename_i after hrest
        obtain ⟨hafter, hgrows, -⟩ := ih hfs hrest
        split at h
        · rename_i made hmake
          cases h
          obtain ⟨hchanged, hgrows', hdirectory⟩ := hafter.makeDirectory hmake
          exact ⟨hchanged, (hgrows.mono hparents).trans (hgrows'.mono hsingle), fun _ => hdirectory⟩
        · cases h
          refine ⟨hafter, hgrows.mono hparents, fun hok => ?_⟩
          by_contra hnot
          simp [hnot] at hok
    · cases h
      refine ⟨hfs, .refl _ _, fun hok => ?_⟩
      by_contra hnot
      simp [hnot] at hok

/-! ## Files and links -/

/-- Without a file or a link, a file system is well-formed still. -/
lemma WellFormed.erase {fs : FileSystem} (hfs : fs.WellFormed) {location : Location}
    {entry : Entry} (h : fs.get? location = some entry) (hentry : entry ≠ .directory) :
    (fs.erase location).WellFormed := by
  have hkept : ∀ other, fs.get? other = some .directory →
      (fs.erase location).get? other = some .directory := by
    intro other hother
    have hne : other ≠ location := by
      rintro rfl
      exact hentry (Option.some.inj (h.symm.trans hother))
    rw [get?_erase_of_ne fs hne, hother]
  have hmem : ∀ {pair}, pair ∈ (fs.erase location).entries → pair ∈ fs.entries :=
    fun hpair => (List.mem_filter.1 hpair).1
  constructor
  · exact hfs.nodup.sublist (List.filter_sublist.map _)
  · exact fun other found hpair => hfs.ne_nil other found (hmem hpair)
  · exact fun other found hpair => hfs.names other found (hmem hpair)
  · exact fun other found hpair => hkept _ (hfs.parent other found (hmem hpair))
  · exact hkept _ hfs.current

/-- A file may take the place of a file. -/
lemma WellFormed.set_file {fs : FileSystem} (hfs : fs.WellFormed) {location : Location}
    {stored : Bytes} (h : fs.get? location = some (.file stored)) (contents : Bytes) :
    location ≠ [] ∧ (fs.set location (.file contents)).WellFormed := by
  rcases List.eq_nil_or_concat location with rfl | ⟨holder, name, rfl⟩
  · cases h
  rw [List.concat_eq_append] at h ⊢
  have hname : IsFileName name := hfs.isFileName_of_mem h name (by simp)
  exact ⟨by simp, hfs.set hname (hfs.directory_of_get? h) (Or.inr (by simp [h]))⟩

/-- What is written is put at a free name or in the place of a file. -/
theorem WellFormed.write {fs : FileSystem} (hfs : fs.WellFormed) {path : Path} {contents : Bytes}
    {changed : FileSystem} (h : fs.write path contents = .ok changed) :
    ∃ location, location ≠ [] ∧
      (∀ found, fs.get? location = some found → ∃ stored, found = .file stored) ∧
      changed = fs.set location (.file contents) ∧ changed.WellFormed := by
  rw [FileSystem.write] at h
  split at h
  · rename_i holder name hplace
    obtain ⟨hholder, hname, hfree⟩ := hfs.isVacant_of_place hplace
    cases h
    exact ⟨holder ++ [name], by simp, by simp [hfree], rfl,
      hfs.set hname hholder (Or.inr (by simp [hfree]))⟩
  · rename_i location hplace
    split at h
    · rename_i stored hfile
      cases h
      obtain ⟨hne, hchanged⟩ := hfs.set_file hfile contents
      exact ⟨location, hne, by simp [hfile], rfl, hchanged⟩
    · cases h
  · cases h

end EntryPoint.FileSystem
