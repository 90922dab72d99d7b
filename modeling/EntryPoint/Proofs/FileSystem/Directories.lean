import EntryPoint.Proofs.FileSystem.Changes

/-!
# Making directories below a root

Where there is no link along given names below a root, the path of the names leads to what lies
there and to nothing else. If moreover whatever lies along the names is a directory, then the
directories along them can be made: those that are missing are put there, the outermost first, and
nothing else changes (`MadeAlong`).
-/

namespace EntryPoint.FileSystem

/-! ## Walking without links -/

/-- Where no link lies along names, a walk along them that finds anything ends at their location. -/
lemma walk_linkless {fs : FileSystem} {names : Location} (hnames : ∀ name ∈ names, IsFileName name)
    {location : Location}
    (hlinks : ∀ part, part <+: names → ∀ target, fs.get? (location ++ part) ≠ some (.link target))
    {links : Nat} {followLast : Bool} {found : Location}
    (h : fs.walk followLast links location names = .ok (.found found)) :
    found = location ++ names := by
  induction names generalizing location with
  | nil =>
    rw [walk] at h
    obtain rfl : location = found := by
      simpa [advance] using h
    exact (List.append_nil location).symm
  | cons name rest ih =>
    rw [List.forall_mem_cons] at hnames
    have hblank := Path.isBlank_eq_false hnames.1
    have hsplit : ∀ part, location ++ name :: part = location ++ [name] ++ part := by
      simp
    rcases hentry : fs.get? (location ++ [name]) with _ | _ | contents | target
    · rw [walk] at h
      simp only [advance, hblank, hnames.1.2.2.1, hentry, Bool.false_eq_true, if_false] at h
      split_ifs at h
      simp at h
    · rw [walk_directory hnames.1 hentry] at h
      rw [hsplit]
      refine ih hnames.2 (fun part hpart target => ?_) h
      rw [← hsplit]
      exact hlinks _ (List.cons_prefix_cons.2 ⟨rfl, hpart⟩) target
    · rw [walk] at h
      simp only [advance, hblank, hnames.1.2.2.1, hentry, Bool.false_eq_true, if_false] at h
      split_ifs at h with hrest
      · subst hrest
        obtain rfl : location ++ [name] = found := by
          simpa using h
        rfl
    · exact absurd hentry (hlinks [name] (by simp) target)

/-- Where directories lie along names as far as anything does, and nothing lies in the place of the
last directory, a walk to a name in it fails. -/
lemma walk_missing {fs : FileSystem} {front : Location} {name : String}
    (hnames : ∀ other ∈ front ++ [name], IsFileName other) {location : Location}
    (hlocation : fs.get? location = some .directory)
    (hpart : ∀ part, part <+: front → ∀ entry, fs.get? (location ++ part) = some entry →
      entry = .directory)
    (hmissing : fs.get? (location ++ front) = none) (followLast : Bool) (links : Nat) :
    fs.walk followLast links location (front ++ [name]) = .error .notFound := by
  induction front generalizing location with
  | nil =>
    rw [List.append_nil, hlocation] at hmissing
    cases hmissing
  | cons first front ih =>
    rw [List.cons_append, List.forall_mem_cons] at hnames
    have hsplit : ∀ part, location ++ first :: part = location ++ [first] ++ part := by
      simp
    rcases hentry : fs.get? (location ++ [first]) with _ | entry
    · have hrest : (front ++ [name]).all (· = "") = false := by
        have hempty := (hnames.2 name (by simp)).1
        simp [hempty]
      rw [List.cons_append, walk]
      simp [advance, Path.isBlank_eq_false hnames.1, hnames.1.2.2.1, hentry, hrest]
    · obtain rfl := hpart [first] (by simp) entry hentry
      rw [List.cons_append, walk_directory hnames.1 hentry]
      rw [hsplit] at hmissing
      refine ih hnames.2 hentry (fun part hprefix found hfound => ?_) hmissing
      rw [← hsplit] at hfound
      exact hpart _ (List.cons_prefix_cons.2 ⟨rfl, hprefix⟩) found hfound

/-- Without links along the names, the path of something below a root leads to what lies there. -/
theorem WellFormed.status_child_iff {fs : FileSystem} (hfs : fs.WellFormed) {root : Path}
    {location : Location} (hroot : fs.locate root = .ok location)
    (hlocation : fs.get? location = some .directory) {names : Location} (hne : names ≠ [])
    (hnames : ∀ name ∈ names, IsFileName name)
    (hlinks : ∀ part, part <+: names → ∀ target, fs.get? (location ++ part) ≠ some (.link target))
    {entry : Entry} :
    fs.status (root.child names) = .ok entry ↔ fs.get? (location ++ names) = some entry := by
  constructor
  · intro h
    obtain ⟨found, hlocate, hentry⟩ := status_eq_ok_iff.1 h
    obtain ⟨links, hwalk⟩ := place_child hroot hlocation hne hnames true
    rw [locate_eq_ok_iff_place, hwalk] at hlocate
    rwa [walk_linkless hnames hlinks hlocate] at hentry
  · intro h
    refine hfs.status_child hroot hne h ?_
    rintro target rfl
    exact hlinks names List.prefix_rfl target h

/-! ## Directories along names -/

/-- A list does not start with itself and more. -/
lemma not_concat_prefix (front : Location) (name : String) : ¬front ++ [name] <+: front := by
  intro h
  have hlength := h.length_le
  rw [List.length_append, List.length_singleton] at hlength
  omega

/-- Whether a file system has become another one by the directories along names below a location. -/
structure MadeAlong (fs : FileSystem) (location names : Location) (changed : FileSystem) :
    Prop where
  wellFormed : changed.WellFormed
  keepsWays : fs.KeepsWays changed
  directory : ∀ part, part <+: names → changed.get? (location ++ part) = some .directory
  others : ∀ other, (∀ part, part <+: names → other ≠ location ++ part) →
    changed.get? other = fs.get? other

/-- Where there is a directory already, nothing has to be made. -/
lemma WellFormed.madeAlong {fs : FileSystem} (hfs : fs.WellFormed) {location names : Location}
    (h : fs.get? (location ++ names) = some .directory) : MadeAlong fs location names fs := by
  refine ⟨hfs, .refl fs, ?_, fun _ _ => rfl⟩
  rintro part ⟨rest, rfl⟩
  by_cases hrest : rest = []
  · rwa [hrest, List.append_nil] at h
  · rw [← List.append_assoc] at h
    exact hfs.directory_above hrest h

/-- After the directories along names, a directory can be made in the last one of them, where
nothing lies. -/
lemma MadeAlong.makeDirectory {fs middle : FileSystem} {location front : Location}
    (h : MadeAlong fs location front middle) {root : Path} (hroot : middle.locate root = .ok location)
    {name : String} (hname : IsFileName name)
    (hfree : middle.get? (location ++ (front ++ [name])) = none) :
    ∃ changed, middle.makeDirectory (root.child (front ++ [name])) = .ok changed ∧
      MadeAlong fs location (front ++ [name]) changed := by
  rw [← List.append_assoc] at hfree
  have hdirectory := h.directory front List.prefix_rfl
  have hplace := h.wellFormed.place_child_vacant hroot hname hdirectory hfree false
  have hkeeps : middle.KeepsWays (middle.set (location ++ front ++ [name]) .directory) :=
    keepsWays_set _ fun found hfound => by
      rw [hfree] at hfound
      cases hfound
  refine ⟨_, makeDirectory_eq_ok_iff.2 ⟨_, _, hplace, rfl⟩,
    h.wellFormed.set hname hdirectory (Or.inl rfl), h.keepsWays.trans hkeeps, ?_, ?_⟩
  · intro part hpart
    rcases List.prefix_concat_iff.1 hpart with rfl | hpart
    · rw [← List.append_assoc, get?_set_self _ _ (by simp)]
    · rw [get?_set_of_ne]
      · exact h.directory part hpart
      · intro heq
        rw [List.append_assoc, List.append_right_inj] at heq
        exact not_concat_prefix front name (heq ▸ hpart)
  · intro other hother
    have hne : other ≠ location ++ front ++ [name] := by
      rw [List.append_assoc]
      exact hother _ List.prefix_rfl
    rw [get?_set_of_ne _ _ hne]
    exact h.others other fun part hpart => hother part (hpart.trans (List.prefix_append _ _))

/-- The directories along names can be made if whatever lies along them is a directory. -/
theorem WellFormed.makeDirectories_child {fs : FileSystem} (hfs : fs.WellFormed) {root : Path}
    {location : Location} (hroot : fs.locate root = .ok location)
    (hlocation : fs.get? location = some .directory) {names : Location} (hne : names ≠ [])
    (hnames : ∀ name ∈ names, IsFileName name)
    (hpart : ∀ part, part <+: names → ∀ entry, fs.get? (location ++ part) = some entry →
      entry = .directory) :
    ∃ changed, fs.makeDirectories (root.child names) = (.ok (), changed) ∧
      MadeAlong fs location names changed := by
  induction names using List.reverseRecOn with
  | nil => exact absurd rfl hne
  | append_singleton front name ih =>
    have hname := hnames name (by simp)
    have hlineage := Path.lineage_child_concat root front hnames
    rcases hentry : fs.get? (location ++ (front ++ [name])) with _ | entry
    · rcases hparent : fs.get? (location ++ front) with _ | parent
      · -- the parent is missing, so that it is made first
        have hfront : front ≠ [] := by
          rintro rfl
          rw [List.append_nil, hlocation] at hparent
          cases hparent
        have houter : ∀ part, part <+: front → part <+: front ++ [name] := fun part h =>
          h.trans (List.prefix_append _ _)
        have hfileNames : ∀ other ∈ front, IsFileName other := fun other hother =>
          hnames other (List.mem_append_left _ hother)
        obtain ⟨middle, hmiddle, hmade⟩ :=
          ih hfront hfileNames fun part h => hpart part (houter part h)
        obtain ⟨links, hplace⟩ := place_child hroot hlocation hne hnames false
        have hfails : fs.makeDirectory (root.child (front ++ [name])) = .error .notFound := by
          rw [FileSystem.makeDirectory, hplace,
            walk_missing hnames hlocation (fun part h => hpart part (houter part h)) hparent]
        have hfree : middle.get? (location ++ (front ++ [name])) = none := by
          rw [hmade.others, hentry]
          intro part h heq
          rw [List.append_right_inj] at heq
          exact not_concat_prefix front name (heq ▸ h)
        obtain ⟨changed, hmake, hchanged⟩ := hmade.makeDirectory
          (hmade.keepsWays.locate hroot hlocation) hname hfree
        rw [makeDirectories, Path.lineage_child root hfront hfileNames] at hmiddle
        refine ⟨changed, ?_, hchanged⟩
        rw [makeDirectories, hlineage, FileSystem.makeLineage]
        simp only [hfails, hmiddle, hmake]
      · obtain rfl := hpart front (List.prefix_append _ _) parent hparent
        obtain ⟨changed, hmake, hchanged⟩ := (hfs.madeAlong hparent).makeDirectory hroot hname hentry
        refine ⟨changed, ?_, hchanged⟩
        rw [makeDirectories, hlineage, FileSystem.makeLineage, hmake]
    · obtain rfl := hpart _ List.prefix_rfl entry hentry
      have hplace : fs.makeDirectory (root.child (front ++ [name])) = .error .alreadyExists := by
        rw [FileSystem.makeDirectory, hfs.place_child_found hroot hne hentry (by simp)]
      have hdirectory : fs.isDirectory (root.child (front ++ [name])) = true :=
        isDirectory_iff.2 (hfs.status_child hroot hne hentry (by simp))
      refine ⟨fs, ?_, hfs.madeAlong hentry⟩
      rw [makeDirectories, hlineage, FileSystem.makeLineage, hplace]
      simp only [hdirectory, if_true]

end EntryPoint.FileSystem
