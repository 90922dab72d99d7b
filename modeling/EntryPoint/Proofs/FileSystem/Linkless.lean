import EntryPoint.Proofs.FileSystem.Walking

/-!
# Ways without links

Where no entry is a link, a path leads to an entry along its segments and in no other way: `Leads`
has one rule for each kind of step. So what lies at the end is told by the names of the path, and a
path that does not lead through a place leads where it led, whatever has been put in that place.
-/

namespace EntryPoint.FileSystem

open EntryPoint.Path (isBlank)

/-- Whether no entry is a link. -/
def IsLinkFree (fs : FileSystem) : Prop :=
  ∀ location target, fs.get? location ≠ some (.link target)

/-- Whether segments lead from a directory to a location past directories alone. -/
inductive Leads (fs : FileSystem) : Location → List String → Location → Prop where
  | here {directory : Location} : Leads fs directory [] directory
  | blank {directory location : Location} {segment : String} {rest : List String}
    (hblank : isBlank segment = true) (h : Leads fs directory rest location) :
    Leads fs directory (segment :: rest) location
  | up {directory location : Location} {rest : List String}
    (h : Leads fs directory.dropLast rest location) :
    Leads fs directory (".." :: rest) location
  | down {directory location : Location} {name : String} {rest : List String}
    (hblank : isBlank name = false) (hup : name ≠ "..")
    (hentry : fs.get? (directory ++ [name]) = some .directory)
    (h : Leads fs (directory ++ [name]) rest location) :
    Leads fs directory (name :: rest) location
  | file {directory : Location} {name : String} {contents : Bytes}
    (hblank : isBlank name = false) (hup : name ≠ "..")
    (hentry : fs.get? (directory ++ [name]) = some (.file contents)) :
    Leads fs directory [name] (directory ++ [name])

/-! ## The walk takes the way -/

section
variable {fs : FileSystem} (hlinks : fs.IsLinkFree)

include hlinks

/-- Without links, walking comes to no link, and it arrives where the segments lead. -/
lemma IsLinkFree.exists_of_advance {directory : Location} {segments : List String}
    {progress : Progress} (h : fs.advance true directory segments = .ok progress) :
    ∃ place, progress = .arrived place ∧
      ∀ location, place = .found location → fs.Leads directory segments location := by
  induction segments generalizing directory with
  | nil =>
    cases h
    refine ⟨_, rfl, fun location hlocation => ?_⟩
    cases hlocation
    exact .here
  | cons segment segments ih =>
    rw [advance] at h
    by_cases hblank : isBlank segment = true
    · rw [if_pos hblank] at h
      obtain ⟨place, hplace, hleads⟩ := ih h
      exact ⟨place, hplace, fun location hlocation => .blank hblank (hleads location hlocation)⟩
    by_cases hup : segment = ".."
    · rw [if_neg hblank, if_pos hup] at h
      subst hup
      obtain ⟨place, hplace, hleads⟩ := ih h
      exact ⟨place, hplace, fun location hlocation => .up (hleads location hlocation)⟩
    rw [if_neg hblank, if_neg hup] at h
    rw [Bool.not_eq_true] at hblank
    cases hentry : fs.get? (directory ++ [segment]) with
    | none =>
      simp only [hentry] at h
      split_ifs at h
      cases h
      exact ⟨_, rfl, fun location hlocation => by cases hlocation⟩
    | some entry =>
      simp only [hentry] at h
      cases entry with
      | directory =>
        obtain ⟨place, hplace, hleads⟩ := ih h
        exact ⟨place, hplace, fun location hlocation =>
          .down hblank hup hentry (hleads location hlocation)⟩
      | file contents =>
        simp only at h
        split_ifs at h with hrest
        cases h
        refine ⟨_, rfl, fun location hlocation => ?_⟩
        cases hlocation
        subst hrest
        exact .file hblank hup hentry
      | link target => exact absurd hentry (hlinks _ target)

omit hlinks in
/-- Walking goes along the ways. -/
lemma Leads.advance_eq {directory location : Location} {segments : List String}
    (h : fs.Leads directory segments location) :
    fs.advance true directory segments = .ok (.arrived (.found location)) := by
  induction h with
  | here => rfl
  | blank hblank _ ih => rw [advance, if_pos hblank, ih]
  | up _ ih => rw [advance, if_neg (by decide), if_pos rfl, ih]
  | down hblank hup hentry _ ih =>
    rw [advance, if_neg (by simp [hblank]), if_neg hup]
    simp only [hentry, ih]
  | file hblank hup hentry =>
    rw [advance, if_neg (by simp [hblank]), if_neg hup]
    simp only [hentry, if_true]

/-- Without links, a walk ends where the segments lead. -/
lemma IsLinkFree.walk_eq_ok_iff {links : Nat} {directory location : Location}
    {segments : List String} :
    fs.walk true links directory segments = .ok (.found location) ↔
      fs.Leads directory segments location := by
  rw [FileSystem.walk_eq_ok_iff]
  constructor
  · rintro (h | ⟨_, holder, target, rest, -, -, h, -⟩)
    · obtain ⟨place, hplace, hleads⟩ := hlinks.exists_of_advance h
      cases hplace
      exact hleads location rfl
    · obtain ⟨place, hplace, -⟩ := hlinks.exists_of_advance h
      cases hplace
  · exact fun h => Or.inl h.advance_eq

/-- Without links, a path leads where its segments do. -/
theorem IsLinkFree.locate_eq_ok_iff {path : Path} {location : Location} :
    fs.locate path = .ok location ↔
      path.text ≠ "" ∧ fs.Leads (origin fs.currentDirectory path) path.segments location := by
  constructor
  · intro h
    refine ⟨fun htext => ?_, hlinks.walk_eq_ok_iff.1 (walk_of_locate h)⟩
    rw [locate, place, if_pos htext] at h
    cases h
  · rintro ⟨htext, hleads⟩
    rw [locate, place, if_neg htext, hlinks.walk_eq_ok_iff.2 hleads]

end

/-! ## Where a way ends -/

namespace Leads
variable {fs : FileSystem} {directory location : Location} {segments : List String}

/-- Blank segments lead nowhere else. -/
lemma eq_of_blank (h : fs.Leads directory segments location)
    (hblank : ∀ segment ∈ segments, isBlank segment = true) : location = directory := by
  induction h with
  | here => rfl
  | blank _ _ ih => exact ih fun segment hmem => hblank segment (List.mem_cons_of_mem _ hmem)
  | up => exact absurd (hblank ".." List.mem_cons_self) (by decide)
  | down hname => exact absurd (hblank _ List.mem_cons_self) (by simp [hname])
  | file hname => exact absurd (hblank _ List.mem_cons_self) (by simp [hname])

/-- Segments that do not climb lead along their names. -/
lemma eq_append (h : fs.Leads directory segments location) (hup : ".." ∉ segments) :
    location = directory ++ segments.filter fun segment => !isBlank segment := by
  induction h with
  | here => simp
  | blank hblank _ ih =>
    rw [List.filter_cons_of_neg (by simp [hblank])]
    exact ih (List.not_mem_of_not_mem_cons hup)
  | up => exact absurd List.mem_cons_self hup
  | down hblank _ _ _ ih =>
    rw [List.filter_cons_of_pos (by simp [hblank]), ih (List.not_mem_of_not_mem_cons hup),
      List.append_assoc, List.singleton_append]
  | file hblank => simp [hblank]

/-- The last name of a way to a file is the name of the file. -/
lemma exists_name (hfs : fs.WellFormed) (h : fs.Leads directory segments location)
    (hdirectory : fs.get? directory = some .directory) {contents : Bytes}
    (hfile : fs.get? location = some (.file contents)) :
    ∃ front name, segments = front ++ [name] ∧ isBlank name = false ∧ name ≠ ".." ∧
      location.getLast? = some name := by
  have hcons : ∀ {segment : String} {rest : List String},
      (∃ front name, rest = front ++ [name] ∧ isBlank name = false ∧ name ≠ ".." ∧
        location.getLast? = some name) →
      ∃ front name, segment :: rest = front ++ [name] ∧ isBlank name = false ∧ name ≠ ".." ∧
        location.getLast? = some name := by
    rintro segment _ ⟨front, name, rfl, h⟩
    exact ⟨segment :: front, name, rfl, h⟩
  induction h with
  | here =>
    rw [hdirectory] at hfile
    cases hfile
  | blank _ _ ih => exact hcons (ih hdirectory hfile hcons)
  | up _ ih => exact hcons (ih (hfs.directory_dropLast hdirectory) hfile hcons)
  | down _ _ hentry _ ih => exact hcons (ih hentry hfile hcons)
  | @file directory name _ hblank hup _ => exact ⟨[], name, rfl, hblank, hup, by simp⟩

end Leads

/-- Names that do not climb, with blank segments between them, lead to a file. -/
lemma WellFormed.leads_of_file {fs : FileSystem} (hfs : fs.WellFormed) {directory : Location}
    {front : List String} {name : String} (hname : isBlank name = false)
    (hup : ".." ∉ front ++ [name]) {contents : Bytes}
    (h : fs.get? (directory ++ (front ++ [name]).filter fun segment => !isBlank segment)
      = some (.file contents)) :
    fs.Leads directory (front ++ [name])
      (directory ++ (front ++ [name]).filter fun segment => !isBlank segment) := by
  induction front generalizing directory with
  | nil =>
    have hkept : ([name].filter fun segment => !isBlank segment) = [name] := by
      simp [hname]
    rw [List.nil_append] at hup h ⊢
    rw [hkept] at h ⊢
    exact .file hname (fun heq => hup (by simp [heq])) h
  | cons segment front ih =>
    have hrest := List.not_mem_of_not_mem_cons hup
    rw [List.cons_append] at hup h ⊢
    by_cases hblank : isBlank segment = true
    · rw [List.filter_cons_of_neg (by simp [hblank])] at h ⊢
      exact .blank hblank (ih hrest h)
    · have hsplit : ∀ names : List String,
          directory ++ segment :: names = directory ++ [segment] ++ names := by
        simp
      rw [List.filter_cons_of_pos (by simpa using hblank), hsplit] at h ⊢
      have hentry := hfs.directory_above (by simp [hname]) h
      refine .down (by simpa using hblank) (fun heq => hup ?_) hentry (ih hrest h)
      rw [heq]
      exact List.mem_cons_self

/-- The file name of a path to a file is the name of the file. -/
lemma fileName?_of_locate {fs : FileSystem} (hfs : fs.WellFormed) (hlinks : fs.IsLinkFree)
    {path : Path} {location : Location} (h : fs.locate path = .ok location) {contents : Bytes}
    (hfile : fs.get? location = some (.file contents)) :
    path.fileName? = location.getLast? := by
  obtain ⟨-, hleads⟩ := hlinks.locate_eq_ok_iff.1 h
  obtain ⟨front, name, hsegments, hblank, hup, hlast⟩ :=
    hleads.exists_name hfs (get?_origin hfs.current path) hfile
  have hnames : path.names.getLast? = some name := by
    rw [Path.names_eq_filter, hsegments, List.filter_append]
    simp [hblank]
  rw [Path.fileName?, hnames, hlast]
  simp [hup]

/-! ## Ways past a place -/

/-- Whether segments lead through a place, as they are spelt: they name it, and they go on to
something else behind it. -/
def leadsThrough (place : Location) : (directory : Location) → (segments : List String) → Bool
  | _, [] => false
  | directory, segment :: rest =>
    if isBlank segment then
      leadsThrough place directory rest
    else if segment = ".." then
      leadsThrough place directory.dropLast rest
    else
      (decide (directory ++ [segment] = place) && rest.any fun other => !isBlank other)
        || leadsThrough place (directory ++ [segment]) rest

/-- Whether a path leads through a place, as it is spelt. -/
def pathLeadsThrough (fs : FileSystem) (place : Location) (path : Path) : Bool :=
  leadsThrough place (origin fs.currentDirectory path) path.segments

/-- Whether two file systems are the same but for what lies at two locations. -/
structure AgreesAside (fs : FileSystem) (first second : Location) (changed : FileSystem) :
    Prop where
  others : ∀ other, other ≠ first → other ≠ second → changed.get? other = fs.get? other
  current : changed.currentDirectory = fs.currentDirectory

lemma AgreesAside.symm {fs changed : FileSystem} {first second : Location}
    (h : fs.AgreesAside first second changed) : changed.AgreesAside first second fs :=
  ⟨fun other hfirst hsecond => (h.others other hfirst hsecond).symm, h.current.symm⟩

/-- A path leads through the same places. -/
lemma AgreesAside.pathLeadsThrough_eq {fs changed : FileSystem} {first second : Location}
    (h : fs.AgreesAside first second changed) (place : Location) (path : Path) :
    changed.pathLeadsThrough place path = fs.pathLeadsThrough place path := by
  rw [pathLeadsThrough, pathLeadsThrough, h.current]

/-- The ways are kept if the directories at the two locations are. -/
lemma AgreesAside.keepsWays {fs changed : FileSystem} {first second : Location}
    (h : fs.AgreesAside first second changed) (hlinks : fs.IsLinkFree)
    (hfirst : fs.get? first = some .directory → changed.get? first = some .directory)
    (hsecond : fs.get? second = some .directory → changed.get? second = some .directory) :
    fs.KeepsWays changed := by
  refine ⟨h.current, fun other hother => ?_, fun other target hother => ?_⟩
  · by_cases hone : other = first
    · rw [hone] at hother ⊢
      exact hfirst hother
    by_cases htwo : other = second
    · rw [htwo] at hother ⊢
      exact hsecond hother
    rw [h.others other hone htwo, hother]
  · exact absurd hother (hlinks other target)

section
variable {fs changed : FileSystem} {place file : Location}
  (hagrees : fs.AgreesAside place file changed) (hfile : fs.get? file ≠ some .directory)

include hagrees hfile

/-- A way that does not lead through a place is still there when that place and one that holds no
directory have changed, unless it ends at one of the two. -/
lemma Leads.of_agreesAside {directory location : Location} {segments : List String}
    (h : fs.Leads directory segments location)
    (hthrough : leadsThrough place directory segments = false)
    (hplace : location ≠ place) (hother : location ≠ file) :
    changed.Leads directory segments location := by
  induction h with
  | here => exact .here
  | blank hblank _ ih =>
    rw [leadsThrough, if_pos hblank] at hthrough
    exact .blank hblank (ih hthrough hplace hother)
  | up _ ih =>
    rw [leadsThrough, if_neg (by decide), if_pos rfl] at hthrough
    exact .up (ih hthrough hplace hother)
  | @down directory location name rest hblank hup hentry h ih =>
    rw [leadsThrough, if_neg (by simp [hblank]), if_neg hup, Bool.or_eq_false_iff,
      Bool.and_eq_false_iff] at hthrough
    obtain ⟨hbehind, hthrough⟩ := hthrough
    have hhere : directory ++ [name] ≠ place := by
      intro heq
      -- nothing follows the place, so the way would end there
      have hblanks : ∀ other ∈ rest, isBlank other = true := by
        simpa [heq] using hbehind
      exact hplace ((h.eq_of_blank hblanks).trans heq)
    have hnofile : directory ++ [name] ≠ file := by
      rintro rfl
      exact hfile hentry
    refine .down hblank hup ?_ (ih hthrough hplace hother)
    rw [hagrees.others _ hhere hnofile, hentry]
  | file hblank hup hentry =>
    exact .file hblank hup ((hagrees.others _ hplace hother).trans hentry)

/-- So does a path. -/
theorem locate_of_agreesAside (hlinks : fs.IsLinkFree) (hlinks' : changed.IsLinkFree)
    {path : Path} (hthrough : fs.pathLeadsThrough place path = false) {location : Location}
    (h : fs.locate path = .ok location) (hplace : location ≠ place) (hother : location ≠ file) :
    changed.locate path = .ok location := by
  obtain ⟨htext, hleads⟩ := hlinks.locate_eq_ok_iff.1 h
  refine hlinks'.locate_eq_ok_iff.2 ⟨htext, ?_⟩
  rw [hagrees.current]
  exact hleads.of_agreesAside hagrees hfile hthrough hplace hother

end

end EntryPoint.FileSystem
