import EntryPoint.FileSystem.Lemmas
import EntryPoint.Proofs.FileSystem.Paths
import Mathlib.Data.List.Induction
import Mathlib.Data.List.Nodup

/-!
# Walking to what lies below a root

A walk that arrives at a directory can go on from there: whatever links it followed on the way, the
walk along more segments is the walk along those segments from that directory. So, where a root
leads to a location, the path of what lies below the root along given names leads to the location
of the same names; and where the path of something below a root leads anywhere, the root leads to a
directory. A path to a directory leads there again after every change that keeps the directories and
links, and putting an entry into a directory keeps a file system well-formed.
-/

namespace EntryPoint.FileSystem

/-! ## Entries in directories -/

/-- An entry that is found is listed, unless it is the root. -/
lemma mem_entries_of_get? {fs : FileSystem} {location : Location} {entry : Entry}
    (hne : location ≠ []) (h : fs.get? location = some entry) : (location, entry) ∈ fs.entries := by
  rw [get?, if_neg hne, List.lookup_eq_some_iff] at h
  obtain ⟨front, back, hentries, -⟩ := h
  rw [hentries]
  simp

/-- What is listed is found. -/
lemma WellFormed.get?_of_mem {fs : FileSystem} (hfs : fs.WellFormed) {location : Location}
    {entry : Entry} (h : (location, entry) ∈ fs.entries) : fs.get? location = some entry := by
  rw [get?, if_neg (hfs.ne_nil location entry h)]
  exact (lookup_eq_some_iff_mem hfs.nodup).2 h

/-- Every entry lies in a directory. -/
lemma WellFormed.directory_of_get? {fs : FileSystem} (hfs : fs.WellFormed) {location : Location}
    {name : String} {entry : Entry} (h : fs.get? (location ++ [name]) = some entry) :
    fs.get? location = some .directory := by
  have hparent := hfs.parent _ _ (mem_entries_of_get? (by simp) h)
  rwa [List.dropLast_concat] at hparent

/-- Everything above an entry is a directory. -/
theorem WellFormed.directory_above {fs : FileSystem} (hfs : fs.WellFormed) {location : Location}
    {names : Location} {entry : Entry} (hne : names ≠ [])
    (h : fs.get? (location ++ names) = some entry) : fs.get? location = some .directory := by
  induction names using List.reverseRecOn generalizing entry with
  | nil => exact absurd rfl hne
  | append_singleton names name ih =>
    rw [← List.append_assoc] at h
    have hparent := hfs.directory_of_get? h
    by_cases hnames : names = []
    · simpa [hnames] using hparent
    · exact ih hnames hparent

/-- The names that lead to an entry are file names. -/
lemma WellFormed.isFileName_of_mem {fs : FileSystem} (hfs : fs.WellFormed) {location : Location}
    {entry : Entry} (h : fs.get? location = some entry) : ∀ name ∈ location, IsFileName name := by
  by_cases hne : location = []
  · simp [hne]
  · exact hfs.names _ _ (mem_entries_of_get? hne h)

/-! ## Going on from a directory -/

/-- Blank segments lead nowhere else. -/
lemma advance_blanks (fs : FileSystem) (followLast : Bool) (directory : Location)
    {blanks : List String} (h : ∀ segment ∈ blanks, Path.isBlank segment = true) :
    fs.advance followLast directory blanks = .ok (.arrived (.found directory)) := by
  induction blanks with
  | nil => rfl
  | cons segment blanks ih =>
    rw [List.forall_mem_cons] at h
    rw [advance, if_pos h.1, ih h.2]

/-- Where segments lead to a directory, more segments are followed from there; and where they lead
to a link that has to be followed, so do they with more segments behind them. -/
lemma advance_append {fs : FileSystem} {blanks more : List String}
    (hblanks : ∀ segment ∈ blanks, Path.isBlank segment = true) (hmore : more ≠ [])
    (followLast : Bool) (directory : Location) (segments : List String) :
    (∀ location, fs.get? location = some .directory →
      fs.advance true directory (segments ++ blanks) = .ok (.arrived (.found location)) →
      fs.advance followLast directory (segments ++ more) = fs.advance followLast location more) ∧
    (∀ holder target rest,
      fs.advance true directory (segments ++ blanks) = .ok (.atLink holder target rest) →
      ∃ front, rest = front ++ blanks ∧
        fs.advance followLast directory (segments ++ more)
          = .ok (.atLink holder target (front ++ more))) := by
  induction segments generalizing directory with
  | nil =>
    rw [List.nil_append, List.nil_append, advance_blanks fs true directory hblanks]
    constructor
    · rintro location - h
      cases h
      rfl
    · intro holder target rest h
      cases h
  | cons segment segments ih =>
    simp only [List.cons_append, advance]
    by_cases hblank : Path.isBlank segment = true
    · simpa only [if_pos hblank] using ih directory
    by_cases hup : segment = ".."
    · simpa only [if_neg hblank, if_pos hup] using ih directory.dropLast
    simp only [if_neg hblank, if_neg hup]
    cases hentry : fs.get? (directory ++ [segment]) with
    | none =>
      -- a free name is no place to go on from
      constructor
      · intro location _ h
        simp only at h
        split_ifs at h
        cases h
      · intro holder target rest h
        simp only at h
        split_ifs at h
        cases h
    | some entry =>
      cases entry with
      | directory => exact ih (directory ++ [segment])
      | file contents =>
        constructor
        · intro location hlocation h
          -- a file is no directory, so the walk does not end here
          simp only at h
          split_ifs at h
          cases h
          rw [hlocation] at hentry
          cases hentry
        · intro holder target rest h
          simp only at h
          split_ifs at h
          cases h
      | link found => simp [hmore]

/-- A walk arrives without a link, or it follows the first link that it meets and goes on from
there. -/
lemma walk_eq_ok_iff {fs : FileSystem} {followLast : Bool} {links : Nat} {directory : Location}
    {segments : List String} {place : Place} :
    fs.walk followLast links directory segments = .ok place ↔
      fs.advance followLast directory segments = .ok (.arrived place) ∨
      ∃ left holder target rest, links = left + 1 ∧ target ≠ "" ∧
        fs.advance followLast directory segments = .ok (.atLink holder target rest) ∧
          fs.walk followLast left (origin holder ⟨target⟩) ((⟨target⟩ : Path).segments ++ rest)
            = .ok place := by
  rw [walk]
  cases fs.advance followLast directory segments with
  | error fault => simp
  | ok progress =>
    cases progress with
    | arrived found => simp
    | atLink holder target rest =>
      cases links with
      | zero => simp
      | succ left =>
        by_cases htarget : target = ""
        · simp [htarget]
        · simp [htarget]

/-- Where a walk leads to a directory, the walk along more segments goes on from there, with the
links that are left. -/
theorem walk_append {fs : FileSystem} {location : Location} {blanks more : List String}
    (hblanks : ∀ segment ∈ blanks, Path.isBlank segment = true) (hmore : more ≠ [])
    (hlocation : fs.get? location = some .directory) (followLast : Bool) {links : Nat}
    {directory : Location} {segments : List String}
    (h : fs.walk true links directory (segments ++ blanks) = .ok (.found location)) :
    ∃ left, fs.walk followLast links directory (segments ++ more)
      = fs.walk followLast left location more := by
  induction links using Nat.strongRecOn generalizing directory segments with
  | ind links ih =>
    obtain ⟨harrived, hlink⟩ := advance_append hblanks hmore followLast directory segments
    rcases walk_eq_ok_iff.1 h with hplace | ⟨left, holder, target, _, rfl, htarget, hat, hrest⟩
    · exact ⟨links, by rw [walk, harrived location hlocation hplace, walk]⟩
    · obtain ⟨front, rfl, hmoreAt⟩ := hlink holder target _ hat
      rw [← List.append_assoc] at hrest
      obtain ⟨last, hlast⟩ := ih left (Nat.lt_succ_self left) hrest
      refine ⟨last, ?_⟩
      rw [walk, hmoreAt]
      simp only [if_neg htarget]
      rw [← List.append_assoc, hlast]

/-! ## One name further -/

section
variable {fs : FileSystem} {directory : Location} {name : String}

/-- A walk goes on into a directory. -/
lemma walk_directory (hname : IsFileName name)
    (h : fs.get? (directory ++ [name]) = some .directory) (followLast : Bool) (links : Nat)
    (rest : List String) :
    fs.walk followLast links directory (name :: rest)
      = fs.walk followLast links (directory ++ [name]) rest := by
  have hadvance : fs.advance followLast directory (name :: rest)
      = fs.advance followLast (directory ++ [name]) rest := by
    simp [advance, Path.isBlank_eq_false hname, hname.2.2.1, h]
  rw [walk, hadvance, walk]

/-- A walk ends at an entry with the last name, unless that is a link to be followed. -/
lemma walk_found (hname : IsFileName name) {entry : Entry} {followLast : Bool}
    (h : fs.get? (directory ++ [name]) = some entry)
    (hlink : followLast = true → ∀ target, entry ≠ .link target) (links : Nat) :
    fs.walk followLast links directory [name] = .ok (.found (directory ++ [name])) := by
  have hadvance : fs.advance followLast directory [name]
      = .ok (.arrived (.found (directory ++ [name]))) := by
    cases entry with
    | directory => simp [advance, Path.isBlank_eq_false hname, hname.2.2.1, h]
    | file contents => simp [advance, Path.isBlank_eq_false hname, hname.2.2.1, h]
    | link target =>
      have hfollow : followLast = false := by
        simpa using fun hfollow => hlink hfollow target rfl
      simp [advance, Path.isBlank_eq_false hname, hname.2.2.1, h, hfollow]
  rw [walk, hadvance]

/-- A walk ends at a free name. -/
lemma walk_vacant (hname : IsFileName name) (h : fs.get? (directory ++ [name]) = none)
    (followLast : Bool) (links : Nat) :
    fs.walk followLast links directory [name] = .ok (.vacant directory name) := by
  have hadvance : fs.advance followLast directory [name]
      = .ok (.arrived (.vacant directory name)) := by
    simp [advance, Path.isBlank_eq_false hname, hname.2.2.1, h]
  rw [walk, hadvance]

end

/-- A walk goes on along directories. -/
lemma WellFormed.walk_along {fs : FileSystem} (hfs : fs.WellFormed) {location : Location}
    {names : Location} (h : fs.get? (location ++ names) = some .directory) (followLast : Bool)
    (links : Nat) (rest : List String) :
    fs.walk followLast links location (names ++ rest)
      = fs.walk followLast links (location ++ names) rest := by
  induction names generalizing location with
  | nil => simp
  | cons name names ih =>
    have hname : IsFileName name := hfs.isFileName_of_mem h name (by simp)
    have hsplit : location ++ name :: names = location ++ [name] ++ names := by
      simp
    rw [hsplit] at h ⊢
    have hdirectory : fs.get? (location ++ [name]) = some .directory := by
      by_cases hnames : names = []
      · simpa [hnames] using h
      · exact hfs.directory_above hnames h
    rw [List.cons_append, walk_directory hname hdirectory, ih h]

/-! ## What a path leads to -/

section
variable {fs : FileSystem} {path : Path}

lemma locate_eq_ok_iff_place {location : Location} :
    fs.locate path = .ok location ↔ fs.place true path = .ok (.found location) := by
  rw [locate]
  split <;> simp_all

/-- The status of a path is the entry at its location. -/
lemma status_eq_ok_iff {entry : Entry} :
    fs.status path = .ok entry ↔
      ∃ location, fs.locate path = .ok location ∧ fs.get? location = some entry := by
  rw [status]
  cases fs.locate path with
  | error fault => simp
  | ok location => cases hentry : fs.get? location <;> simp [hentry]

lemma isDirectory_iff : fs.isDirectory path = true ↔ fs.status path = .ok .directory := by
  rw [isDirectory]
  split <;> simp_all

lemma isFile_iff :
    fs.isFile path = true ↔ ∃ contents, fs.status path = .ok (.file contents) := by
  rw [isFile]
  split <;> simp_all

/-- A file is no directory. -/
lemma isDirectory_of_isFile (h : fs.isFile path = true) : fs.isDirectory path = false := by
  obtain ⟨contents, hstatus⟩ := isFile_iff.1 h
  rw [isDirectory, hstatus]

end

/-! ## Down from a root -/

/-- A root that leads somewhere is no empty text, and its walk is that along its segments. -/
lemma walk_of_locate {fs : FileSystem} {root : Path} {location : Location}
    (h : fs.locate root = .ok location) :
    fs.walk true maxLinks (origin fs.currentDirectory root) root.segments
      = .ok (.found location) := by
  have hplace := locate_eq_ok_iff_place.1 h
  unfold place at hplace
  split_ifs at hplace
  exact hplace

/-- A tight path under a root is looked up from the location of the root. -/
theorem place_join {fs : FileSystem} {root : Path} {location : Location}
    (hroot : fs.locate root = .ok location) (hlocation : fs.get? location = some .directory)
    {path : Path} (hpath : path.IsTight) (followLast : Bool) :
    ∃ links, fs.place followLast (root.join path)
      = fs.walk followLast links location path.segments := by
  have hsegments := Path.segments_join root hpath.isAbsolute_eq
  have htext : (root.join path).text ≠ "" := by
    intro htext
    have hempty : root.join path = ⟨""⟩ := by
      rw [← htext]
    obtain ⟨front, name, hfront, hname⟩ := hpath.last
    rw [hempty, Path.segments_empty, hfront, ← List.append_assoc] at hsegments
    have hlast := congrArg List.getLast? hsegments
    rw [List.getLast?_concat] at hlast
    obtain rfl : "" = name := Option.some.inj hlast
    exact absurd hname (by decide)
  obtain ⟨blanks, hblanks, hsplit⟩ := Path.exists_blanks root.segments
  have hwalk := walk_of_locate hroot
  rw [hsplit] at hwalk
  obtain ⟨links, hlinks⟩ :=
    walk_append hblanks (Path.segments_ne_nil path) hlocation followLast hwalk
  have horigin : origin fs.currentDirectory (root.join path)
      = origin fs.currentDirectory root := by
    rw [origin, origin, hpath.isAbsolute_join root]
  exact ⟨links, by rw [place, if_neg htext, horigin, hsegments, hlinks]⟩

/-- What lies below a root is looked up from the location of the root. -/
theorem place_child {fs : FileSystem} {root : Path} {location : Location}
    (hroot : fs.locate root = .ok location) (hlocation : fs.get? location = some .directory)
    {names : Location} (hne : names ≠ []) (hnames : ∀ name ∈ names, IsFileName name)
    (followLast : Bool) :
    ∃ links, fs.place followLast (root.child names)
      = fs.walk followLast links location names := by
  obtain ⟨links, hlinks⟩ :=
    place_join hroot hlocation (Path.isTight_spell hne hnames) followLast
  rw [Path.segments_spell hne fun name hmem => (hnames name hmem).2.2.2] at hlinks
  exact ⟨links, hlinks⟩

/-- An entry below a root is found along its names. -/
theorem WellFormed.place_child_found {fs : FileSystem} (hfs : fs.WellFormed) {root : Path}
    {location : Location} (hroot : fs.locate root = .ok location) {names : Location}
    (hne : names ≠ []) {entry : Entry} (h : fs.get? (location ++ names) = some entry)
    {followLast : Bool} (hlink : followLast = true → ∀ target, entry ≠ .link target) :
    fs.place followLast (root.child names) = .ok (.found (location ++ names)) := by
  have hnames : ∀ name ∈ names, IsFileName name := fun name hmem =>
    hfs.isFileName_of_mem h name (List.mem_append_right _ hmem)
  have hlocation := hfs.directory_above hne h
  obtain ⟨links, hlinks⟩ := place_child hroot hlocation hne hnames followLast
  obtain ⟨front, name, rfl⟩ := List.eq_nil_or_concat names |>.resolve_left hne
  rw [List.concat_eq_append] at *
  rw [← List.append_assoc] at h
  have hname := hnames name (by simp)
  rw [hlinks, hfs.walk_along (hfs.directory_of_get? h), walk_found hname h hlink,
    List.append_assoc]

/-- A path below a root leads to the entry there, unless that is a link. -/
theorem WellFormed.status_child {fs : FileSystem} (hfs : fs.WellFormed) {root : Path}
    {location : Location} (hroot : fs.locate root = .ok location) {names : Location}
    (hne : names ≠ []) {entry : Entry} (h : fs.get? (location ++ names) = some entry)
    (hlink : ∀ target, entry ≠ .link target) : fs.status (root.child names) = .ok entry := by
  rw [status, locate, hfs.place_child_found hroot hne h (fun _ => hlink)]
  simp only [h]

/-- Where nothing lies in a directory below a root, its name is free. -/
theorem WellFormed.place_child_vacant {fs : FileSystem} (hfs : fs.WellFormed) {root : Path}
    {location : Location} (hroot : fs.locate root = .ok location) {front : Location}
    {name : String} (hname : IsFileName name)
    (hdirectory : fs.get? (location ++ front) = some .directory)
    (h : fs.get? (location ++ front ++ [name]) = none) (followLast : Bool) :
    fs.place followLast (root.child (front ++ [name]))
      = .ok (.vacant (location ++ front) name) := by
  have hlocation : fs.get? location = some .directory := by
    by_cases hfront : front = []
    · simpa [hfront] using hdirectory
    · exact hfs.directory_above hfront hdirectory
  have hnames : ∀ other ∈ front ++ [name], IsFileName other := by
    intro other hother
    rcases List.mem_append.1 hother with hmem | hmem
    · exact hfs.isFileName_of_mem hdirectory other (List.mem_append_right _ hmem)
    · rwa [List.mem_singleton.1 hmem]
  obtain ⟨links, hlinks⟩ := place_child hroot hlocation (by simp) hnames followLast
  rw [hlinks, hfs.walk_along hdirectory, walk_vacant hname h]

/-! ## Back to the root -/

/-- A path starts from a directory. -/
lemma get?_origin {fs : FileSystem} {directory : Location}
    (h : fs.get? directory = some .directory) (path : Path) :
    fs.get? (origin directory path) = some .directory := by
  unfold origin
  split_ifs
  · rfl
  · exact h

/-- The directory above a directory is one. -/
lemma WellFormed.directory_dropLast {fs : FileSystem} (hfs : fs.WellFormed) {location : Location}
    (h : fs.get? location = some .directory) : fs.get? location.dropLast = some .directory := by
  rcases List.eq_nil_or_concat location with rfl | ⟨front, name, rfl⟩
  · exact h
  · rw [List.concat_eq_append] at h ⊢
    rw [List.dropLast_concat]
    exact hfs.directory_of_get? h

/-- Where segments lead on to a name, those before the name lead to a directory or to a link. -/
lemma WellFormed.advance_concat {fs : FileSystem} (hfs : fs.WellFormed) {directory : Location}
    (hdirectory : fs.get? directory = some .directory) {segments : List String} {name : String}
    (hname : name ≠ "") {progress : Progress}
    (h : fs.advance true directory (segments ++ [name]) = .ok progress) :
    (∃ location, fs.get? location = some .directory ∧
      fs.advance true directory segments = .ok (.arrived (.found location))) ∨
    (∃ holder target rest, fs.get? holder = some .directory ∧
      fs.advance true directory segments = .ok (.atLink holder target rest) ∧
        progress = .atLink holder target (rest ++ [name])) := by
  induction segments generalizing directory with
  | nil => exact Or.inl ⟨directory, hdirectory, rfl⟩
  | cons segment segments ih =>
    rw [List.cons_append, advance] at h
    rw [advance]
    by_cases hblank : Path.isBlank segment = true
    · rw [if_pos hblank] at h ⊢
      exact ih hdirectory h
    by_cases hup : segment = ".."
    · rw [if_neg hblank, if_pos hup] at h ⊢
      exact ih (hfs.directory_dropLast hdirectory) h
    rw [if_neg hblank, if_neg hup] at h ⊢
    cases hentry : fs.get? (directory ++ [segment]) with
    | none => simp [hentry, hname] at h
    | some entry =>
      simp only [hentry] at h ⊢
      cases entry with
      | directory => exact ih hentry h
      | file contents => simp at h
      | link target =>
        simp only [not_true_eq_false, and_false, if_false] at h ⊢
        cases h
        exact Or.inr ⟨directory, target, segments, hdirectory, rfl, rfl⟩

/-- Where a walk leads on to a name, the walk up to the name leads to a directory. -/
lemma WellFormed.walk_concat {fs : FileSystem} (hfs : fs.WellFormed) {links : Nat}
    {directory : Location} (hdirectory : fs.get? directory = some .directory)
    {segments : List String} {name : String} (hname : name ≠ "") {place : Place}
    (h : fs.walk true links directory (segments ++ [name]) = .ok place) :
    ∃ location, fs.get? location = some .directory ∧
      fs.walk true links directory segments = .ok (.found location) := by
  induction links using Nat.strongRecOn generalizing directory segments with
  | ind links ih =>
    rcases walk_eq_ok_iff.1 h with hplace | ⟨left, holder, target, _, rfl, htarget, hat, hrest⟩
    · rcases hfs.advance_concat hdirectory hname hplace with
        ⟨location, hlocation, harrived⟩ | ⟨_, _, _, _, _, hlink⟩
      · exact ⟨location, hlocation, walk_eq_ok_iff.2 (Or.inl harrived)⟩
      · cases hlink
    · rcases hfs.advance_concat hdirectory hname hat with
        ⟨location, hlocation, harrived⟩ | ⟨_, _, rest, hholder, hprefix, hlink⟩
      · exact ⟨location, hlocation, walk_eq_ok_iff.2 (Or.inl harrived)⟩
      · cases hlink
        rw [← List.append_assoc] at hrest
        obtain ⟨location, hlocation, hfound⟩ :=
          ih left (Nat.lt_succ_self left) (get?_origin hholder _) hrest
        exact ⟨location, hlocation, walk_eq_ok_iff.2
          (Or.inr ⟨left, holder, target, rest, rfl, htarget, hprefix, hfound⟩)⟩

/-- Where the path of something below a path that ends in a name leads anywhere, that path leads to
a directory. -/
theorem WellFormed.exists_locate_of_place_child {fs : FileSystem} (hfs : fs.WellFormed)
    {path : Path} (hend : Path.withoutTrailing path.segments = path.segments) {name : String}
    (hname : IsFileName name) {place : Place}
    (h : fs.place true (path.child [name]) = .ok place) :
    ∃ location, fs.locate path = .ok location ∧ fs.get? location = some .directory := by
  have hnames : ∀ other ∈ [name], IsFileName other := by
    simpa using hname
  have hsegments := Path.segments_child path (List.cons_ne_nil name []) hnames
  rw [hend] at hsegments
  have htext : path.text ≠ "" := by
    intro htext
    have hempty : path = ⟨""⟩ := by
      rw [← htext]
    rw [hempty, Path.segments_empty] at hend
    exact absurd hend (by decide)
  have horigin : origin fs.currentDirectory (path.child [name])
      = origin fs.currentDirectory path := by
    rw [origin, origin, Path.isAbsolute_child path (List.cons_ne_nil name []) hnames]
  unfold FileSystem.place at h
  split_ifs at h
  rw [horigin, hsegments] at h
  obtain ⟨location, hlocation, hfound⟩ := hfs.walk_concat (get?_origin hfs.current path) hname.1 h
  exact ⟨location, by rw [locate, FileSystem.place, if_neg htext, hfound], hlocation⟩

/-- What lies below a path that ends in a name lies in a directory to which that path leads. -/
theorem WellFormed.exists_locate_of_child {fs : FileSystem} (hfs : fs.WellFormed) {path : Path}
    (hend : Path.withoutTrailing path.segments = path.segments) {name : String}
    (hname : IsFileName name) {below : Location} (h : fs.locate (path.child [name]) = .ok below) :
    ∃ location, fs.locate path = .ok location ∧ fs.get? location = some .directory :=
  hfs.exists_locate_of_place_child hend hname (locate_eq_ok_iff_place.1 h)

/-! ## Changes that keep all ways -/

/-- Whether every directory and every link of one file system lies in another one too. A path to a
directory takes no other way, so that files do not matter to it. -/
structure KeepsWays (fs changed : FileSystem) : Prop where
  current : changed.currentDirectory = fs.currentDirectory
  directories : ∀ location, fs.get? location = some .directory →
    changed.get? location = some .directory
  links : ∀ location target, fs.get? location = some (.link target) →
    changed.get? location = some (.link target)

lemma KeepsWays.refl (fs : FileSystem) : fs.KeepsWays fs :=
  ⟨rfl, fun _ hentry => hentry, fun _ _ hentry => hentry⟩

lemma KeepsWays.trans {fs middle changed : FileSystem} (h : fs.KeepsWays middle)
    (h' : middle.KeepsWays changed) : fs.KeepsWays changed :=
  ⟨h'.current.trans h.current, fun _ hentry => h'.directories _ (h.directories _ hentry),
    fun _ _ hentry => h'.links _ _ (h.links _ _ hentry)⟩

/-- Putting an entry where nothing lay, or a file did, keeps the ways. -/
lemma keepsWays_set {fs : FileSystem} {location : Location} (entry : Entry)
    (h : ∀ found, fs.get? location = some found → ∃ contents, found = .file contents) :
    fs.KeepsWays (fs.set location entry) := by
  have hkept : ∀ other found, (∀ contents, found ≠ .file contents) →
      fs.get? other = some found → (fs.set location entry).get? other = some found := by
    intro other found hnofile hfound
    have hne : other ≠ location := by
      rintro rfl
      obtain ⟨contents, hcontents⟩ := h found hfound
      exact hnofile contents hcontents
    rw [get?_set_of_ne fs entry hne, hfound]
  exact ⟨rfl, fun other => hkept other _ (by simp), fun other target => hkept other _ (by simp)⟩

/-- Removing an entry takes ways away and adds none. -/
lemma keepsWays_erase (fs : FileSystem) {location : Location} (hne : location ≠ []) :
    (fs.erase location).KeepsWays fs := by
  have hkept : ∀ other found, (fs.erase location).get? other = some found →
      fs.get? other = some found := by
    intro other found hfound
    by_cases hsame : other = location
    · rw [hsame, get?_erase_self fs hne] at hfound
      cases hfound
    · rwa [get?_erase_of_ne fs hsame] at hfound
  exact ⟨rfl, fun other => hkept other _, fun other target => hkept other _⟩

/-- A file in the place of an entry keeps the ways that are left without the entry, and adds
none. -/
lemma keepsWays_set_file (fs : FileSystem) {location : Location} (hne : location ≠ [])
    (contents : Bytes) :
    (fs.erase location).KeepsWays (fs.set location (.file contents)) ∧
      (fs.set location (.file contents)).KeepsWays (fs.erase location) := by
  have hiff : ∀ other found, (∀ stored, found ≠ .file stored) →
      ((fs.erase location).get? other = some found ↔
        (fs.set location (.file contents)).get? other = some found) := by
    intro other found hfound
    by_cases hsame : other = location
    · subst hsame
      rw [get?_erase_self fs hne, get?_set_self fs _ hne]
      refine iff_of_false (by simp) fun h => hfound contents ?_
      exact (Option.some.inj h).symm
    · rw [get?_erase_of_ne fs hsame, get?_set_of_ne fs _ hsame]
  constructor
  · exact ⟨rfl, fun other => (hiff other _ (by simp)).1, fun other _ => (hiff other _ (by simp)).1⟩
  · exact ⟨rfl, fun other => (hiff other _ (by simp)).2, fun other _ => (hiff other _ (by simp)).2⟩

/-- A walk that ends at a directory or at a link ends there after a change that keeps the ways. -/
lemma KeepsWays.advance {fs changed : FileSystem} (hkeeps : fs.KeepsWays changed)
    (followLast : Bool) (directory : Location) (segments : List String) {progress : Progress}
    (hprogress : ∀ place, progress = .arrived place →
      ∃ location, place = .found location ∧ fs.get? location = some .directory)
    (h : fs.advance followLast directory segments = .ok progress) :
    changed.advance followLast directory segments = .ok progress := by
  induction segments generalizing directory with
  | nil => exact h
  | cons segment segments ih =>
    rw [FileSystem.advance] at h ⊢
    by_cases hblank : Path.isBlank segment = true
    · rw [if_pos hblank] at h ⊢
      exact ih _ h
    by_cases hup : segment = ".."
    · rw [if_neg hblank, if_pos hup] at h ⊢
      exact ih _ h
    rw [if_neg hblank, if_neg hup] at h ⊢
    cases hentry : fs.get? (directory ++ [segment]) with
    | none =>
      simp only [hentry] at h
      split_ifs at h
      cases h
      obtain ⟨location, hvacant, -⟩ := hprogress _ rfl
      cases hvacant
    | some entry =>
      simp only [hentry] at h
      cases entry with
      | directory =>
        simp only [hkeeps.directories _ hentry]
        exact ih _ h
      | file contents =>
        simp only at h
        split_ifs at h
        cases h
        obtain ⟨location, hfound, hlocation⟩ := hprogress _ rfl
        cases hfound
        rw [hentry] at hlocation
        cases hlocation
      | link target =>
        simp only [hkeeps.links _ _ hentry]
        exact h

/-- A path that leads to a directory leads there after a change that keeps the ways. -/
theorem KeepsWays.locate {fs changed : FileSystem} (hkeeps : fs.KeepsWays changed) {path : Path}
    {location : Location} (h : fs.locate path = .ok location)
    (hlocation : fs.get? location = some .directory) : changed.locate path = .ok location := by
  have hwalk : ∀ links directory segments,
      fs.walk true links directory segments = .ok (.found location) →
      changed.walk true links directory segments = .ok (.found location) := by
    intro links
    induction links using Nat.strongRecOn with
    | ind links ih =>
      intro directory segments hfound
      rcases walk_eq_ok_iff.1 hfound with
        hplace | ⟨left, holder, target, rest, rfl, htarget, hlink, hrest⟩
      · have harrived := hkeeps.advance true directory segments (by simpa using hlocation) hplace
        exact walk_eq_ok_iff.2 (Or.inl harrived)
      · have hat := hkeeps.advance true directory segments (by simp) hlink
        exact walk_eq_ok_iff.2 (Or.inr ⟨left, holder, target, rest, rfl, htarget, hat,
          ih left (Nat.lt_succ_self left) _ _ hrest⟩)
  have htext : path.text ≠ "" := by
    intro htext
    rw [FileSystem.locate, place, if_pos htext] at h
    cases h
  have hplace := hwalk _ _ _ (walk_of_locate h)
  rw [FileSystem.locate, place, if_neg htext, hkeeps.current, hplace]

/-- Putting an entry into a directory leaves a file system well-formed, unless it takes the place of
a directory. -/
theorem WellFormed.set {fs : FileSystem} (hfs : fs.WellFormed) {directory : Location}
    {name : String} (hname : IsFileName name) (hdirectory : fs.get? directory = some .directory)
    {entry : Entry}
    (hplace : entry = .directory ∨ fs.get? (directory ++ [name]) ≠ some .directory) :
    (fs.set (directory ++ [name]) entry).WellFormed := by
  have hne : directory ≠ directory ++ [name] := by
    simp
  have hstays : ∀ other, fs.get? other = some .directory →
      (fs.set (directory ++ [name]) entry).get? other = some .directory := by
    intro other hother
    by_cases hsame : other = directory ++ [name]
    · subst hsame
      rw [get?_set_self fs entry (by simp), hplace.resolve_right (not_not_intro hother)]
    · rw [get?_set_of_ne fs entry hsame, hother]
  have hcases : ∀ location found,
      (location, found) ∈ (fs.set (directory ++ [name]) entry).entries →
      location = directory ++ [name] ∨ (location, found) ∈ fs.entries := by
    intro location found hmem
    rcases List.mem_cons.1 hmem with heq | hmem
    · exact Or.inl (Prod.ext_iff.1 heq).1
    · exact Or.inr (List.mem_filter.1 hmem).1
  constructor
  · rw [FileSystem.set, List.map_cons, List.nodup_cons]
    constructor
    · simp
    · exact hfs.nodup.sublist (List.filter_sublist.map _)
  · intro location found hmem
    rcases hcases location found hmem with rfl | hold
    · simp
    · exact hfs.ne_nil _ _ hold
  · intro location found hmem
    rcases hcases location found hmem with rfl | hold
    · intro other hother
      rcases List.mem_append.1 hother with hother | hother
      · exact hfs.isFileName_of_mem hdirectory other hother
      · rwa [List.mem_singleton.1 hother]
    · exact hfs.names _ _ hold
  · intro location found hmem
    rcases hcases location found hmem with rfl | hold
    · rw [List.dropLast_concat]
      exact hstays directory hdirectory
    · exact hstays _ (hfs.parent _ _ hold)
  · exact hstays _ hfs.current

end EntryPoint.FileSystem
