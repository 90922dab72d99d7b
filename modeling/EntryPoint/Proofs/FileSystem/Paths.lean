import EntryPoint.Proofs.Splitting
import EntryPoint.Scan

/-!
# Paths below a root

A path is determined by its segments, and the path of what lies below a root along given names is
spelt by the segments of the root and those names. Hence going down twice is going down once along
both, and what such a path says beyond its root is exactly those names: `relativeTo?` undoes `child`
however the root is spelt, with repeated slashes, trailing ones or segments `.` in it.
-/

namespace EntryPoint.Path

open FileSystem (IsFileName)

/-! ## Spelling and splitting -/

/-- A split at slashes undoes the spelling of segments without slashes. -/
lemma segments_spell {segments : List String} (hne : segments ≠ [])
    (hslash : ∀ segment ∈ segments, '/' ∉ segment.toList) :
    (⟨spell segments⟩ : Path).segments = segments := by
  have hsplit : (['/'].intercalate (segments.map String.toList)).splitOn '/'
      = segments.map String.toList := by
    refine List.splitOn_intercalate '/' ?_ (by simpa using hne)
    intro cs hcs
    obtain ⟨segment, hmem, rfl⟩ := List.mem_map.1 hcs
    exact hslash segment hmem
  have htext : (spell segments).toList = ['/'].intercalate (segments.map String.toList) := by
    rw [spell, String.toList_intercalate]
    rfl
  rw [Path.segments, htext, hsplit, List.map_map]
  simp [Function.comp_def]

/-- Spelling undoes the split at slashes. -/
lemma spell_segments (path : Path) : spell path.segments = path.text := by
  apply String.toList_injective
  have hslash : ("/" : String).toList = ['/'] := rfl
  rw [spell, String.toList_intercalate, hslash, segments, List.map_map]
  simp [Function.comp_def, List.intercalate_splitOn]

/-- Paths with the same text are the same. -/
lemma eq_of_text_eq {path other : Path} (h : path.text = other.text) : path = other := by
  obtain ⟨text⟩ := path
  obtain ⟨otherText⟩ := other
  exact congrArg Path.mk h

lemma segments_ne_nil (path : Path) : path.segments ≠ [] := by
  simp [segments, List.splitOn_ne_nil]

/-- A slash between two texts separates their segments. -/
lemma segments_append_slash (front back : String) :
    (⟨front ++ "/" ++ back⟩ : Path).segments
      = (⟨front⟩ : Path).segments ++ (⟨back⟩ : Path).segments := by
  have htext : (front ++ "/" ++ back).toList = front.toList ++ '/' :: back.toList := by
    simp
  simp only [segments, htext, List.splitOn_append_cons_self, List.map_append]

/-- No segment holds a slash, or anything that the path does not hold. -/
lemma mem_and_ne_of_mem_segments {path : Path} {segment : String}
    (hsegment : segment ∈ path.segments) {c : Char} (hc : c ∈ segment.toList) :
    c ∈ path.text.toList ∧ c ≠ '/' := by
  obtain ⟨piece, hpiece, rfl⟩ := List.mem_map.1 hsegment
  rw [String.toList_ofList] at hc
  exact mem_and_ne_of_mem_splitOn hpiece hc

@[simp] lemma segments_empty : (⟨""⟩ : Path).segments = [""] := by
  decide

lemma isBlank_eq_false {name : String} (h : IsFileName name) : isBlank name = false := by
  simp [isBlank, h.1, h.2.1]

/-! ## Anchors -/

/-- A leading empty segment with more behind it anchors a path at the root of the file system. -/
lemma anchored_of_root {path : Path} {body : List String} (h : path.segments = "" :: body)
    (hbody : body ≠ []) : path.anchored = (.root, body) := by
  obtain ⟨segment, rest, rfl⟩ := List.exists_cons_of_ne_nil hbody
  simp [anchored, h]

/-- A leading segment `.` anchors a path at the current directory. -/
lemma anchored_of_here {path : Path} {body : List String} (h : path.segments = "." :: body) :
    path.anchored = (.here, body) := by
  simp [anchored, h]

/-- A path that starts with a name has no anchor spelt out. -/
lemma anchored_of_free {path : Path} {segment : String} {rest : List String}
    (h : path.segments = segment :: rest) (hblank : isBlank segment = false) :
    path.anchored = (.free, segment :: rest) := by
  obtain ⟨hempty, hdot⟩ : segment ≠ "" ∧ segment ≠ "." := by
    simpa [isBlank] using hblank
  simp only [anchored, h]
  split
  · rename_i heq
    exact absurd (List.cons.inj heq).1 hempty
  · rename_i heq
    exact absurd (List.cons.inj heq).1 hdot
  · rfl

/-- What the segments of a path are, by what it starts from. -/
lemma anchored_cases (path : Path) :
    (∃ body, body ≠ [] ∧ path.segments = "" :: body ∧ path.anchored = (.root, body)) ∨
    (∃ body, path.segments = "." :: body ∧ path.anchored = (.here, body)) ∨
    (path.segments = [""] ∧ path.anchored = (.free, [""])) ∨
    (∃ name rest, isBlank name = false ∧ path.segments = name :: rest ∧
      path.anchored = (.free, name :: rest)) := by
  obtain ⟨segment, rest, h⟩ := List.exists_cons_of_ne_nil (segments_ne_nil path)
  by_cases hblank : isBlank segment = false
  · exact .inr (.inr (.inr ⟨segment, rest, hblank, h, anchored_of_free h hblank⟩))
  have hcases : segment = "" ∨ segment = "." := by
    simpa [isBlank, or_iff_not_imp_left] using hblank
  obtain rfl | rfl := hcases
  · by_cases hrest : rest = []
    · subst hrest
      exact .inr (.inr (.inl ⟨h, by simp [anchored, h]⟩))
    · exact .inl ⟨rest, hrest, h, anchored_of_root h hrest⟩
  · exact .inr (.inl ⟨rest, h, anchored_of_here h⟩)

/-- A path is spelt by its anchor and its body. -/
lemma ofSegments_anchored (path : Path) : ofSegments path.anchor path.body = path := by
  apply eq_of_text_eq
  rw [← spell_segments path]
  rcases anchored_cases path with ⟨segments, hne, hsegments, h⟩ | ⟨segments, hsegments, h⟩ |
    ⟨hsegments, h⟩ | ⟨name, rest, -, hsegments, h⟩
  all_goals rw [hsegments, anchor, body, h]
  · obtain ⟨segment, rest, rfl⟩ := List.exists_cons_of_ne_nil hne
    have hspell : spell ("" :: segment :: rest) = "" ++ "/" ++ spell (segment :: rest) :=
      String.intercalate_cons_cons
    rw [String.empty_append] at hspell
    exact hspell.symm
  · rfl
  · rfl
  · rfl

/-- The names along a path are its segments but for those that name nothing. -/
lemma names_eq_filter (path : Path) :
    path.names = path.segments.filter fun segment => !isBlank segment := by
  rcases anchored_cases path with ⟨segments, -, hsegments, h⟩ | ⟨segments, hsegments, h⟩ |
    ⟨hsegments, h⟩ | ⟨name, rest, -, hsegments, h⟩
  all_goals rw [names, body, h, hsegments]
  · exact (List.filter_cons_of_neg (by decide)).symm
  · exact (List.filter_cons_of_neg (by decide)).symm

/-- A path is absolute exactly if it starts with a slash. -/
lemma isAbsolute_iff {path : Path} : path.isAbsolute = true ↔ ∃ rest, path.text = "/" ++ rest := by
  constructor
  · intro h
    rw [isAbsolute, decide_eq_true_eq, anchor] at h
    rcases anchored_cases path with ⟨segments, hne, hsegments, -⟩ | ⟨segments, -, hother⟩ |
      ⟨-, hother⟩ | ⟨name, rest, -, -, hother⟩
    · obtain ⟨segment, rest, rfl⟩ := List.exists_cons_of_ne_nil hne
      refine ⟨spell (segment :: rest), ?_⟩
      have hspell : spell ("" :: segment :: rest) = "" ++ "/" ++ spell (segment :: rest) :=
        String.intercalate_cons_cons
      rw [← spell_segments path, hsegments, hspell, String.empty_append]
    all_goals rw [hother] at h; cases h
  · rintro ⟨rest, hrest⟩
    have hsegments : path.segments = "" :: (⟨rest⟩ : Path).segments := by
      obtain ⟨text⟩ := path
      obtain rfl : text = "" ++ "/" ++ rest := by
        rw [String.empty_append]
        exact hrest
      rw [segments_append_slash, segments_empty]
      rfl
    simp only [isAbsolute, anchor, anchored_of_root hsegments (segments_ne_nil _), decide_true]

/-- The body of a path is the end of its segments. -/
lemma body_suffix (path : Path) : path.body <:+ path.segments := by
  rcases anchored_cases path with ⟨segments, -, hsegments, h⟩ | ⟨segments, hsegments, h⟩ |
    ⟨hsegments, h⟩ | ⟨name, rest, -, hsegments, h⟩
  · exact ⟨[""], by rw [body, h, hsegments, List.singleton_append]⟩
  · exact ⟨["."], by rw [body, h, hsegments, List.singleton_append]⟩
  · exact ⟨[], by rw [body, h, hsegments, List.nil_append]⟩
  · exact ⟨[], by rw [body, h, hsegments, List.nil_append]⟩

/-- The names of a path that is spelt by segments are those of them that name something. -/
lemma names_spell {segments : List String} (hslash : ∀ segment ∈ segments, '/' ∉ segment.toList) :
    (⟨spell segments⟩ : Path).names = segments.filter fun segment => !isBlank segment := by
  rw [names_eq_filter]
  by_cases hnil : segments = []
  · subst hnil
    decide
  · rw [segments_spell hnil hslash]

/-- The names of a path are those of its segments that name something, whatever its anchor. -/
lemma names_ofSegments (anchor : Anchor) {segments : List String}
    (hslash : ∀ segment ∈ segments, '/' ∉ segment.toList) :
    (ofSegments anchor segments).names = segments.filter fun segment => !isBlank segment := by
  cases anchor with
  | free => exact names_spell hslash
  | here =>
    have hdot : ∀ segment ∈ "." :: segments, '/' ∉ segment.toList :=
      List.forall_mem_cons.2 ⟨by decide, hslash⟩
    rw [ofSegments, names_spell hdot, List.filter_cons_of_neg (by decide)]
  | root =>
    have hsegments := segments_append_slash "" (spell segments)
    rw [String.empty_append, segments_empty] at hsegments
    rw [ofSegments, names_eq_filter, hsegments, List.singleton_append,
      List.filter_cons_of_neg (by decide), ← names_eq_filter, names_spell hslash]

/-! ## Going down from a root -/

/-- Segments without an empty one at their end, which a trailing slash leaves. -/
def withoutTrailing (segments : List String) : List String :=
  if segments.getLast? = some "" then segments.dropLast else segments

/-- Only blank segments go with a trailing slash. -/
lemma exists_blanks (segments : List String) :
    ∃ blanks, (∀ segment ∈ blanks, isBlank segment = true) ∧
      segments = withoutTrailing segments ++ blanks := by
  unfold withoutTrailing
  split_ifs with hlast
  · obtain ⟨front, rfl⟩ := List.getLast?_eq_some_iff.1 hlast
    refine ⟨[""], ?_, by simp⟩
    simp [isBlank]
  · exact ⟨[], by simp, by simp⟩

lemma filter_withoutTrailing (segments : List String) :
    (withoutTrailing segments).filter (fun segment => !isBlank segment)
      = segments.filter fun segment => !isBlank segment := by
  obtain ⟨blanks, hblanks, hsplit⟩ := exists_blanks segments
  have hnone : (blanks.filter fun segment => !isBlank segment) = [] := by
    simpa using hblanks
  conv_rhs => rw [hsplit, List.filter_append, hnone, List.append_nil]

lemma withoutTrailing_cons {segment : String} {rest : List String}
    (h : segment ≠ "" ∨ rest ≠ []) :
    withoutTrailing (segment :: rest) = segment :: withoutTrailing rest := by
  cases rest with
  | nil => simpa [withoutTrailing] using h
  | cons next rest =>
    simp only [withoutTrailing, List.getLast?_cons_cons, List.dropLast_cons_cons]
    split_ifs <;> rfl

/-- The text of a root up to what follows it in the path of something below it. -/
def stem (root : Path) : String :=
  if root.text = "" ∨ root.text.toList.getLast? = some '/' then root.text else root.text ++ "/"

/-- A relative path under a root is spelt behind the root. -/
lemma text_join (root : Path) {path : Path} (h : path.isAbsolute = false) :
    (root.join path).text = root.stem ++ path.text := by
  simp only [join, h, stem, Bool.false_eq_true, if_false, Bool.or_eq_true, decide_eq_true_eq]
  split_ifs <;> rfl

/-- The segments of a root and those of a relative path are the segments of that path under the
root. -/
theorem segments_join (root : Path) {path : Path} (h : path.isAbsolute = false) :
    (root.join path).segments = withoutTrailing root.segments ++ path.segments := by
  have hjoin : root.join path = ⟨root.stem ++ path.text⟩ := by
    rw [← text_join root h]
  obtain ⟨text⟩ := root
  rw [hjoin, stem]
  by_cases hempty : text = ""
  · subst hempty
    simp [withoutTrailing]
  by_cases hslash : text.toList.getLast? = some '/'
  · obtain ⟨front, hfront⟩ := List.getLast?_eq_some_iff.1 hslash
    obtain rfl : text = String.ofList front ++ "/" := by
      apply String.toList_injective
      simpa using hfront
    have hroot := segments_append_slash (String.ofList front) ""
    rw [String.append_empty, segments_empty] at hroot
    rw [if_pos (Or.inr hslash), segments_append_slash, hroot, withoutTrailing]
    simp
  · have hlast : (⟨text⟩ : Path).segments.getLast? ≠ some "" := by
      intro hlast
      obtain ⟨front, hfront⟩ := List.getLast?_eq_some_iff.1 hlast
      have htext := spell_segments ⟨text⟩
      rw [hfront] at htext
      by_cases hnil : front = []
      · subst hnil
        exact hempty (htext.symm.trans (by decide))
      · rw [spell, String.intercalate_append_of_ne_nil hnil (by simp)] at htext
        apply hslash
        rw [show text = _ from htext.symm]
        simp
    rw [if_neg (not_or_intro hempty hslash), segments_append_slash, withoutTrailing, if_neg hlast]

/-- Whether a path starts and ends with a segment that names something. -/
structure IsTight (path : Path) : Prop where
  first : ∃ name rest, path.segments = name :: rest ∧ isBlank name = false
  last : ∃ front name, path.segments = front ++ [name] ∧ isBlank name = false

/-- Names spell a path that starts and ends with a name. -/
lemma isTight_spell {names : Location} (hne : names ≠ [])
    (hnames : ∀ name ∈ names, IsFileName name) : (⟨spell names⟩ : Path).IsTight := by
  have hspell : (⟨spell names⟩ : Path).segments = names :=
    segments_spell hne fun name hmem => (hnames name hmem).2.2.2
  constructor
  · obtain ⟨name, rest, rfl⟩ := List.exists_cons_of_ne_nil hne
    exact ⟨name, rest, hspell, isBlank_eq_false (hnames name (by simp))⟩
  · obtain ⟨front, name, rfl⟩ := List.eq_nil_or_concat names |>.resolve_left hne
    rw [List.concat_eq_append] at *
    exact ⟨front, name, hspell, isBlank_eq_false (hnames name (by simp))⟩

namespace IsTight
variable {path : Path} (h : path.IsTight) (root : Path)

include h in
lemma anchored_eq : path.anchored = (.free, path.segments) := by
  obtain ⟨name, rest, hpath, hname⟩ := h.first
  rw [anchored_of_free hpath hname, hpath]

include h in
lemma isAbsolute_eq : path.isAbsolute = false := by
  rw [isAbsolute, anchor, h.anchored_eq]
  rfl

include h in
/-- A tight path under a root has the anchor of the root, and its segments follow in the body. -/
theorem anchored_join :
    (root.join path).anchored = (root.anchor, withoutTrailing root.body ++ path.segments) := by
  obtain ⟨name, rest, hpath, hname⟩ := h.first
  have hjoin := segments_join root h.isAbsolute_eq
  rcases anchored_cases root with ⟨segments, hsegments, hroot, h⟩ | ⟨segments, hroot, h⟩ |
    ⟨hroot, h⟩ | ⟨segment, more, hblank, hroot, h⟩
  all_goals rw [hroot, hpath] at hjoin; rw [anchor, body, h, hpath]
  · rw [withoutTrailing_cons (Or.inr hsegments), List.cons_append] at hjoin
    exact anchored_of_root hjoin (by simp)
  · rw [withoutTrailing_cons (Or.inl (by decide)), List.cons_append] at hjoin
    exact anchored_of_here hjoin
  · exact anchored_of_free hjoin hname
  · have hsegment : segment ≠ "" := by
      rintro rfl
      exact absurd hblank (by decide)
    rw [withoutTrailing_cons (Or.inl hsegment), List.cons_append] at hjoin ⊢
    exact anchored_of_free hjoin hblank

include h in
/-- A tight path under a root is absolute if the root is. -/
lemma isAbsolute_join : (root.join path).isAbsolute = root.isAbsolute := by
  rw [isAbsolute, isAbsolute, anchor, h.anchored_join root]

end IsTight

/-- The path of what lies below a root is spelt behind the root. -/
lemma text_child (root : Path) {names : Location} (hne : names ≠ [])
    (hnames : ∀ name ∈ names, IsFileName name) :
    (root.child names).text = root.stem ++ spell names :=
  text_join root (isTight_spell hne hnames).isAbsolute_eq

/-- The segments of a root and the names below it are the segments of the path that goes there. -/
theorem segments_child (root : Path) {names : Location} (hne : names ≠ [])
    (hnames : ∀ name ∈ names, IsFileName name) :
    (root.child names).segments = withoutTrailing root.segments ++ names := by
  rw [child, segments_join root (isTight_spell hne hnames).isAbsolute_eq,
    segments_spell hne fun name hmem => (hnames name hmem).2.2.2]

/-- What lies below a root has the anchor of the root, and the names follow in its body. -/
theorem anchored_child (root : Path) {names : Location} (hne : names ≠ [])
    (hnames : ∀ name ∈ names, IsFileName name) :
    (root.child names).anchored = (root.anchor, withoutTrailing root.body ++ names) := by
  rw [child, (isTight_spell hne hnames).anchored_join,
    segments_spell hne fun name hmem => (hnames name hmem).2.2.2]

/-- What lies below a root is absolute if the root is. -/
lemma isAbsolute_child (root : Path) {names : Location} (hne : names ≠ [])
    (hnames : ∀ name ∈ names, IsFileName name) :
    (root.child names).isAbsolute = root.isAbsolute :=
  (isTight_spell hne hnames).isAbsolute_join root

/-- Segments that end in a name are not trimmed at their end. -/
lemma trimEnd_concat (segments : List String) {name : String} (h : isBlank name = false) :
    trimEnd (segments ++ [name]) = segments ++ [name] := by
  rw [trimEnd, List.reverse_append]
  simp [h]

/-- The paths that end in a name along a body, the longest first, and the anchor if it is spelt. -/
def lineageAlong (anchor : Anchor) (body : List String) : List Path :=
  let shorter := (List.range body.length).filterMap fun n =>
    match (body.take (n + 1)).getLast? with
    | some last => if isBlank last then none else some (ofSegments anchor (body.take (n + 1)))
    | none => none
  match anchor with
  | .free => shorter.reverse
  | anchor => shorter.reverse ++ [ofSegments anchor []]

lemma lineage_eq (path : Path) : path.lineage = lineageAlong path.anchor (trimEnd path.body) :=
  rfl

/-- One more name makes one more path. -/
lemma lineageAlong_concat (anchor : Anchor) (body : List String) {name : String}
    (h : isBlank name = false) :
    lineageAlong anchor (body ++ [name])
      = ofSegments anchor (body ++ [name]) :: lineageAlong anchor body := by
  have htake : (body ++ [name]).take (body.length + 1) = body ++ [name] :=
    List.take_of_length_le (by simp)
  have hshorter : ∀ n ∈ List.range body.length, (body ++ [name]).take (n + 1) = body.take (n + 1) :=
    fun n hn => List.take_append_of_le_length (List.mem_range.1 hn)
  simp only [lineageAlong]
  rw [List.length_append, List.length_singleton, List.range_succ, List.filterMap_append]
  rw [List.filterMap_congr fun n hn => by rw [hshorter n hn]]
  simp only [List.filterMap_cons, htake, List.getLast?_concat, h, List.filterMap_nil,
    List.reverse_append, Bool.false_eq_true, if_false]
  cases anchor <;> rfl

/-- The lineage of what lies below a root goes along the names back to the root. -/
theorem lineage_child (root : Path) {names : Location} (hne : names ≠ [])
    (hnames : ∀ name ∈ names, IsFileName name) :
    (root.child names).lineage
      = lineageAlong root.anchor (withoutTrailing root.body ++ names) := by
  obtain ⟨front, name, rfl⟩ := List.eq_nil_or_concat names |>.resolve_left hne
  rw [List.concat_eq_append] at *
  have hname := isBlank_eq_false (hnames name (by simp))
  rw [lineage_eq, anchor, body, anchored_child root hne hnames, ← List.append_assoc,
    trimEnd_concat _ hname]

/-- The lineage of what lies below a root starts with its own path. -/
theorem lineage_child_concat (root : Path) (front : Location) {name : String}
    (hnames : ∀ other ∈ front ++ [name], IsFileName other) :
    (root.child (front ++ [name])).lineage
      = root.child (front ++ [name])
        :: lineageAlong root.anchor (withoutTrailing root.body ++ front) := by
  have hne : front ++ [name] ≠ [] := by
    simp
  have hwhole := ofSegments_anchored (root.child (front ++ [name]))
  rw [anchor, body, anchored_child root hne hnames, ← List.append_assoc] at hwhole
  rw [lineage_child root hne hnames, ← List.append_assoc,
    lineageAlong_concat _ _ (isBlank_eq_false (hnames name (by simp))), hwhole]

/-! ## Back up to the root -/

/-- The segments of a tight path are not trimmed at their end. -/
lemma IsTight.trimEnd_segments {path : Path} (h : path.IsTight) :
    trimEnd path.segments = path.segments := by
  obtain ⟨front, name, hpath, hname⟩ := h.last
  rw [hpath, trimEnd_concat front hname]

/-- Blank segments before those of a tight path are trimmed. -/
lemma IsTight.trim_append {path : Path} (h : path.IsTight) {blanks : List String}
    (hblanks : ∀ segment ∈ blanks, isBlank segment = true) :
    trim (blanks ++ path.segments) = path.segments := by
  have hstart : path.segments.dropWhile isBlank = path.segments := by
    obtain ⟨name, rest, hpath, hname⟩ := h.first
    rw [hpath]
    exact List.dropWhile_cons_of_neg (by simp [hname])
  rw [trim, List.dropWhile_append_of_pos hblanks, hstart, h.trimEnd_segments]

/-- Behind the names among segments come at most blank ones and what follows the segments. -/
lemma exists_dropNames (segments more : List String) :
    ∃ blanks, (∀ segment ∈ blanks, isBlank segment = true) ∧
      dropNames (segments.filter fun segment => !isBlank segment) (segments ++ more)
        = some (blanks ++ more) := by
  induction segments with
  | nil => exact ⟨[], by simp, rfl⟩
  | cons segment segments ih =>
    obtain ⟨blanks, hblanks, hdrop⟩ := ih
    by_cases hblank : isBlank segment = true
    · rw [List.filter_cons_of_neg (by simp [hblank])]
      cases hfilter : segments.filter fun segment => !isBlank segment with
      | nil =>
        rw [hfilter, dropNames] at hdrop
        refine ⟨segment :: blanks, List.forall_mem_cons.2 ⟨hblank, hblanks⟩, ?_⟩
        rw [dropNames, List.cons_append, Option.some.inj hdrop, List.cons_append]
      | cons name names =>
        rw [hfilter] at hdrop
        refine ⟨blanks, hblanks, ?_⟩
        rw [← hdrop, dropNames, dropNames, List.cons_append, List.dropWhile_cons_of_pos hblank]
    · rw [List.filter_cons_of_pos (by simpa using hblank)]
      refine ⟨blanks, hblanks, ?_⟩
      rw [dropNames, List.cons_append, List.dropWhile_cons_of_neg hblank]
      simpa using hdrop

/-- What a tight path under a root says beyond the root is that path. -/
theorem IsTight.relativeTo?_join {path : Path} (h : path.IsTight) (root : Path) :
    relativeTo? root (root.join path) = some path.text := by
  have hanchored := h.anchored_join root
  have hanchor : (root.join path).anchor = root.anchor := by
    rw [anchor, hanchored]
  have hbody : (root.join path).body = withoutTrailing root.body ++ path.segments := by
    rw [body, hanchored]
  unfold relativeTo?
  by_cases htrivial : root.isTrivial
  · have hroot : root.anchored = (.free, [""]) := by
      rw [isTrivial, Bool.and_eq_true, decide_eq_true_eq, List.isEmpty_iff] at htrivial
      obtain ⟨hfree, hempty⟩ := htrivial
      rcases anchored_cases root with
        ⟨segments, -, -, h⟩ | ⟨segments, -, h⟩ | ⟨-, h⟩ | ⟨name, rest, hname, -, h⟩
      · rw [anchor, h] at hfree
        cases hfree
      · rw [anchor, h] at hfree
        cases hfree
      · exact h
      · rw [Path.names, body, h] at hempty
        simp [hname] at hempty
    have hwhole : (root.join path).body = path.segments := by
      rw [hbody, body, hroot]
      rfl
    rw [if_pos htrivial, hwhole, h.trimEnd_segments, hanchor, anchor, hroot, ofSegments,
      spell_segments]
  · have hrootnames : root.names
        = (withoutTrailing root.body).filter fun segment => !isBlank segment :=
      (filter_withoutTrailing root.body).symm
    obtain ⟨skipped, hskipped, hdrop⟩ :=
      exists_dropNames (withoutTrailing root.body) path.segments
    rw [if_neg htrivial, if_pos hanchor.symm, hbody, hrootnames, hdrop, Option.map_some,
      h.trim_append hskipped, spell_segments]

/-- What the path of something below a root says beyond the root is the names that lead there. -/
theorem relativeTo?_child (root : Path) {names : Location} (hne : names ≠ [])
    (hnames : ∀ name ∈ names, IsFileName name) :
    relativeTo? root (root.child names) = some (spell names) :=
  (isTight_spell hne hnames).relativeTo?_join root

/-! ## Starting with a base -/

/-- Names are dropped exactly if they are the first ones that segments name. -/
lemma isSome_dropNames_iff {names segments : List String}
    (hnames : ∀ name ∈ names, isBlank name = false) :
    (dropNames names segments).isSome = true ↔
      names <+: segments.filter fun segment => !isBlank segment := by
  induction names generalizing segments with
  | nil => simp [dropNames]
  | cons name names ih =>
    rw [List.forall_mem_cons] at hnames
    have hblanks : (segments.takeWhile isBlank).filter (fun segment => !isBlank segment) = [] := by
      rw [List.filter_eq_nil_iff]
      intro segment hsegment
      have hblank := List.all_eq_true.1 List.all_takeWhile segment hsegment
      simp [hblank]
    have hhead := List.head?_dropWhile_not isBlank segments
    rw [dropNames, ← List.takeWhile_append_dropWhile (p := isBlank) (l := segments),
      List.filter_append, hblanks, List.nil_append, List.takeWhile_append_dropWhile]
    cases hrest : segments.dropWhile isBlank with
    | nil => simp
    | cons segment rest =>
      rw [hrest] at hhead
      have hsegment : isBlank segment = false := by
        simpa using hhead
      rw [List.filter_cons_of_pos (by simp [hsegment]), List.cons_prefix_cons]
      by_cases heq : segment = name
      · simp [heq, ih hnames.2]
      · simp [heq, Ne.symm heq]

/-- What is left when names are dropped is the end of the segments. -/
lemma suffix_of_dropNames {names segments rest : List String}
    (h : dropNames names segments = some rest) : rest <:+ segments := by
  induction names generalizing segments with
  | nil =>
    cases h
    exact List.suffix_refl _
  | cons name names ih =>
    rw [dropNames] at h
    split at h
    · rename_i segment more hmore
      split_ifs at h
      have hdropped : more <:+ segments.dropWhile isBlank := by
        rw [hmore]
        exact List.suffix_cons segment more
      exact ((ih h).trans hdropped).trans (List.dropWhile_suffix _)
    · cases h

lemma isBlank_of_mem_names {path : Path} {name : String} (h : name ∈ path.names) :
    isBlank name = false := by
  simpa using (List.mem_filter.1 h).2

/-- A path starts with a base, component by component, if both have the same anchor and the names of
the base are the first names of the path; every path starts with a base that has no component. -/
theorem isSome_relativeTo?_iff (base path : Path) :
    (relativeTo? base path).isSome = true ↔
      base.isTrivial = true ∨ base.anchor = path.anchor ∧ base.names <+: path.names := by
  have hnames : (dropNames base.names path.body).isSome = true ↔ base.names <+: path.names :=
    isSome_dropNames_iff fun name => isBlank_of_mem_names
  unfold relativeTo?
  split_ifs with htrivial hanchor
  · simp [htrivial]
  · simp [htrivial, hanchor, hnames]
  · simp [htrivial, hanchor]

lemma mem_of_mem_trimEnd {segments : List String} {segment : String}
    (h : segment ∈ trimEnd segments) : segment ∈ segments := by
  rw [trimEnd, List.mem_reverse] at h
  exact List.mem_reverse.1 ((List.dropWhile_suffix _).subset h)

/-- What a path says beyond a base names nothing that the path does not name. -/
theorem mem_names_of_relativeTo? {base path : Path} {rest name : String}
    (h : relativeTo? base path = some rest) (hname : name ∈ (⟨rest⟩ : Path).names) :
    name ∈ path.names := by
  have hslash : ∀ segment ∈ path.body, '/' ∉ segment.toList := by
    intro segment hsegment hmem
    exact (mem_and_ne_of_mem_segments ((body_suffix path).subset hsegment) hmem).2 rfl
  have hsubset : ∀ {segments : List String}, (∀ segment ∈ segments, segment ∈ path.body) →
      name ∈ segments.filter (fun segment => !isBlank segment) → name ∈ path.names := by
    intro segments hsegments hmem
    obtain ⟨hmem, hblank⟩ := List.mem_filter.1 hmem
    exact List.mem_filter.2 ⟨hsegments name hmem, hblank⟩
  unfold relativeTo? at h
  split_ifs at h
  · cases h
    have htrim : ∀ segment ∈ trimEnd path.body, segment ∈ path.body :=
      fun segment => mem_of_mem_trimEnd
    exact hsubset htrim (names_ofSegments path.anchor (fun segment hsegment =>
      hslash segment (htrim segment hsegment)) ▸ hname)
  · obtain ⟨left, hleft, rfl⟩ := Option.map_eq_some_iff.1 h
    have htrim : ∀ segment ∈ trim left, segment ∈ path.body := by
      intro segment hsegment
      have hmem := (List.dropWhile_suffix _).subset (mem_of_mem_trimEnd hsegment)
      exact (suffix_of_dropNames hleft).subset hmem
    exact hsubset htrim (names_spell (fun segment hsegment =>
      hslash segment (htrim segment hsegment)) ▸ hname)

end EntryPoint.Path
