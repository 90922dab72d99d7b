import EntryPoint.Proofs.FileSystem.PathOrder
import EntryPoint.Proofs.Scan
import Mathlib.Logic.Relation

/-!
# Walks that deliver in any order

A walk below a directory hands the entries that it meets to visitors, which look at them side by
side and send the paths of the class files on. `Visiting.Step` is one move of a scheduler that may
pick any entry and any visitor. Every complete run sends the same paths, up to their order, and the
order in which they arrive is lost when they are sorted. So if a walk delivers each entry below the
root once (`Delivers`), a scan answers with the paths of all class files, each of them once, in the
order of their components.
-/

namespace EntryPoint

/-! ## What a walk delivers -/

/-- Whether a walk delivers each entry below a location once, and nothing else but perhaps the entry
at the location itself. Links are entries like others, and what they lead to is no entry below. -/
structure Delivers (fs : FileSystem) (location : Location) (found : List (Location × Entry)) :
    Prop where
  once : (found.map Prod.fst).Nodup
  real : ∀ relative entry, (relative, entry) ∈ found → fs.get? (location ++ relative) = some entry
  all : ∀ relative entry, relative ≠ [] → fs.get? (location ++ relative) = some entry →
    (relative, entry) ∈ found

/-- What lies below a location, in the order of the file system, is such a delivery. -/
lemma FileSystem.WellFormed.delivers_below {fs : FileSystem} (hfs : fs.WellFormed)
    (location : Location) : Delivers fs location (fs.below location) := by
  refine ⟨?_, fun relative entry h => (hfs.mem_below_iff.1 h).2, fun relative entry hne h =>
    hfs.mem_below_iff.2 ⟨hne, h⟩⟩
  let beyond (found : Location) : Option Location :=
    if location.isPrefixOf found ∧ found ≠ location then some (found.drop location.length) else none
  have hbelow : (fs.below location).map Prod.fst = (fs.entries.map Prod.fst).filterMap beyond := by
    rw [below, List.map_filterMap, List.filterMap_map]
    refine List.filterMap_congr fun found _ => ?_
    simp only [Function.comp_apply, beyond]
    split_ifs <;> rfl
  rw [hbelow]
  refine hfs.nodup.filterMap fun found other relative hfound hother => ?_
  have hsplit : ∀ {found : Location}, relative ∈ beyond found → found = location ++ relative := by
    intro found h
    simp only [beyond, Option.mem_def, Option.ite_none_right_eq_some, Option.some.injEq] at h
    obtain ⟨⟨hstart, -⟩, rfl⟩ := h
    exact (List.prefix_iff_eq_append.1 (List.isPrefixOf_iff_prefix.1 hstart)).symm
  rw [hsplit hfound, hsplit hother]

/-- Whether the entry along given names below a location is a class file: it is no directory, and
its name is the ending of class files with something before it. -/
def IsClassFileAt (fs : FileSystem) (location relative : Location) : Prop :=
  ∃ packages stem entry, relative = packages ++ [stem ++ ClassName.classSuffix] ∧ stem ≠ "" ∧
    fs.get? (location ++ relative) = some entry ∧ entry ≠ .directory

/-- File names lead to a class file. -/
lemma IsClassFileAt.isFileName {fs : FileSystem} (hfs : fs.WellFormed)
    {location relative : Location} (h : IsClassFileAt fs location relative) :
    relative ≠ [] ∧ ∀ name ∈ relative, FileSystem.IsFileName name := by
  obtain ⟨packages, stem, entry, hsplit, -, hget, -⟩ := h
  refine ⟨by simp [hsplit], fun name hname => ?_⟩
  exact hfs.isFileName_of_mem hget name (List.mem_append_right _ hname)

/-- The class files among entries that a walk delivers are those below the root. -/
lemma Delivers.mem_classFilesAmong_iff {fs : FileSystem} {location : Location}
    {found : List (Location × Entry)} (h : Delivers fs location found) {relative : Location} :
    relative ∈ classFilesAmong found ↔ IsClassFileAt fs location relative := by
  rw [EntryPoint.mem_classFilesAmong_iff]
  simp only [isClassFile_iff]
  constructor
  · rintro ⟨entry, hmem, hentry, packages, stem, hstem, hrelative⟩
    exact ⟨packages, stem, entry, hrelative, hstem, h.real _ _ hmem, hentry⟩
  · rintro ⟨packages, stem, entry, hrelative, hstem, hget, hentry⟩
    refine ⟨entry, h.all _ _ ?_ hget, hentry, packages, stem, hstem, hrelative⟩
    rw [hrelative]
    simp

/-! ## Schedules -/

/-- How far the visitors of a walk have come. -/
structure Visiting where
  /-- The entries that have not been handed to a visitor. -/
  waiting : List (Location × Entry)
  /-- The entries that visitors look at. -/
  held : List (Location × Entry)
  /-- The paths that have been sent, in the order in which they arrive. -/
  sent : List Path

namespace Visiting

/-- The paths of the class files among delivered entries. -/
def classPaths (root : Path) (found : List (Location × Entry)) : List Path :=
  (found.filter isClassFile).map fun entry => root.child entry.1

/-- A move of the scheduler: any entry that waits is handed to a visitor, or any visitor is done
with an entry, and has sent its path if it is a class file. -/
inductive Step (root : Path) : Visiting → Visiting → Prop where
  | hand (before : List (Location × Entry)) (entry : Location × Entry)
    (after held : List (Location × Entry)) (sent : List Path) :
    Step root ⟨before ++ entry :: after, held, sent⟩ ⟨before ++ after, entry :: held, sent⟩
  | send (waiting before : List (Location × Entry)) (entry : Location × Entry)
    (after : List (Location × Entry)) (sent : List Path) (h : isClassFile entry = true) :
    Step root ⟨waiting, before ++ entry :: after, sent⟩
      ⟨waiting, before ++ after, sent ++ [root.child entry.1]⟩
  | pass (waiting before : List (Location × Entry)) (entry : Location × Entry)
    (after : List (Location × Entry)) (sent : List Path) (h : isClassFile entry = false) :
    Step root ⟨waiting, before ++ entry :: after, sent⟩ ⟨waiting, before ++ after, sent⟩

/-- The paths that will have been sent in the end. -/
def paths (root : Path) (state : Visiting) : List Path :=
  state.sent ++ classPaths root (state.held ++ state.waiting)

variable {root : Path}

lemma classPaths_perm {found others : List (Location × Entry)} (h : found.Perm others) :
    (classPaths root found).Perm (classPaths root others) :=
  (h.filter _).map _

/-- An entry that is dealt with out of turn gives the same paths, up to their order. -/
lemma classPaths_middle (root : Path) (before : List (Location × Entry)) (entry : Location × Entry)
    (after waiting : List (Location × Entry)) :
    (classPaths root (entry :: (before ++ after ++ waiting))).Perm
      (classPaths root (before ++ entry :: after ++ waiting)) := by
  rw [List.append_assoc, List.append_assoc]
  exact classPaths_perm List.perm_middle.symm

/-- A move changes the order of the paths only. -/
lemma Step.paths_perm {state next : Visiting} (h : Step root state next) :
    (next.paths root).Perm (state.paths root) := by
  cases h with
  | hand before entry after held sent =>
    have hmoved : (entry :: (held ++ (before ++ after))).Perm
        (held ++ (before ++ entry :: after)) :=
      List.perm_middle.symm.trans (List.perm_middle.symm.append_left held)
    exact (classPaths_perm hmoved).append_left sent
  | send waiting before entry after sent h =>
    have hmoved := classPaths_middle root before entry after waiting
    rw [classPaths, List.filter_cons_of_pos h, List.map_cons] at hmoved
    rw [paths, paths, List.append_assoc, List.singleton_append]
    exact hmoved.append_left sent
  | pass waiting before entry after sent h =>
    have hmoved := classPaths_middle root before entry after waiting
    rw [classPaths, List.filter_cons_of_neg (by simp [h])] at hmoved
    exact hmoved.append_left sent

/-- A run of the scheduler changes the order of the paths only. -/
lemma paths_perm {state last : Visiting} (h : Relation.ReflTransGen (Step root) state last) :
    (last.paths root).Perm (state.paths root) := by
  induction h with
  | refl => exact .refl _
  | tail _ hstep ih => exact hstep.paths_perm.trans ih

/-- Whether paths can arrive in a given order when a walk delivers given entries. -/
def Run (root : Path) (found : List (Location × Entry)) (sent : List Path) : Prop :=
  Relation.ReflTransGen (Step root) ⟨found, [], []⟩ ⟨[], [], sent⟩

/-- A complete run sends the paths of the class files that were delivered. -/
lemma Run.perm {found : List (Location × Entry)} {sent : List Path} (h : Run root found sent) :
    sent.Perm (classPaths root found) := by
  simpa [paths, classPaths] using paths_perm h

/-- The entries that wait can be dealt with one by one in any order. -/
lemma exists_run {order waiting : List (Location × Entry)} (h : order.Perm waiting)
    (sent : List Path) :
    Relation.ReflTransGen (Step root) ⟨waiting, [], sent⟩
      ⟨[], [], sent ++ classPaths root order⟩ := by
  induction order generalizing waiting sent with
  | nil =>
    obtain rfl := h.nil_eq
    rw [classPaths, List.filter_nil, List.map_nil, List.append_nil]
  | cons entry order ih =>
    obtain ⟨before, after, rfl⟩ := List.append_of_mem (h.subset List.mem_cons_self)
    have hrest : order.Perm (before ++ after) := (h.trans List.perm_middle).cons_inv
    have hhand : Step root ⟨before ++ entry :: after, [], sent⟩ ⟨before ++ after, [entry], sent⟩ :=
      .hand before entry after [] sent
    cases hclass : isClassFile entry with
    | true =>
      have hrun := ih hrest (sent ++ [root.child entry.1])
      rw [List.append_assoc, List.singleton_append] at hrun
      rw [classPaths, List.filter_cons_of_pos hclass, List.map_cons]
      exact .head hhand (.head (.send (before ++ after) [] entry [] sent hclass) hrun)
    | false =>
      have hrun := ih hrest sent
      rw [classPaths, List.filter_cons_of_neg (by simp [hclass])]
      exact .head hhand (.head (.pass (before ++ after) [] entry [] sent hclass) hrun)

/-- The paths can arrive in every order in which the entries can be dealt with. -/
lemma run_of_perm {order found : List (Location × Entry)} (h : order.Perm found) :
    Run root found (classPaths root order) :=
  exists_run h []

end Visiting

/-! ## The answer of a scan -/

/-- The paths that a walk has sent, in ascending order. -/
def sortedPaths (sent : List Path) : List Path :=
  sent.mergeSort Path.comesNoLater

/-- Walks below the same location deliver the same class files. -/
lemma Delivers.filter_perm {fs : FileSystem} {location : Location}
    {found others : List (Location × Entry)} (h : Delivers fs location found)
    (hothers : Delivers fs location others) :
    (found.filter isClassFile).Perm (others.filter isClassFile) := by
  have hmem : ∀ {found : List (Location × Entry)}, Delivers fs location found → ∀ entry,
      entry ∈ found.filter isClassFile ↔
        fs.get? (location ++ entry.1) = some entry.2 ∧ isClassFile entry = true := by
    rintro found h ⟨relative, entry⟩
    rw [List.mem_filter]
    refine and_congr_left fun hclass => ⟨h.real relative entry, h.all relative entry ?_⟩
    obtain ⟨-, packages, stem, -, hrelative⟩ := isClassFile_iff.1 hclass
    simp [hrelative]
  have hdistinct : ∀ {found : List (Location × Entry)}, Delivers fs location found →
      (found.filter isClassFile).Nodup :=
    fun h => (List.Nodup.of_map _ h.once).filter _
  rw [List.perm_ext_iff_of_nodup (hdistinct h) (hdistinct hothers)]
  intro entry
  rw [hmem h, hmem hothers]

section
variable {fs : FileSystem} (hfs : fs.WellFormed) {location : Location}
  {found : List (Location × Entry)} (h : Delivers fs location found)

variable (root : Path)

include hfs h in
/-- The components of the path of a class file are those of the root and the names that lead there
from it. -/
lemma Delivers.components_child {relative : Location}
    (hrelative : relative ∈ classFilesAmong found) :
    (root.child relative).components = root.componentsBelow relative := by
  obtain ⟨hne, hnames⟩ := (h.mem_classFilesAmong_iff.1 hrelative).isFileName hfs
  exact Path.components_child root hne hnames

include hfs h in
/-- The paths of the class files are in strictly ascending order. -/
lemma Delivers.pairwise_paths :
    ((classFilesAmong found).map root.child).Pairwise fun a b => a.components < b.components := by
  have hdistinct : ((found.filter isClassFile).map Prod.fst).Nodup :=
    (List.filter_sublist.map Prod.fst).nodup h.once
  rw [List.pairwise_map]
  refine (Location.pairwise_mergeSort_precedes root hdistinct).imp_of_mem
    fun hnames hothers hlt => ?_
  rwa [h.components_child hfs root hnames, h.components_child hfs root hothers]

include hfs h in
/-- Paths that have been sent in any order are sorted into this order. -/
lemma Delivers.sortedPaths_eq {sent : List Path}
    (hsent : sent.Perm (Visiting.classPaths root found)) :
    sortedPaths sent = (classFilesAmong found).map root.child := by
  have hperm : (sortedPaths sent).Perm ((classFilesAmong found).map root.child) := by
    refine (List.mergeSort_perm _ _).trans (hsent.trans ?_)
    have hsame : Visiting.classPaths root found
        = ((found.filter isClassFile).map Prod.fst).map root.child := by
      rw [List.map_map]
      rfl
    rw [hsame]
    exact (List.mergeSort_perm _ _).symm.map root.child
  have hsorted : (sortedPaths sent).Pairwise fun a b => a.components ≤ b.components :=
    (List.pairwise_mergeSort Path.comesNoLater_trans Path.comesNoLater_total sent).imp
      of_decide_eq_true
  have htarget := (h.pairwise_paths hfs root).imp le_of_lt
  refine List.Perm.eq_of_pairwise (fun a b ha hb hab hba => ?_) hsorted htarget hperm
  -- paths of class files are told apart by their components
  obtain ⟨names, hnames, rfl⟩ := List.mem_map.1 (hperm.subset ha)
  obtain ⟨others, hothers, rfl⟩ := List.mem_map.1 hb
  have heq := le_antisymm hab hba
  rw [h.components_child hfs root hnames, h.components_child hfs root hothers] at heq
  rw [root.componentsBelow_injective heq]

end

/-- A scan does not depend on the schedule. Where a walk delivers each entry below a directory once,
and in whichever order the visitors are handed the entries and have their paths arrive, the sorted
paths are one and the same list, and every order is possible. The list consists of the paths of all
entries below the root, at any depth, that are no directories and whose names end in the ending of
class files with something before it, each of them once, in strictly ascending order of their
components. It is what a scan answers; only the root that is spelt as standard input is not
walked. -/
theorem scanClassFiles_of_schedule {fs : FileSystem} (hfs : fs.WellFormed) {root : Path}
    {location : Location} (hlocate : fs.locate root = .ok location)
    (hlocation : fs.get? location = some .directory) :
    ∃ relatives : List Location,
      (∀ relative, relative ∈ relatives ↔ IsClassFileAt fs location relative) ∧
      ((relatives.map root.child).Pairwise fun a b => a.components < b.components) ∧
      (∀ found, Delivers fs location found → ∀ sent, Visiting.Run root found sent →
        sortedPaths sent = relatives.map root.child) ∧
      (∀ found order, order.Perm found → Visiting.Run root found (Visiting.classPaths root order)) ∧
      (root.isStandardInput = false → Delivers fs location (delivered fs root location) ∧
        scanClassFiles fs root = .ok (relatives.map root.child)) := by
  have hbelow := hfs.delivers_below location
  refine ⟨classFilesAmong (fs.below location), fun relative => hbelow.mem_classFilesAmong_iff,
    hbelow.pairwise_paths hfs root, fun found hfound sent hrun => ?_,
    fun found order horder => Visiting.run_of_perm horder, fun hroot => ?_⟩
  · exact hbelow.sortedPaths_eq hfs root (hrun.perm.trans ((hfound.filter_perm hbelow).map _))
  · have hdelivered : delivered fs root location = fs.below location := by
      simp only [delivered, hroot, Bool.false_eq_true, if_false]
    refine ⟨hdelivered ▸ hbelow, ?_⟩
    simp only [scanClassFiles, hlocate, hlocation, hdelivered]

/-- A build with a directory and a link that are named like class files, and a file whose name is
nothing but the ending. -/
def mixedBuild : FileSystem :=
  ⟨[(["out"], .directory), (["out", "D.class"], .directory),
    (["out", "D.class", "E.class"], .file [1]), (["out", "L.class"], .link "a"),
    (["out", "a"], .directory), (["out", "a", "B.class"], .file [2]), (["out", "a-b"], .directory),
    (["out", "a-b", "C.class"], .file [3]), (["out", ".class"], .file [4])], []⟩

/-- The entries of this build are delivered in reverse order. Neither the directory nor the ending
is listed, but the class file in that directory and the link are, and `a` comes before `a-b`. -/
theorem sortedPaths_mixedBuild :
    Visiting.classPaths ⟨"./out/"⟩ (mixedBuild.below ["out"]).reverse
        = [⟨"./out/a-b/C.class"⟩, ⟨"./out/a/B.class"⟩, ⟨"./out/L.class"⟩,
          ⟨"./out/D.class/E.class"⟩] ∧
      sortedPaths [⟨"./out/a-b/C.class"⟩, ⟨"./out/a/B.class"⟩, ⟨"./out/L.class"⟩,
          ⟨"./out/D.class/E.class"⟩]
        = [⟨"./out/D.class/E.class"⟩, ⟨"./out/L.class"⟩, ⟨"./out/a/B.class"⟩,
          ⟨"./out/a-b/C.class"⟩] := by
  have hfs : mixedBuild.WellFormed := by
    decide +kernel
  have hlocate : mixedBuild.locate ⟨"./out/"⟩ = .ok ["out"] := by
    decide +kernel
  have hlocation : mixedBuild.get? ["out"] = some .directory := by
    decide
  have hsent : Visiting.classPaths ⟨"./out/"⟩ (mixedBuild.below ["out"]).reverse
      = [⟨"./out/a-b/C.class"⟩, ⟨"./out/a/B.class"⟩, ⟨"./out/L.class"⟩,
        ⟨"./out/D.class/E.class"⟩] := by
    decide +kernel
  have hbelow := hfs.delivers_below ["out"]
  have hdelivers : Delivers mixedBuild ["out"] (mixedBuild.below ["out"]).reverse :=
    ⟨by rw [List.map_reverse, List.nodup_reverse]; exact hbelow.once,
      fun relative entry h => hbelow.real relative entry (List.mem_reverse.1 h),
      fun relative entry hne h => List.mem_reverse.2 (hbelow.all relative entry hne h)⟩
  obtain ⟨relatives, -, -, hsorted, hrun, hscan⟩ := scanClassFiles_of_schedule hfs hlocate hlocation
  obtain ⟨-, hscan⟩ := hscan (by decide +kernel)
  have hordered : classFilesAmong (mixedBuild.below ["out"])
      = [["D.class", "E.class"], ["L.class"], ["a", "B.class"], ["a-b", "C.class"]] := by
    rw [classFilesAmong, List.mergeSort_of_pairwise (by decide +kernel)]
    decide +kernel
  have hdelivered : delivered mixedBuild ⟨"./out/"⟩ ["out"] = mixedBuild.below ["out"] := by
    decide +kernel
  simp only [scanClassFiles, hlocate, hlocation, hdelivered, hordered, Except.ok.injEq] at hscan
  refine ⟨hsent, ?_⟩
  rw [← hsent, hsorted _ hdelivers _ (hrun _ _ (.refl _)), ← hscan]
  decide +kernel

end EntryPoint
