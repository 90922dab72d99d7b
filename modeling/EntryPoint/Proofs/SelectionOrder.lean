import EntryPoint.Proofs.Selection

/-!
# Selection does not depend on the order of the classes

What selection answers is told by the classes among whose annotations the marker is: none of them,
exactly one, or several, and then the policy decides. Reordering the classes reorders these. Names
that are reported are sorted, so that they stay the same, and a class that is taken has the least
name, so that at most another class of that name is taken instead (`SameAsideNamesakes`).
-/

namespace EntryPoint

open ClassFile (Summary)

/-- The classes that have a given descriptor among their annotations. -/
def annotatedWith (marker : String) (classes : List Summary) : List Summary :=
  classes.filter fun summary => decide (marker ∈ summary.annotations)

lemma filter_carries (marker : String) (classes : List Summary) :
    classes.filter (·.carries marker) = annotatedWith marker classes :=
  List.filter_congr fun summary _ => by
    rw [Summary.carries, List.contains_eq_mem]

/-- Whether two answers are the same, or are different marked classes of the same name. -/
inductive SameAsideNamesakes (marked : List Summary) :
    Except Failure Summary → Except Failure Summary → Prop where
  | same (answer : Except Failure Summary) : SameAsideNamesakes marked answer answer
  | namesakes {first other : Summary} (hfirst : first ∈ marked) (hother : other ∈ marked)
    (hne : first ≠ other) (hname : first.className = other.className) :
    SameAsideNamesakes marked (.ok first) (.ok other)

/-! ## The answer for each number of marked classes -/

variable {options : SearchOptions} {classes : List Summary}

lemma selectEntryPoint_of_unmarked (h : annotatedWith options.marker classes = []) :
    selectEntryPoint options classes = .error (.noEntryPoint options.marker classes.length) := by
  have hselected := isSelected_selectEntryPoint options classes
  generalize selectEntryPoint options classes = answer at hselected ⊢
  rw [← filter_carries] at h
  cases hselected with
  | unmarked => rfl
  | only honly => simp [h] at honly
  | ambiguous _ hseveral => simp [h] at hseveral
  | first _ hseveral => simp [h] at hseveral

lemma selectEntryPoint_of_only {only : Summary}
    (h : annotatedWith options.marker classes = [only]) :
    selectEntryPoint options classes = .ok only := by
  have hselected := isSelected_selectEntryPoint options classes
  generalize selectEntryPoint options classes = answer at hselected ⊢
  rw [← filter_carries] at h
  cases hselected with
  | unmarked hnone => simp [h] at hnone
  | only honly =>
    obtain rfl : only = _ := by simpa [h] using honly
    rfl
  | ambiguous _ hseveral => simp [h] at hseveral
  | first _ hseveral => simp [h] at hseveral

/-- The names of several marked classes are reported in order where that is the policy. -/
lemma selectEntryPoint_of_strict (hpolicy : options.policy = .strict)
    (hseveral : 2 ≤ (annotatedWith options.marker classes).length) :
    ∃ names, selectEntryPoint options classes = .error (.ambiguous options.marker names) ∧
      names.Perm ((annotatedWith options.marker classes).map (·.className)) ∧
      names.Pairwise (· ≤ ·) := by
  have hselected := isSelected_selectEntryPoint options classes
  generalize selectEntryPoint options classes = answer at hselected ⊢
  rw [← filter_carries] at hseveral ⊢
  cases hselected with
  | unmarked hnone => simp [hnone] at hseveral
  | only honly => simp [honly] at hseveral
  | ambiguous _ _ hnames hsorted => exact ⟨_, rfl, hnames, hsorted⟩
  | first hother =>
    rw [hpolicy] at hother
    cases hother

/-- The first of several marked classes with the least name is taken where that is the policy. -/
lemma selectEntryPoint_of_firstMatch (hpolicy : options.policy = .firstMatch)
    (hseveral : 2 ≤ (annotatedWith options.marker classes).length) :
    ∃ before first after, selectEntryPoint options classes = .ok first ∧
      annotatedWith options.marker classes = before ++ first :: after ∧
      (∀ other ∈ before, first.className < other.className) ∧
      ∀ other ∈ after, first.className ≤ other.className := by
  have hselected := isSelected_selectEntryPoint options classes
  generalize selectEntryPoint options classes = answer at hselected ⊢
  rw [← filter_carries] at hseveral ⊢
  cases hselected with
  | unmarked hnone => simp [hnone] at hseveral
  | only honly => simp [honly] at hseveral
  | ambiguous hother =>
    rw [hpolicy] at hother
    cases hother
  | first _ _ hsplit hbefore hafter => exact ⟨_, _, _, rfl, hsplit, hbefore, hafter⟩

/-- Where several classes are marked, a class is taken by the policy to take the first one, and it
has the least name. -/
lemma mem_and_least_of_firstMatch (hpolicy : options.policy = .firstMatch)
    (hseveral : 2 ≤ (annotatedWith options.marker classes).length) :
    ∃ first ∈ annotatedWith options.marker classes,
      selectEntryPoint options classes = .ok first ∧
      ∀ other ∈ annotatedWith options.marker classes, first.className ≤ other.className := by
  obtain ⟨before, first, after, hanswer, hsplit, hbefore, hafter⟩ :=
    selectEntryPoint_of_firstMatch hpolicy hseveral
  rw [hsplit]
  refine ⟨first, by simp, hanswer, fun other hother => ?_⟩
  rcases List.mem_append.1 hother with hother | hother
  · exact Std.le_of_lt (hbefore other hother)
  · rcases List.mem_cons.1 hother with rfl | hother
    · exact Std.le_refl _
    · exact hafter other hother

/-! ## Reordered classes -/

/-- Reordered classes give the same answer, or another marked class of the same name. -/
lemma sameAsideNamesakes_of_perm {reordered : List Summary} (h : reordered.Perm classes) :
    SameAsideNamesakes (annotatedWith options.marker classes)
      (selectEntryPoint options classes) (selectEntryPoint options reordered) := by
  have hperm : (annotatedWith options.marker reordered).Perm
      (annotatedWith options.marker classes) := h.filter _
  match hmarked : annotatedWith options.marker classes with
  | [] =>
    rw [hmarked] at hperm
    rw [selectEntryPoint_of_unmarked hmarked, selectEntryPoint_of_unmarked hperm.eq_nil,
      h.length_eq]
    exact .same _
  | [only] =>
    rw [hmarked] at hperm
    rw [selectEntryPoint_of_only hmarked,
      selectEntryPoint_of_only (List.perm_singleton.1 hperm)]
    exact .same _
  | _ :: _ :: _ =>
    have hseveral : 2 ≤ (annotatedWith options.marker classes).length := by simp [hmarked]
    have hseveral' : 2 ≤ (annotatedWith options.marker reordered).length :=
      hperm.length_eq ▸ hseveral
    rw [← hmarked]
    cases hpolicy : options.policy with
    | strict =>
      obtain ⟨names, hanswer, hnames, hsorted⟩ := selectEntryPoint_of_strict hpolicy hseveral
      obtain ⟨names', hanswer', hnames', hsorted'⟩ := selectEntryPoint_of_strict hpolicy hseveral'
      have hsame : names = names' :=
        List.Perm.eq_of_pairwise (fun _ _ _ _ hab hba => Std.le_antisymm hab hba) hsorted hsorted'
          (hnames.trans ((hperm.map _).symm.trans hnames'.symm))
      rw [hanswer, hanswer', hsame]
      exact .same _
    | firstMatch =>
      obtain ⟨first, hfirst, hanswer, hleast⟩ := mem_and_least_of_firstMatch hpolicy hseveral
      obtain ⟨other, hother, hanswer', hleast'⟩ := mem_and_least_of_firstMatch hpolicy hseveral'
      rw [hanswer, hanswer']
      by_cases hne : first = other
      · rw [hne]
        exact .same _
      · have hmem := hperm.mem_iff.1 hother
        exact .namesakes hfirst hmem hne
          (Std.le_antisymm (hleast other hmem) (hleast' first (hperm.mem_iff.2 hfirst)))

/-- A class that is selected although several marked ones are an error is the only marked one. -/
lemma annotatedWith_of_strict {entryPoint : Summary} (hpolicy : options.policy = .strict)
    (h : selectEntryPoint options classes = .ok entryPoint) :
    annotatedWith options.marker classes = [entryPoint] := by
  match hmarked : annotatedWith options.marker classes with
  | [] =>
    rw [selectEntryPoint_of_unmarked hmarked] at h
    cases h
  | [only] =>
    rw [selectEntryPoint_of_only hmarked] at h
    cases h
    rfl
  | _ :: _ :: _ =>
    have hseveral : 2 ≤ (annotatedWith options.marker classes).length := by
      simp [hmarked]
    obtain ⟨names, hanswer, -⟩ := selectEntryPoint_of_strict hpolicy hseveral
    rw [hanswer] at h
    cases h

/-- Selection answers by the marked classes. None of them is an error that counts all classes, and
only then is it one. A single one is taken. Of several, either the names are reported, in order and
as often as they occur, or the first class with the least name is taken. Reordered classes give the
same answer up to which of several marked classes of one name is taken, and what is taken where
several marked classes are an error is taken also where the first one is. -/
theorem selectEntryPoint_exact (options : SearchOptions) (classes : List Summary) :
    (selectEntryPoint options classes = .error (.noEntryPoint options.marker classes.length) ↔
        annotatedWith options.marker classes = []) ∧
      (∀ only, annotatedWith options.marker classes = [only] →
        selectEntryPoint options classes = .ok only) ∧
      (2 ≤ (annotatedWith options.marker classes).length →
        (options.policy = .strict →
          ∃ names, selectEntryPoint options classes = .error (.ambiguous options.marker names) ∧
            names.Perm ((annotatedWith options.marker classes).map (·.className)) ∧
            names.Pairwise (· ≤ ·)) ∧
        (options.policy = .firstMatch →
          ∃ before first after, selectEntryPoint options classes = .ok first ∧
            annotatedWith options.marker classes = before ++ first :: after ∧
            (∀ other ∈ before, first.className < other.className) ∧
            ∀ other ∈ after, first.className ≤ other.className)) ∧
      (∀ reordered : List Summary, reordered.Perm classes →
        SameAsideNamesakes (annotatedWith options.marker classes)
          (selectEntryPoint options classes) (selectEntryPoint options reordered)) ∧
      ∀ entryPoint, selectEntryPoint { options with policy := .strict } classes = .ok entryPoint →
        selectEntryPoint { options with policy := .firstMatch } classes = .ok entryPoint := by
  refine ⟨⟨fun h => ?_, selectEntryPoint_of_unmarked⟩, fun only => selectEntryPoint_of_only,
    fun hseveral => ⟨fun hpolicy => selectEntryPoint_of_strict hpolicy hseveral,
      fun hpolicy => selectEntryPoint_of_firstMatch hpolicy hseveral⟩,
    fun reordered => sameAsideNamesakes_of_perm, fun entryPoint h => ?_⟩
  · have hselected := isSelected_selectEntryPoint options classes
    rw [h] at hselected
    cases hselected with
    | unmarked hnone => rwa [filter_carries] at hnone
  · have hpolicy : { options with policy := .strict }.policy = SelectionPolicy.strict := rfl
    have honly := annotatedWith_of_strict hpolicy h
    exact selectEntryPoint_of_only honly

/-- Two marked classes of one name behind a marked class of a later name and one whose annotation
only resembles the marker. -/
def namesakeClasses : List Summary :=
  [⟨"b.Main", 52, 0, ["La/M;"]⟩, ⟨"a.Near", 52, 0, ["La/Ma;"]⟩, ⟨"a.Main", 52, 0, ["La/M;", "La/M;"]⟩,
    ⟨"a.Main", 61, 0, ["La/M;"]⟩]

/-- Selection among the classes above under either policy and in either order, and among the first
two of them. -/
theorem selectEntryPoint_exact_namesakes :
    2 ≤ (annotatedWith "La/M;" namesakeClasses).length ∧
      (∃ names, selectEntryPoint ⟨"La/M;", .strict, true⟩ namesakeClasses =
          .error (.ambiguous "La/M;" names) ∧
        names.Perm ["b.Main", "a.Main", "a.Main"] ∧ names.Pairwise (· ≤ ·)) ∧
      (∃ before first after, selectEntryPoint ⟨"La/M;", .firstMatch, true⟩ namesakeClasses =
          .ok first ∧
        annotatedWith "La/M;" namesakeClasses = before ++ first :: after ∧
        (∀ other ∈ before, first.className < other.className) ∧
        ∀ other ∈ after, first.className ≤ other.className) ∧
      SameAsideNamesakes (annotatedWith "La/M;" namesakeClasses)
        (selectEntryPoint ⟨"La/M;", .firstMatch, true⟩ namesakeClasses)
        (selectEntryPoint ⟨"La/M;", .firstMatch, true⟩ namesakeClasses.reverse) ∧
      selectEntryPoint ⟨"La/M;", .strict, true⟩ (namesakeClasses.take 2) =
        .ok ⟨"b.Main", 52, 0, ["La/M;"]⟩ ∧
      selectEntryPoint ⟨"La/M;", .firstMatch, true⟩ (namesakeClasses.take 2) =
        .ok ⟨"b.Main", 52, 0, ["La/M;"]⟩ := by
  have hseveral : 2 ≤ (annotatedWith "La/M;" namesakeClasses).length := by decide
  obtain ⟨-, -, hstrict, -, -⟩ := selectEntryPoint_exact ⟨"La/M;", .strict, true⟩ namesakeClasses
  obtain ⟨-, -, hfirst, horder, -⟩ :=
    selectEntryPoint_exact ⟨"La/M;", .firstMatch, true⟩ namesakeClasses
  obtain ⟨-, honly, -, -, hpolicies⟩ :=
    selectEntryPoint_exact ⟨"La/M;", .strict, true⟩ (namesakeClasses.take 2)
  have htaken := honly ⟨"b.Main", 52, 0, ["La/M;"]⟩ (by decide)
  exact ⟨hseveral, (hstrict hseveral).1 rfl, (hfirst hseveral).2 rfl,
    horder _ (List.reverse_perm _), htaken, hpolicies _ htaken⟩

end EntryPoint
