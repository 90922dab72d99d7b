import EntryPoint.Selection
import Mathlib.Data.List.Basic
import Mathlib.Tactic.Common

/-!
# What is selected

Selection depends on the classes that carry the marker and on nothing else. `IsSelected` says what
it owes for each number of them, without reference to sorting: of several marked classes either all
names are reported, in order and as often as they occur, or the first class with the smallest name
is taken.
-/

namespace EntryPoint

open ClassFile (Summary)

/-- The answers that selection may give. -/
inductive IsSelected (options : SearchOptions) (classes : List Summary) :
    Except Failure Summary → Prop where
  /-- No class is marked. -/
  | unmarked (h : classes.filter (·.carries options.marker) = []) :
    IsSelected options classes (.error (.noEntryPoint options.marker classes.length))
  /-- One class is marked. -/
  | only {only : Summary} (h : classes.filter (·.carries options.marker) = [only]) :
    IsSelected options classes (.ok only)
  /-- Several classes are marked, and that is an error: their names are in order. -/
  | ambiguous {names : List String} (hpolicy : options.policy = .strict)
    (hseveral : 2 ≤ (classes.filter (·.carries options.marker)).length)
    (hnames : names.Perm ((classes.filter (·.carries options.marker)).map (·.className)))
    (hsorted : names.Pairwise (· ≤ ·)) :
    IsSelected options classes (.error (.ambiguous options.marker names))
  /-- Several classes are marked, and the first one with the smallest name is taken. -/
  | first {before after : List Summary} {first : Summary} (hpolicy : options.policy = .firstMatch)
    (hseveral : 2 ≤ (classes.filter (·.carries options.marker)).length)
    (h : classes.filter (·.carries options.marker) = before ++ first :: after)
    (hbefore : ∀ other ∈ before, first.className < other.className)
    (hafter : ∀ other ∈ after, first.className ≤ other.className) :
    IsSelected options classes (.ok first)

/-! ## Stable sorting -/

section
variable {α : Type} {le : α → α → Bool} (htrans : ∀ a b c, le a b → le b c → le a c)
  (htotal : ∀ a b, le a b || le b a)

include htrans htotal in
/-- Sorting leaves members in their order that are in order already. -/
lemma filter_mergeSort {l : List α} (p : α → Bool) (h : (l.filter p).Pairwise (le · ·)) :
    (l.mergeSort le).filter p = l.filter p := by
  have hsublist : (l.filter p).Sublist ((l.mergeSort le).filter p) := by
    have hsorted := List.sublist_mergeSort htrans htotal h List.filter_sublist
    simpa using hsorted.filter p
  have hlength : (l.filter p).length = ((l.mergeSort le).filter p).length :=
    ((List.mergeSort_perm l le).filter p).length_eq.symm
  exact (hsublist.eq_of_length hlength).symm

end

/-- Whether the name of a class comes no later than that of another one. -/
def namedNoLater (a b : Summary) : Bool :=
  decide (a.className ≤ b.className)

lemma namedNoLater_trans (a b c : Summary) (hab : namedNoLater a b) (hbc : namedNoLater b c) :
    namedNoLater a c := by
  rw [namedNoLater, decide_eq_true_eq] at *
  exact Std.le_trans hab hbc

lemma namedNoLater_total (a b : Summary) : namedNoLater a b || namedNoLater b a := by
  rw [Bool.or_eq_true, namedNoLater, namedNoLater, decide_eq_true_eq, decide_eq_true_eq]
  exact Std.le_total

/-- The marked classes are sorted by name. -/
lemma pairwise_markedClasses (marker : String) (classes : List Summary) :
    (markedClasses marker classes).Pairwise fun a b => a.className ≤ b.className := by
  have hsorted := List.pairwise_mergeSort namedNoLater_trans namedNoLater_total
    (classes.filter (·.carries marker))
  exact hsorted.imp fun h => by simpa [namedNoLater] using h

/-- The first of the marked classes in the order of their names comes before the others of its
name. -/
lemma exists_split_of_markedClasses {marker : String} {classes rest : List Summary}
    {first : Summary} (h : markedClasses marker classes = first :: rest) :
    ∃ before after, classes.filter (·.carries marker) = before ++ first :: after ∧
      (∀ other ∈ before, first.className < other.className) ∧
      ∀ other ∈ after, first.className ≤ other.className := by
  have hsorted := pairwise_markedClasses marker classes
  rw [h, List.pairwise_cons] at hsorted
  have hleast : ∀ other ∈ classes.filter (·.carries marker), first.className ≤ other.className := by
    intro other hother
    have hmem : other ∈ markedClasses marker classes := List.mem_mergeSort.2 hother
    rw [h] at hmem
    rcases List.mem_cons.1 hmem with rfl | hmem
    · exact Std.le_refl _
    · exact hsorted.1 other hmem
  have hnamesakes : (markedClasses marker classes).filter (·.className = first.className)
      = (classes.filter (·.carries marker)).filter (·.className = first.className) := by
    refine filter_mergeSort namedNoLater_trans namedNoLater_total _ ?_
    rw [List.pairwise_iff_forall_sublist]
    intro a b hab
    have ha := List.of_mem_filter (hab.subset (by simp) : a ∈ _)
    have hb := List.of_mem_filter (hab.subset (by simp) : b ∈ _)
    rw [decide_eq_true_eq] at ha hb
    have hsame : a.className = b.className := ha.trans hb.symm
    rw [namedNoLater, decide_eq_true_eq]
    exact hsame ▸ Std.le_refl _
  rw [h, List.filter_cons_of_pos (by simp)] at hnamesakes
  obtain ⟨before, after, hsplit, hbefore, -, -⟩ := List.filter_eq_cons_iff.1 hnamesakes.symm
  refine ⟨before, after, hsplit, fun other hother => ?_, fun other hother => ?_⟩
  · have hne : first.className ≠ other.className := by
      intro heq
      exact hbefore other hother (by simp [heq])
    exact Std.lt_of_le_of_ne (hleast other (by simp [hsplit, hother])) hne
  · exact hleast other (by simp [hsplit, hother])

/-- Selection gives what it owes. -/
theorem isSelected_selectEntryPoint (options : SearchOptions) (classes : List Summary) :
    IsSelected options classes (selectEntryPoint options classes) := by
  have hperm : (markedClasses options.marker classes).Perm
      (classes.filter (·.carries options.marker)) := List.mergeSort_perm _ _
  have hsorted := pairwise_markedClasses options.marker classes
  match hmarked : markedClasses options.marker classes with
  | [] =>
    rw [hmarked] at hperm
    simp only [selectEntryPoint, hmarked]
    exact .unmarked hperm.symm.eq_nil
  | [only] =>
    rw [hmarked] at hperm
    simp only [selectEntryPoint, hmarked]
    exact .only (List.perm_singleton.1 hperm.symm)
  | first :: second :: rest =>
    have hseveral : 2 ≤ (classes.filter (·.carries options.marker)).length := by
      rw [← hperm.length_eq, hmarked]
      simp
    cases hpolicy : options.policy with
    | strict =>
      simp only [selectEntryPoint, hmarked, hpolicy]
      rw [← hmarked]
      exact .ambiguous hpolicy hseveral (hperm.map _) (List.pairwise_map.2 hsorted)
    | firstMatch =>
      obtain ⟨before, after, hsplit, hbefore, hafter⟩ := exists_split_of_markedClasses hmarked
      simp only [selectEntryPoint, hmarked, hpolicy]
      exact .first hpolicy hseveral hsplit hbefore hafter

end EntryPoint
