import EntryPoint.Candidates
import Mathlib.Data.List.Basic
import Mathlib.Tactic.Common

/-!
# What loading the candidates gives

Loading all candidates at once gives what loading them one after the other does, since the finished
loads are put in the order of the names first. Either way the outcome is one summary for each
candidate, or the failure of the first candidate that has one.
-/

namespace EntryPoint

open ClassFile (Summary)

/-- Results are collected in order up to the first failure. -/
theorem mapM_cases {α β ε : Type} (f : α → Except ε β) (xs : List α) :
    (∃ ys, xs.mapM f = .ok ys ∧ List.Forall₂ (fun x y => f x = .ok y) xs ys) ∨
    ∃ before x after failure, xs = before ++ x :: after ∧ (∀ y ∈ before, ∃ v, f y = .ok v) ∧
      f x = .error failure ∧ xs.mapM f = .error failure := by
  induction xs with
  | nil => exact Or.inl ⟨[], rfl, .nil⟩
  | cons x xs ih =>
    rw [List.mapM_cons]
    cases hx : f x with
    | error failure => exact Or.inr ⟨[], x, xs, failure, rfl, by simp, hx, rfl⟩
    | ok value =>
      rcases ih with ⟨ys, hmap, hys⟩ | ⟨before, bad, after, failure, hsplit, hbefore, hbad, hmap⟩
      · rw [hmap]
        exact Or.inl ⟨value :: ys, rfl, .cons hx hys⟩
      · rw [hmap, hsplit]
        refine Or.inr ⟨x :: before, bad, after, failure, rfl, ?_, hbad, rfl⟩
        exact List.forall_mem_cons.2 ⟨⟨value, hx⟩, hbefore⟩

/-- The results are those of the members if none fails. -/
lemma mapM_eq_ok_iff {α β ε : Type} {f : α → Except ε β} {xs : List α} {ys : List β} :
    xs.mapM f = .ok ys ↔ List.Forall₂ (fun x y => f x = .ok y) xs ys := by
  constructor
  · intro h
    rcases mapM_cases f xs with ⟨found, hmap, hfound⟩ | ⟨before, x, after, failure, -, -, -, hmap⟩
    · rw [hmap] at h
      cases h
      exact hfound
    · rw [hmap] at h
      cases h
  · intro h
    induction h with
    | nil => rfl
    | cons hx _ ih =>
      rw [List.mapM_cons, hx, ih]
      rfl

/-- The failure is that of the first member that fails. -/
lemma mapM_eq_error_iff {α β ε : Type} {f : α → Except ε β} {xs : List α} {failure : ε} :
    xs.mapM f = .error failure ↔ ∃ before x after, xs = before ++ x :: after ∧
      (∀ y ∈ before, ∃ v, f y = .ok v) ∧ f x = .error failure := by
  constructor
  · intro h
    rcases mapM_cases f xs with ⟨found, hmap, -⟩ | ⟨before, x, after, found, hxs, hbefore, hx, hmap⟩
    · rw [hmap] at h
      cases h
    · rw [hmap] at h
      cases h
      exact ⟨before, x, after, hxs, hbefore, hx⟩
  · rintro ⟨before, x, after, rfl, hbefore, hx⟩
    induction before with
    | nil =>
      rw [List.nil_append, List.mapM_cons, hx]
      rfl
    | cons y before ih =>
      obtain ⟨⟨v, hv⟩, hbefore⟩ := List.forall_mem_cons.1 hbefore
      rw [List.cons_append, List.mapM_cons, hv, ih hbefore]
      rfl

/-- Finished loads of names in ascending order are in order already. -/
lemma settle_of_ascending {names : List String} (h : names.Pairwise (· < ·))
    (load : String → Except Failure Summary) :
    settle (names.map fun name => (name, load name)) = names.mapM load := by
  have hsorted : (names.map fun name => (name, load name)).Pairwise
      fun a b => decide (a.1 ≤ b.1) = true := by
    rw [List.pairwise_map]
    exact h.imp fun hlt => decide_eq_true (Std.le_of_lt hlt)
  rw [settle, List.mergeSort_of_pairwise hsorted, List.mapM_map]
  rfl

/-- Whether the candidates are loaded all at once makes no difference. -/
theorem parseCandidates_eq_mapM (source : ByteSource) (candidates : NameSet) (parallel : Bool) :
    parseCandidates source candidates parallel
      = candidates.names.mapM (loadCandidate source) := by
  have htogether : loadTogether source candidates.names
      = candidates.names.map fun name => (name, loadCandidate source name) := by
    rw [loadTogether, List.map_map]
    rfl
  cases parallel with
  | true => rw [parseCandidates, if_pos rfl, htogether, settle_of_ascending candidates.ascending]
  | false => rw [parseCandidates, if_neg (by simp)]

/-- What loading a class gives whose bytes the source has. -/
lemma loadCandidate_of_find {source : ByteSource} {className : String} {bytes : ClassBytes}
    (h : source.find className = .ok (some bytes)) :
    loadCandidate source className =
      (ClassFile.parse bytes.contents).mapError (.malformed className bytes.origin) := by
  have hread : source.read className = .ok bytes := by
    rw [ByteSource.read, h]
  simp only [loadCandidate, hread]
  cases ClassFile.parse bytes.contents with
  | error fault => rfl
  | ok summary => rfl

end EntryPoint
