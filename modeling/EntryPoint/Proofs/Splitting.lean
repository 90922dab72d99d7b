import Mathlib.Data.List.Basic
import Mathlib.Data.List.Forall2
import Mathlib.Tactic.Common

/-!
# Texts in pieces

The lines of a manifest, the segments of a path and the names in a class name are the pieces between
separators. What is written for a text is often told piece by piece.
-/

namespace EntryPoint

/-- What a function gives for each piece is what it gives for all of them. -/
lemma forall₂_iff_map_eq {α β : Type} {R : α → β → Prop} {f : α → β} {xs : List α} {ys : List β}
    (h : ∀ x y, R x y ↔ f x = y) :
    List.Forall₂ R xs ys ↔ xs.map f = ys := by
  rw [← List.forall₂_eq_eq_eq, List.forall₂_map_left_iff]
  exact ⟨.imp fun x y => (h x y).1, .imp fun x y => (h x y).2⟩

/-- A piece between separators holds none of them, and nothing that the whole does not hold. -/
lemma mem_and_ne_of_mem_splitOn {α : Type} [DecidableEq α] {xs piece : List α} {separator x : α}
    (hpiece : piece ∈ xs.splitOn separator) (hx : x ∈ piece) : x ∈ xs ∧ x ≠ separator := by
  induction xs generalizing piece with
  | nil =>
    obtain rfl : piece = [] := by simpa using hpiece
    cases hx
  | cons y ys ih =>
    rw [List.splitOn_cons_eq_if_modifyHead] at hpiece
    split_ifs at hpiece with hy
    · rcases List.mem_cons.1 hpiece with rfl | hpiece
      · cases hx
      · obtain ⟨hmem, hne⟩ := ih hpiece hx
        exact ⟨List.mem_cons_of_mem y hmem, hne⟩
    · obtain ⟨head, pieces, hsplit⟩ :=
        List.exists_cons_of_ne_nil (List.splitOn_ne_nil separator ys)
      rw [hsplit, List.modifyHead_cons] at hpiece
      rw [hsplit] at ih
      rcases List.mem_cons.1 hpiece with rfl | hpiece
      · rcases List.mem_cons.1 hx with rfl | hx
        · exact ⟨List.mem_cons_self, by simpa using hy⟩
        · obtain ⟨hmem, hne⟩ := ih List.mem_cons_self hx
          exact ⟨List.mem_cons_of_mem y hmem, hne⟩
      · obtain ⟨hmem, hne⟩ := ih (List.mem_cons_of_mem head hpiece) hx
        exact ⟨List.mem_cons_of_mem y hmem, hne⟩

/-- Where a function on characters fixes the pieces between separators, it acts on the separators
alone. -/
lemma map_intercalate {f : Char → Char} (separator : Char) {pieces : List (List Char)}
    (hfix : ∀ piece ∈ pieces, ∀ c ∈ piece, f c = c) :
    ([separator].intercalate pieces).map f = [f separator].intercalate pieces := by
  induction pieces with
  | nil => rfl
  | cons piece pieces ih =>
    rw [List.forall_mem_cons] at hfix
    have hpiece : piece.map f = piece :=
      (List.map_congr_left hfix.1).trans (List.map_id' piece)
    by_cases hnil : pieces = []
    · subst hnil
      simpa using hpiece
    · rw [List.intercalate_cons_of_ne_nil hnil, List.intercalate_cons_of_ne_nil hnil,
        List.map_append, List.map_append, hpiece, ih hfix.2]
      rfl

end EntryPoint
