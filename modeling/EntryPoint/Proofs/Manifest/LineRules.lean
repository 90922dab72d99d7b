import EntryPoint.Manifest.Record
import EntryPoint.Proofs.Manifest.Folding
import Mathlib.Data.String.Basic

/-!
# The lines of a folded header

A folded header is its text in chunks, of which all but the first stand behind one space.
`IsFolding` states the rules for them: no line is longer than the limit, and a line is broken off
only where the next character would exceed it.

`Folds` says the same along the recursion, with the room that is left in the current line in place
of the limit. A character that fits takes its bytes from the room, and one that does not fit starts
a chunk (`exists_folds`).
-/

namespace EntryPoint.Manifest

open String (utf8Len)

/-! ## Chunks -/

/-- Whether a text is folded into a first chunk, which has the given room, and further chunks. -/
inductive Folds : ℕ → List Char → List Char → List (List Char) → Prop where
  /-- What is left fits into the current line. -/
  | last {room : ℕ} {text : List Char} (hfits : utf8Len text ≤ room) : Folds room text text []
  /-- The line is broken before a character that does not fit into it. -/
  | broken {room : ℕ} {chunk rest next : List Char} {c : Char} {more : List (List Char)}
    (hfits : utf8Len chunk ≤ room) (hfull : room < utf8Len chunk + c.utf8Size)
    (h : Folds (maxLineBytes - 1) (c :: rest) next more) :
    Folds room (chunk ++ c :: rest) chunk (next :: more)

/-- A character that fits comes before the first chunk of what follows it. -/
lemma Folds.cons {room : ℕ} {text chunk : List Char} {more : List (List Char)} {c : Char}
    (hroom : c.utf8Size ≤ room) (h : Folds (room - c.utf8Size) text chunk more) :
    Folds room (c :: text) (c :: chunk) more := by
  cases h with
  | last hfits =>
    refine .last ?_
    rw [String.utf8Len_cons]
    omega
  | broken hfits hfull hmore =>
    rw [← List.cons_append]
    refine .broken ?_ ?_ hmore
    · rw [String.utf8Len_cons]
      omega
    · rw [String.utf8Len_cons]
      omega

/-- Where any character fits, the first chunk of a text starts like the text. -/
lemma Folds.exists_cons {room : ℕ} {c : Char} {text chunk : List Char} {more : List (List Char)}
    (h : Folds room (c :: text) chunk more) (hroom : 4 ≤ room) : ∃ tail, chunk = c :: tail := by
  generalize htext : c :: text = whole at h
  cases h with
  | last => exact ⟨text, htext.symm⟩
  | @broken _ _ _ _ d _ _ hfull =>
    rcases chunk with _ | ⟨first, tail⟩
    · have hsize := d.utf8Size_le_four
      rw [String.utf8Len_nil] at hfull
      omega
    · cases htext
      exact ⟨tail, rfl⟩

/-! ## The rules -/

/-- The lines of a header in chunks: all but the first start with a space. -/
def headerLines (first : List Char) (more : List (List Char)) : List (List Char) :=
  first :: more.map (' ' :: ·)

lemma Folds.whole {room : ℕ} {text chunk : List Char} {more : List (List Char)}
    (h : Folds room text chunk more) : chunk ++ more.flatten = text := by
  induction h with
  | last => simp
  | broken _ _ _ ih => rw [List.flatten_cons, ih]

lemma Folds.nonempty {room : ℕ} {text chunk : List Char} {more : List (List Char)}
    (h : Folds room text chunk more) : ∀ other ∈ more, other ≠ [] := by
  induction h with
  | last => simp
  | broken _ _ h ih =>
    obtain ⟨tail, rfl⟩ := h.exists_cons (by decide)
    exact List.forall_mem_cons.2 ⟨List.cons_ne_nil _ _, ih⟩

end EntryPoint.Manifest
