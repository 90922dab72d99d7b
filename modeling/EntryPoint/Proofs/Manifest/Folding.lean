import EntryPoint.Manifest.Folding
import EntryPoint.Proofs.Splitting

/-!
# Folded headers are read back

A folded header is a first chunk and continuation chunks, each of which starts a line with one
space (`exists_foldLine_eq`).  Unfolding joins the chunks of a header again, whatever the chunks
hold: a chunk may start with a space or end with a carriage return, since only one space and one
carriage return of each line count (`unfoldOnto_foldLine`).  In the other direction no unfolded
header holds a line feed, because headers are put together from the pieces between line feeds.
-/

namespace EntryPoint.Manifest

/-! ## The lines of a folded header -/

/-- A first chunk and continuation chunks in lines, the last of them without its ending. -/
def joinChunks (first : List Char) (chunks : List (List Char)) : List Char :=
  first ++ chunks.flatMap fun chunk => lineEnd ++ ' ' :: chunk

/-- One more character of a chunk that is the last one. -/
lemma joinChunks_concat_last (first : List Char) (chunks : List (List Char)) (last : List Char)
    (c : Char) :
    joinChunks first (chunks ++ [last]) ++ [c] = joinChunks first (chunks ++ [last ++ [c]]) := by
  simp [joinChunks]

/-- One more chunk that holds a single character. -/
lemma joinChunks_concat_new (first : List Char) (chunks : List (List Char)) (c : Char) :
    joinChunks first chunks ++ (lineEnd ++ [' ', c]) = joinChunks first (chunks ++ [[c]]) := by
  simp [joinChunks]

/-- What is written of a header while it is folded: chunks that hold what was read, of which the
first is empty only as long as nothing was read. -/
def FoldedLine.Holds (line : FoldedLine) (read : List Char) : Prop :=
  ∃ first chunks, read = first ++ chunks.flatten ∧ line.written.reverse = joinChunks first chunks ∧
    (first = [] → chunks = [] ∧ line.room = maxLineBytes)

/-- The written text after one more character. -/
lemma FoldedLine.written_push (line : FoldedLine) (c : Char) :
    (line.push c).written.reverse = line.written.reverse ++
      if c.utf8Size ≤ line.room then [c] else lineEnd ++ [' ', c] := by
  unfold FoldedLine.push
  split <;> simp

/-- Folding one more character keeps the chunks together. -/
lemma FoldedLine.Holds.push {line : FoldedLine} {read : List Char} (h : line.Holds read)
    (c : Char) :
    (line.push c).Holds (read ++ [c]) := by
  obtain ⟨first, chunks, rfl, hwritten, hempty⟩ := h
  have hsize : c.utf8Size ≤ maxLineBytes := Nat.le_trans c.utf8Size_le_four (by decide)
  by_cases hroom : c.utf8Size ≤ line.room
  · rcases List.eq_nil_or_concat chunks with rfl | ⟨chunks, last, rfl⟩
    · refine ⟨first ++ [c], [], by simp, ?_, by simp⟩
      rw [written_push, if_pos hroom, hwritten]
      simp [joinChunks]
    · have hfirst : first ≠ [] := fun hnil => by simpa using (hempty hnil).1
      rw [List.concat_eq_append] at hwritten ⊢
      refine ⟨first, chunks ++ [last ++ [c]], by simp, ?_, fun hnil => absurd hnil hfirst⟩
      rw [written_push, if_pos hroom, hwritten, joinChunks_concat_last]
  · -- a line that is still empty has room for every character
    have hfirst : first ≠ [] := fun hnil => hroom ((hempty hnil).2 ▸ hsize)
    refine ⟨first, chunks ++ [[c]], by simp, ?_, fun hnil => absurd hnil hfirst⟩
    rw [written_push, if_neg hroom, hwritten, joinChunks_concat_new]

/-- Folding all characters of a header keeps the chunks together. -/
lemma FoldedLine.Holds.foldl {line : FoldedLine} {read : List Char} (h : line.Holds read)
    (header : List Char) : (header.foldl FoldedLine.push line).Holds (read ++ header) := by
  induction header generalizing line read with
  | nil => simpa using h
  | cons c header ih => simpa using ih (h.push c)

/-- A folded header is a first chunk, which is not empty, and continuation chunks. -/
theorem exists_foldLine_eq {header : List Char} (h : header ≠ []) :
    ∃ first chunks, first ≠ [] ∧ header = first ++ chunks.flatten ∧
      foldLine header = joinChunks first chunks := by
  have hstart : FoldedLine.start.Holds [] := ⟨[], [], rfl, rfl, fun _ => ⟨rfl, rfl⟩⟩
  obtain ⟨first, chunks, hheader, hwritten, hempty⟩ := hstart.foldl header
  refine ⟨first, chunks, ?_, by simpa using hheader, hwritten⟩
  rintro rfl
  obtain ⟨rfl, -⟩ := hempty rfl
  exact h (by simpa using hheader)

/-! ## Joining the lines again -/

/-- The line feed that ends a line is split off, and the carriage return before it is dropped. -/
lemma unfoldOnto_line {line : List Char} (h : '\n' ∉ line) (found : List (List Char))
    (rest : List Char) :
    unfoldOnto found ((line ++ lineEnd ++ rest).splitOn '\n') =
      unfoldOnto found ((line ++ ['\r']) :: rest.splitOn '\n') := by
  have hreturn : '\n' ∉ line ++ ['\r'] := by
    simpa using h
  have hsplit : line ++ lineEnd ++ rest = (line ++ ['\r']) ++ '\n' :: rest := by
    simp [lineEnd]
  rw [hsplit, List.splitOn_append_cons_self_of_not_mem hreturn]

@[simp] lemma withoutReturn_concat (line : List Char) : withoutReturn (line ++ ['\r']) = line := by
  simp [withoutReturn]

/-- A line is a new header if, without its return, it is not empty and does not start with a
space. -/
lemma unfoldOnto_header {line first : List Char} (hline : withoutReturn line = first)
    (hne : first ≠ []) (hspace : first.head? ≠ some ' ') (found lines : List (List Char)) :
    unfoldOnto found (line :: lines) = unfoldOnto (first :: found) lines := by
  rw [unfoldOnto, hline]
  obtain ⟨c, cs, rfl⟩ := List.exists_cons_of_ne_nil hne
  have hc : c ≠ ' ' := by simpa using hspace
  split
  · rename_i heq
    cases heq
    exact absurd rfl hc
  · rename_i heq
    cases heq
  · rfl

/-- A line continues the header before it if, without its return, it starts with a space. -/
lemma unfoldOnto_more {line chunk : List Char} (hline : withoutReturn line = ' ' :: chunk)
    (last : List Char) (found lines : List (List Char)) :
    unfoldOnto (last :: found) (line :: lines) = unfoldOnto ((last ++ chunk) :: found) lines := by
  rw [unfoldOnto, hline]
  rfl

/-- A line ends the headers if, without its return, it is empty. -/
lemma unfoldOnto_empty {line : List Char} (hline : withoutReturn line = [])
    (found lines : List (List Char)) : unfoldOnto found (line :: lines) = found.reverse := by
  rw [unfoldOnto, hline]

/-- A line that starts with neither a space nor its end is a new header. -/
lemma unfoldOnto_first {first : List Char} (hline : '\n' ∉ first) (hne : first ≠ [])
    (hspace : first.head? ≠ some ' ') (found : List (List Char)) (rest : List Char) :
    unfoldOnto found ((first ++ lineEnd ++ rest).splitOn '\n') =
      unfoldOnto (first :: found) (rest.splitOn '\n') := by
  rw [unfoldOnto_line hline, unfoldOnto_header (withoutReturn_concat first) hne hspace]

/-- A line that starts with a space continues the header before it. -/
lemma unfoldOnto_continuation {chunk : List Char} (hline : '\n' ∉ chunk) (last : List Char)
    (found : List (List Char)) (rest : List Char) :
    unfoldOnto (last :: found) ((' ' :: chunk ++ lineEnd ++ rest).splitOn '\n') =
      unfoldOnto ((last ++ chunk) :: found) (rest.splitOn '\n') := by
  have hspace : '\n' ∉ ' ' :: chunk := by
    simpa using hline
  rw [unfoldOnto_line hspace, unfoldOnto_more (withoutReturn_concat (' ' :: chunk))]

/-- Continuation lines are joined to the header before them one after the other. -/
lemma unfoldOnto_chunks {chunks : List (List Char)} (hlines : ∀ chunk ∈ chunks, '\n' ∉ chunk)
    (last : List Char) (found : List (List Char)) (rest : List Char) :
    unfoldOnto (last :: found)
        ((chunks.flatMap (fun chunk => ' ' :: chunk ++ lineEnd) ++ rest).splitOn '\n') =
      unfoldOnto ((last ++ chunks.flatten) :: found) (rest.splitOn '\n') := by
  induction chunks generalizing last with
  | nil => simp
  | cons chunk chunks ih =>
    rw [List.forall_mem_cons] at hlines
    rw [List.flatMap_cons, List.append_assoc, unfoldOnto_continuation hlines.1, ih hlines.2,
      List.flatten_cons, List.append_assoc]

/-- The line ends stand behind the chunks as well as before all but the first. -/
lemma joinChunks_lineEnd (first : List Char) (chunks : List (List Char)) :
    joinChunks first chunks ++ lineEnd =
      first ++ lineEnd ++ chunks.flatMap fun chunk => ' ' :: chunk ++ lineEnd := by
  induction chunks generalizing first with
  | nil => simp [joinChunks]
  | cons chunk chunks ih =>
    have hchunk := ih (first ++ lineEnd ++ ' ' :: chunk)
    simpa [joinChunks] using hchunk

/-- A folded header without a line feed, which does not start with a space, is unfolded again. -/
theorem unfoldOnto_foldLine {header : List Char} (hne : header ≠ []) (hline : '\n' ∉ header)
    (hspace : header.head? ≠ some ' ') (found : List (List Char)) (rest : List Char) :
    unfoldOnto found ((foldLine header ++ lineEnd ++ rest).splitOn '\n') =
      unfoldOnto (header :: found) (rest.splitOn '\n') := by
  obtain ⟨first, chunks, hfirst, rfl, hfold⟩ := exists_foldLine_eq hne
  have hheads : (first ++ chunks.flatten).head? = first.head? := by
    obtain ⟨c, cs, rfl⟩ := List.exists_cons_of_ne_nil hfirst
    rfl
  rw [hheads] at hspace
  rw [List.mem_append, not_or, List.mem_flatten, not_exists] at hline
  have hchunks : ∀ chunk ∈ chunks, '\n' ∉ chunk := fun chunk hmem h => hline.2 chunk ⟨hmem, h⟩
  rw [hfold, joinChunks_lineEnd, List.append_assoc, unfoldOnto_first hline.1 hfirst hspace,
    unfoldOnto_chunks hchunks]

/-- An empty line ends the headers. -/
lemma unfoldOnto_blank (found : List (List Char)) :
    unfoldOnto found (lineEnd.splitOn '\n') = found.reverse := by
  have hsplit : lineEnd.splitOn '\n' = [[] ++ ['\r'], []] := by
    decide
  rw [hsplit, unfoldOnto_empty (withoutReturn_concat [])]

/-! ## Headers without line feeds -/

lemma not_mem_withoutReturn {line : List Char} {c : Char} (h : c ∉ line) :
    c ∉ withoutReturn line := by
  unfold withoutReturn
  split
  · exact fun hmem => h ((List.dropLast_sublist line).subset hmem)
  · exact h

/-- No header that is unfolded from lines without line feeds holds one. -/
lemma not_mem_of_mem_unfoldOnto {found lines : List (List Char)}
    (hfound : ∀ header ∈ found, '\n' ∉ header) (hlines : ∀ line ∈ lines, '\n' ∉ line) :
    ∀ header ∈ unfoldOnto found lines, '\n' ∉ header := by
  induction lines generalizing found with
  | nil => simpa [unfoldOnto] using hfound
  | cons line lines ih =>
    rw [List.forall_mem_cons] at hlines
    have hline := not_mem_withoutReturn hlines.1
    rw [unfoldOnto]
    split
    · rename_i more hmore
      have hmoreline : '\n' ∉ more := by
        rw [hmore] at hline
        exact fun hmem => hline (List.mem_cons_of_mem _ hmem)
      cases found with
      | nil => exact ih (by simp) hlines.2
      | cons last earlier =>
        rw [List.forall_mem_cons] at hfound
        refine ih (List.forall_mem_cons.2 ⟨?_, hfound.2⟩) hlines.2
        rw [List.mem_append, not_or]
        exact ⟨hfound.1, hmoreline⟩
    · simpa using hfound
    · exact ih (List.forall_mem_cons.2 ⟨hline, hfound⟩) hlines.2

/-- No header of a manifest holds a line feed. -/
theorem not_mem_of_mem_unfold {content header : List Char} (h : header ∈ unfold content) :
    '\n' ∉ header :=
  not_mem_of_mem_unfoldOnto (by simp)
    (fun _ hline hmem => (mem_and_ne_of_mem_splitOn hline hmem).2 rfl) header h

end EntryPoint.Manifest
