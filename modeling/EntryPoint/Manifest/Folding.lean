/-!
# Folding header lines

A line of a manifest holds at most 72 bytes, its ending aside. A longer header is broken at
character boundaries, as late as possible, and every line after the first starts with one space,
which is not part of the header.
-/

namespace EntryPoint.Manifest

/-- How many bytes a line may hold, its ending aside. -/
def maxLineBytes : Nat := 72

/-- The ending of a line. -/
def lineEnd : List Char := ['\r', '\n']

/-- A header that is being folded: what is written, latest character first, and how many more bytes
the current line may hold. -/
structure FoldedLine where
  written : List Char
  room : Nat

/-- The start of a header's first line. -/
def FoldedLine.start : FoldedLine :=
  ⟨[], maxLineBytes⟩

/-- Adds a character to the current line, or to a continuation line if it no longer fits. -/
def FoldedLine.push (line : FoldedLine) (c : Char) : FoldedLine :=
  if c.utf8Size ≤ line.room then
    ⟨c :: line.written, line.room - c.utf8Size⟩
  else
    ⟨c :: ' ' :: (lineEnd.reverse ++ line.written), maxLineBytes - 1 - c.utf8Size⟩

/-- A header in lines of at most `maxLineBytes` bytes, the last of them without its ending. -/
def foldLine (header : List Char) : List Char :=
  (header.foldl FoldedLine.push .start).written.reverse

/-- The characters without one carriage return at their end. -/
def withoutReturn (line : List Char) : List Char :=
  if line.getLast? = some '\r' then line.dropLast else line

/-- The headers of the main section, given those already found (the latest first) and the lines that
follow them. A line that starts with a space continues the header before it and counts for nothing
where there is none; an empty line ends the section. -/
def unfoldOnto : (found lines : List (List Char)) → List (List Char)
  | found, [] => found.reverse
  | found, line :: lines =>
    match withoutReturn line with
    | ' ' :: more =>
      match found with
      | last :: earlier => unfoldOnto ((last ++ more) :: earlier) lines
      | [] => unfoldOnto [] lines
    | [] => found.reverse
    | header => unfoldOnto (header :: found) lines

/-- The headers of the main section of a manifest. -/
def unfold (content : List Char) : List (List Char) :=
  unfoldOnto [] (content.splitOn '\n')

end EntryPoint.Manifest
