import EntryPoint.Manifest.Record

/-!
# Folding by cutting

`foldLine` adds a header to its lines character by character. Here it is folded on the bytes of its
UTF-8 form: as long as more of them are left than a line may hold, a position goes back from that
limit to the nearest place between two characters, and what lies before it is a line.

Nothing in this shows that the loop ends, which it would not do if it cut nothing off, or that it
never cuts a character in two. The loop therefore has a number of turns, and it gives nothing if
they are used up or if a cut is refused.
-/

namespace EntryPoint.Manifest

end EntryPoint.Manifest
