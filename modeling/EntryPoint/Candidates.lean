import EntryPoint.ByteSource.Basic
import EntryPoint.ClassFile.Summary
import EntryPoint.NameSet

/-!
# Reading the candidates

Every candidate is loaded and summarised on its own, one after the other or all at once. In both
cases the summaries come in the order of the candidates' names, and of several failures the one of
the smallest name is reported, whichever load finished first.
-/

namespace EntryPoint

/-- The summary of one candidate. -/
def loadCandidate (source : ByteSource) (className : String) :
    Except Failure ClassFile.Summary :=
  match source.read className with
  | .error failure => .error failure
  | .ok bytes =>
    match ClassFile.parse bytes.contents with
    | .ok summary => .ok summary
    | .error fault => .error (.malformed className bytes.origin fault)

/-- A load that has finished: the candidate's name and the outcome. -/
abbrev FinishedLoad := String × Except Failure ClassFile.Summary

/-- The summaries of finished loads in the order of the names, or the first failure in that
order. -/
def settle (finished : List FinishedLoad) : Except Failure (List ClassFile.Summary) :=
  (finished.mergeSort fun a b => decide (a.1 ≤ b.1)).mapM Prod.snd

/-- Loads all candidates at once and waits for every one. -/
def loadTogether (source : ByteSource) (names : List String) : List FinishedLoad :=
  (names.map fun name => Task.spawn fun _ => (name, loadCandidate source name)).map Task.get

/-- The summaries of all candidates. -/
def parseCandidates (source : ByteSource) (candidates : NameSet) (parallel : Bool) :
    Except Failure (List ClassFile.Summary) :=
  if parallel then
    settle (loadTogether source candidates.names)
  else
    candidates.names.mapM (loadCandidate source)

end EntryPoint
