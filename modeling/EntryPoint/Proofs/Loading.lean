import EntryPoint.Proofs.Candidates
import EntryPoint.Proofs.TextOrder
import Mathlib.Logic.Relation

/-!
# Loads that finish in any order

Candidates that are loaded at once start and finish as the scheduler has it. `Loading.Step` is one
move of a scheduler that may pick any candidate. Every complete run has the same loads, up to their
order, and settling puts them into the order of the names, so that the time at which a load finishes
decides nothing. What comes out is told by `IsLoaded` and `FailsToLoad`, which say what becomes of
one candidate by itself.
-/

namespace EntryPoint

open ClassFile (Summary)

/-- A candidate whose bytes the source has and whose bytes are a class file. -/
def IsLoaded (source : ByteSource) (name : String) (summary : Summary) : Prop :=
  ∃ bytes, source.find name = .ok (some bytes) ∧ ClassFile.parse bytes.contents = .ok summary

/-- The ways in which one candidate fails. -/
inductive FailsToLoad (source : ByteSource) (name : String) : Failure → Prop where
  /-- The source fails, for a reason of its own. -/
  | source {failure : Failure} (h : source.find name = .error failure) :
    FailsToLoad source name failure
  /-- The source has no such class. -/
  | missing (h : source.find name = .ok none) : FailsToLoad source name (.classNotFound name)
  /-- The bytes that the source has are no class file. -/
  | malformed {bytes : ClassBytes} {fault : ClassFile.Fault}
    (hfind : source.find name = .ok (some bytes))
    (hparse : ClassFile.parse bytes.contents = .error fault) :
    FailsToLoad source name (.malformed name bytes.origin fault)

/-! ## One candidate -/

/-- Loading gives the summary of a class file that the source has. -/
lemma loadCandidate_eq_ok_iff {source : ByteSource} {name : String} {summary : Summary} :
    loadCandidate source name = .ok summary ↔ IsLoaded source name summary := by
  constructor
  · intro h
    cases hfind : source.find name with
    | error failure => simp [loadCandidate, ByteSource.read, hfind] at h
    | ok found =>
      cases found with
      | none => simp [loadCandidate, ByteSource.read, hfind] at h
      | some bytes =>
        rw [loadCandidate_of_find hfind] at h
        cases hparse : ClassFile.parse bytes.contents with
        | error fault => simp [hparse, Except.mapError] at h
        | ok parsed =>
          rw [hparse] at h
          cases h
          exact ⟨bytes, hfind, hparse⟩
  · rintro ⟨bytes, hfind, hparse⟩
    rw [loadCandidate_of_find hfind, hparse]
    rfl

/-- Loading fails in one of the three ways. -/
lemma loadCandidate_eq_error_iff {source : ByteSource} {name : String} {failure : Failure} :
    loadCandidate source name = .error failure ↔ FailsToLoad source name failure := by
  constructor
  · intro h
    cases hfind : source.find name with
    | error cause =>
      obtain rfl : cause = failure := by
        simpa [loadCandidate, ByteSource.read, hfind] using h
      exact .source hfind
    | ok found =>
      cases found with
      | none =>
        obtain rfl : Failure.classNotFound name = failure := by
          simpa [loadCandidate, ByteSource.read, hfind] using h
        exact .missing hfind
      | some bytes =>
        rw [loadCandidate_of_find hfind] at h
        cases hparse : ClassFile.parse bytes.contents with
        | error fault =>
          rw [hparse] at h
          cases h
          exact .malformed hfind hparse
        | ok parsed => simp [hparse, Except.mapError] at h
  · rintro (hfind | hfind | ⟨hfind, hparse⟩)
    · simp [loadCandidate, ByteSource.read, hfind]
    · simp [loadCandidate, ByteSource.read, hfind]
    · rw [loadCandidate_of_find hfind, hparse]
      rfl

/-! ## Schedules -/

/-- How far the loads of the candidates have come. -/
structure Loading where
  /-- The candidates whose loads have not started. -/
  waiting : List String
  /-- The candidates that are being loaded. -/
  running : List String
  /-- The loads that have finished, in the order in which they did. -/
  finished : List FinishedLoad

namespace Loading

/-- The load of a candidate, once it has finished. -/
def loadOf (source : ByteSource) (name : String) : FinishedLoad :=
  (name, loadCandidate source name)

/-- A move of the scheduler: the load of any candidate that waits starts, or any load that is
running finishes. -/
inductive Step (source : ByteSource) : Loading → Loading → Prop where
  | start (before : List String) (name : String) (after running : List String)
    (finished : List FinishedLoad) :
    Step source ⟨before ++ name :: after, running, finished⟩
      ⟨before ++ after, name :: running, finished⟩
  | finish (waiting before : List String) (name : String) (after : List String)
    (finished : List FinishedLoad) :
    Step source ⟨waiting, before ++ name :: after, finished⟩
      ⟨waiting, before ++ after, finished ++ [loadOf source name]⟩

/-- The loads that will have finished in the end. -/
def loads (source : ByteSource) (state : Loading) : List FinishedLoad :=
  state.finished ++ (state.running ++ state.waiting).map (loadOf source)

variable {source : ByteSource}

/-- A move changes the order of the loads only. -/
lemma Step.loads_perm {state next : Loading} (h : Step source state next) :
    (next.loads source).Perm (state.loads source) := by
  cases h with
  | start before name after running finished =>
    have hmoved : (name :: (running ++ (before ++ after))).Perm
        (running ++ (before ++ name :: after)) :=
      List.perm_middle.symm.trans (List.perm_middle.symm.append_left running)
    exact (hmoved.map _).append_left finished
  | finish waiting before name after finished =>
    have hmoved : (loadOf source name :: (before ++ after ++ waiting).map (loadOf source)).Perm
        ((before ++ name :: after ++ waiting).map (loadOf source)) := by
      rw [List.append_assoc, List.append_assoc]
      exact List.perm_middle.symm.map (loadOf source)
    simpa [loads] using hmoved.append_left finished

/-- A run of the scheduler changes the order of the loads only. -/
lemma loads_perm {state last : Loading} (h : Relation.ReflTransGen (Step source) state last) :
    (last.loads source).Perm (state.loads source) := by
  induction h with
  | refl => exact .refl _
  | tail _ hstep ih => exact hstep.loads_perm.trans ih

/-- The candidates that wait can be loaded one by one in any order. -/
lemma exists_run {order waiting : List String} (h : order.Perm waiting)
    (finished : List FinishedLoad) :
    Relation.ReflTransGen (Step source) ⟨waiting, [], finished⟩
      ⟨[], [], finished ++ order.map (loadOf source)⟩ := by
  induction order generalizing waiting finished with
  | nil =>
    obtain rfl := h.nil_eq
    rw [List.map_nil, List.append_nil]
  | cons name order ih =>
    obtain ⟨before, after, rfl⟩ := List.append_of_mem (h.subset List.mem_cons_self)
    have hrest : order.Perm (before ++ after) := (h.trans List.perm_middle).cons_inv
    have hrun := ih hrest (finished ++ [loadOf source name])
    rw [List.append_assoc, List.singleton_append, ← List.map_cons] at hrun
    exact .head (.start before name after [] finished)
      (.head (.finish (before ++ after) [] name [] finished) hrun)

/-- The loads of a set of candidates finish in any order, and nothing else can happen. -/
lemma run_iff_perm {names : List String} {finished : List FinishedLoad} :
    Relation.ReflTransGen (Step source) ⟨names, [], []⟩ ⟨[], [], finished⟩ ↔
      finished.Perm (names.map (loadOf source)) := by
  constructor
  · intro h
    simpa [loads] using loads_perm h
  · intro h
    have horder : (finished.map Prod.fst).Perm names := by
      simpa [Function.comp_def, loadOf] using h.map Prod.fst
    have hloads : (finished.map Prod.fst).map (loadOf source) = finished := by
      rw [List.map_map]
      refine (List.map_congr_left fun load hload => ?_).trans (List.map_id finished)
      obtain ⟨name, -, rfl⟩ := List.mem_map.1 (h.subset hload)
      rfl
    rw [← hloads]
    exact exists_run horder []

end Loading

/-! ## Settling -/

/-- Settling gives the results in the order of the names, whichever load finished first. -/
lemma settle_of_perm {names : List String} (hnames : names.Pairwise (· < ·))
    {source : ByteSource} {finished : List FinishedLoad}
    (h : finished.Perm (names.map (Loading.loadOf source))) :
    settle finished = names.mapM (loadCandidate source) := by
  have htrans : ∀ a b c : FinishedLoad, decide (a.1 ≤ b.1) = true → decide (b.1 ≤ c.1) = true →
      decide (a.1 ≤ c.1) = true := by
    simp only [decide_eq_true_eq]
    exact fun a b c => Std.le_trans
  have htotal : ∀ a b : FinishedLoad, (decide (a.1 ≤ b.1) || decide (b.1 ≤ a.1)) = true := by
    simp only [Bool.or_eq_true, decide_eq_true_eq]
    exact fun a b => Std.le_total
  -- Loads with the same name are the same load, so that there is one way to sort them.
  have hsame : ∀ a b : FinishedLoad, a ∈ names.map (Loading.loadOf source) →
      b ∈ names.map (Loading.loadOf source) → a.1 ≤ b.1 → b.1 ≤ a.1 → a = b := by
    intro a b ha hb hab hba
    obtain ⟨name, -, rfl⟩ := List.mem_map.1 ha
    obtain ⟨other, -, rfl⟩ := List.mem_map.1 hb
    have hname : name = other := Std.le_antisymm hab hba
    rw [hname]
  have hsort : finished.mergeSort (fun a b => decide (a.1 ≤ b.1))
      = (names.map (Loading.loadOf source)).mergeSort (fun a b => decide (a.1 ≤ b.1)) := by
    have hsorted : ∀ loads : List FinishedLoad,
        (loads.mergeSort fun a b => decide (a.1 ≤ b.1)).Pairwise fun a b => a.1 ≤ b.1 :=
      fun loads => (List.pairwise_mergeSort htrans htotal loads).imp of_decide_eq_true
    refine List.Perm.eq_of_pairwise (fun a b ha hb => ?_) (hsorted _) (hsorted _) ?_
    · exact hsame a b (h.subset (List.mem_mergeSort.1 ha)) (List.mem_mergeSort.1 hb)
    · exact (List.mergeSort_perm _ _).trans (h.trans (List.mergeSort_perm _ _).symm)
  rw [settle, hsort]
  exact settle_of_ascending hnames (loadCandidate source)

/-! ## All candidates -/

/-- Loading all candidates in ascending order fails exactly if one of them fails, and then with the
failure of the smallest such name. -/
lemma mapM_loadCandidate_eq_error_iff {source : ByteSource} {names : List String}
    (h : names.Pairwise (· < ·)) {failure : Failure} :
    names.mapM (loadCandidate source) = .error failure ↔
      ∃ name ∈ names, FailsToLoad source name failure ∧
        ∀ other ∈ names, other < name → ∃ summary, IsLoaded source other summary := by
  simp only [mapM_eq_error_iff, loadCandidate_eq_ok_iff, loadCandidate_eq_error_iff]
  constructor
  · rintro ⟨before, name, after, rfl, hbefore, hname⟩
    refine ⟨name, by simp, hname, fun other hother hlt => ?_⟩
    rcases List.mem_append.1 hother with hother | hother
    · exact hbefore other hother
    · have hlater : ∀ later ∈ after, name < later :=
        (List.pairwise_cons.1 (List.pairwise_append.1 h).2.1).1
      rcases List.mem_cons.1 hother with rfl | hother
      · exact absurd hlt Std.lt_irrefl
      · exact absurd (Std.lt_trans hlt (hlater other hother)) Std.lt_irrefl
  · rintro ⟨name, hmem, hname, hsmaller⟩
    obtain ⟨before, after, rfl⟩ := List.append_of_mem hmem
    have hearlier : ∀ other ∈ before, other < name := fun other hother =>
      (List.pairwise_append.1 h).2.2 other hother name List.mem_cons_self
    exact ⟨before, name, after, rfl, fun other hother =>
      hsmaller other (by simp [hother]) (hearlier other hother), hname⟩

/-- The candidates are loaded in any order, and the outcome is one and the same. If the loads of all
candidates have finished, in whichever order they started and finished, then settling them gives
what reading the candidates gives, all at once or one after the other; and every order is possible.
The outcome is one summary for each candidate, in the order of the bytes of their names, exactly if
each candidate is found and is a class file. Otherwise it is the failure of the smallest name among
the candidates that fail, whatever becomes of the larger ones. -/
theorem parseCandidates_of_schedule (source : ByteSource) (candidates : NameSet) :
    (∀ finished, Relation.ReflTransGen (Loading.Step source) ⟨candidates.names, [], []⟩
        ⟨[], [], finished⟩ →
      ∀ parallel, settle finished = parseCandidates source candidates parallel) ∧
    (∀ order : List String, order.Perm candidates.names →
      Relation.ReflTransGen (Loading.Step source) ⟨candidates.names, [], []⟩
        ⟨[], [], order.map (Loading.loadOf source)⟩) ∧
    (candidates.names.Pairwise fun a b => Bytes.ofText a < Bytes.ofText b) ∧
    (∀ parallel classes, parseCandidates source candidates parallel = .ok classes ↔
      List.Forall₂ (IsLoaded source) candidates.names classes) ∧
    ∀ parallel failure, parseCandidates source candidates parallel = .error failure ↔
      ∃ name ∈ candidates.names, FailsToLoad source name failure ∧
        ∀ other ∈ candidates.names, Bytes.ofText other < Bytes.ofText name →
          ∃ summary, IsLoaded source other summary := by
  refine ⟨?_, ?_, ?_, ?_, ?_⟩
  · intro finished hrun parallel
    rw [parseCandidates_eq_mapM]
    exact settle_of_perm candidates.ascending (Loading.run_iff_perm.1 hrun)
  · intro order horder
    exact Loading.run_iff_perm.2 (horder.map _)
  · exact candidates.ascending.imp ofText_lt_ofText_iff.2
  · intro parallel classes
    simp only [parseCandidates_eq_mapM, mapM_eq_ok_iff, loadCandidate_eq_ok_iff]
  · intro parallel failure
    simp only [parseCandidates_eq_mapM, ofText_lt_ofText_iff]
    exact mapM_loadCandidate_eq_error_iff candidates.ascending

/-- Three loads that all fail finish in the reverse order of the names. The failure reported is that
of the smallest name, which finished last. -/
theorem settle_reversed :
    settle (["C", "B", "A"].map (Loading.loadOf (.ofMemory [("B", []), ("C", [0, 0, 0, 0])])))
      = .error (.classNotFound "A") := by
  obtain ⟨hsettle, hrun, -⟩ := parseCandidates_of_schedule
    (.ofMemory [("B", []), ("C", [0, 0, 0, 0])]) (NameSet.ofList ["A", "B", "C"])
  rw [hsettle _ (hrun ["C", "B", "A"] (by decide +kernel)) false]
  decide +kernel

end EntryPoint
