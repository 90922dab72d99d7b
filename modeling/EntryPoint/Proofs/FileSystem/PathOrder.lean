import EntryPoint.Proofs.FileSystem.Paths
import Mathlib.Data.List.Lex
import Mathlib.Data.Prod.Lex
import Mathlib.Data.Char

/-!
# The order of paths

Paths are compared component by component, not character by character: `a/B` comes before `a-b/C`,
since `a` comes before `a-b`, although a slash comes after a hyphen. Two paths below the same root
share their first components, so that they are in the order of the names that lead to them from the
root, however the root is spelt.
-/

namespace EntryPoint

namespace Path

/-! ## Components -/

/-- A component of a path. -/
inductive Component where
  /-- The root of the file system. -/
  | root
  /-- The current directory, spelt out. -/
  | here
  /-- The directory above. -/
  | parent
  | name (text : String)
  deriving DecidableEq

namespace Component

/-- The kind of a component and, among names, its characters. -/
def key : Component → Nat ×ₗ List Char
  | root => toLex (0, [])
  | here => toLex (1, [])
  | parent => toLex (2, [])
  | name text => toLex (3, text.toList)

lemma key_injective : Function.Injective key := by
  intro a b h
  cases a <;> cases b <;> simp_all [key, String.toList_inj]

/-- Names come after all other components, in the order of their texts. -/
instance : LinearOrder Component :=
  LinearOrder.lift' key key_injective

/-- Names are in the order of their texts. -/
lemma name_lt_name {a b : String} (h : a < b) : name a < name b :=
  Prod.Lex.toLex_lt_toLex.2 (Or.inr ⟨rfl, h⟩)

end Component

/-- The component that an anchor is, if it is spelt out. -/
def Anchor.components : Anchor → List Component
  | .root => [.root]
  | .here => [.here]
  | .free => []

/-- The component that a name along a path is. -/
def componentOf (name : String) : Component :=
  if name = ".." then .parent else .name name

/-- The components of a path. -/
def components (path : Path) : List Component :=
  path.anchor.components ++ path.names.map componentOf

/-- Whether a path does not come after another one. -/
def comesNoLater (a b : Path) : Bool :=
  decide (a.components ≤ b.components)

lemma comesNoLater_trans (a b c : Path) (hab : a.comesNoLater b = true)
    (hbc : b.comesNoLater c = true) : a.comesNoLater c = true := by
  simp only [comesNoLater, decide_eq_true_eq] at hab hbc ⊢
  exact hab.trans hbc

lemma comesNoLater_total (a b : Path) : (a.comesNoLater b || b.comesNoLater a) = true := by
  simp only [comesNoLater, Bool.or_eq_true, decide_eq_true_eq]
  exact le_total a.components b.components

/-! ## Below a root -/

/-- The components of what lies below a root are those of the root and the names that lead there. -/
theorem components_child (root : Path) {names : Location} (hne : names ≠ [])
    (hnames : ∀ name ∈ names, FileSystem.IsFileName name) :
    (root.child names).components = root.components ++ names.map .name := by
  have hanchored := anchored_child root hne hnames
  have hkept : names.filter (fun name => !isBlank name) = names := by
    rw [List.filter_eq_self]
    intro name hname
    rw [isBlank_eq_false (hnames name hname)]
    rfl
  have hchild : (root.child names).names = root.names ++ names := by
    rw [Path.names, body, hanchored, List.filter_append, filter_withoutTrailing, hkept]
    rfl
  have hplain : names.map componentOf = names.map .name := by
    refine List.map_congr_left fun name hname => ?_
    rw [componentOf, if_neg (hnames name hname).2.2.1]
  rw [components, hchild, anchor, hanchored, List.map_append, hplain, ← List.append_assoc]
  rfl

/-- The components of what lies below a root along given names. -/
def componentsBelow (root : Path) (names : Location) : List Component :=
  root.components ++ names.map .name

lemma componentsBelow_injective (root : Path) : Function.Injective root.componentsBelow := by
  intro names others h
  have hmap : names.map Component.name = others.map Component.name := List.append_cancel_left h
  exact List.map_injective_iff.2 (fun _ _ => Component.name.inj) hmap

lemma componentsBelow_lt_iff {root : Path} {names others : Location} :
    root.componentsBelow names < root.componentsBelow others ↔ names < others := by
  have hmono : ∀ {names others : Location}, names < others →
      root.componentsBelow names < root.componentsBelow others :=
    fun h => List.append_left_lt (List.map_lt (fun _ _ => Component.name_lt_name) h)
  refine ⟨fun h => ?_, hmono⟩
  rcases Std.lt_trichotomy names others with hlt | rfl | hgt
  · exact hlt
  · exact absurd h (lt_irrefl _)
  · exact absurd h (hmono hgt).not_gt

end Path

namespace Location

/-- Locations are in the order of their names. -/
lemma precedes_iff_not_lt {names others : Location} :
    names.precedes others = true ↔ ¬others < names := by
  induction names generalizing others with
  | nil => simp [precedes]
  | cons name names ih =>
    cases others with
    | nil => simp [precedes]
    | cons other others =>
      rw [precedes, Bool.or_eq_true, Bool.and_eq_true, decide_eq_true_eq, decide_eq_true_eq, ih,
        List.cons_lt_cons_iff, not_or, not_and]
      rcases Std.lt_trichotomy name other with hlt | rfl | hgt
      · simp [hlt, Std.not_lt.2 (Std.le_of_lt hlt), (Std.ne_of_lt hlt).symm]
      · simp
      · simp [hgt, Std.not_lt.2 (Std.le_of_lt hgt), (Std.ne_of_lt hgt).symm]

/-- Locations are in the order of the components of what lies there below any root. -/
lemma precedes_iff (root : Path) {names others : Location} :
    names.precedes others = true ↔ root.componentsBelow names ≤ root.componentsBelow others := by
  rw [precedes_iff_not_lt, ← Path.componentsBelow_lt_iff, not_lt]

/-- Distinct locations that are sorted lie in strictly ascending order below every root. -/
theorem pairwise_mergeSort_precedes (root : Path) {locations : List Location}
    (h : locations.Nodup) :
    (locations.mergeSort precedes).Pairwise fun names others =>
      root.componentsBelow names < root.componentsBelow others := by
  have hsorted : (locations.mergeSort precedes).Pairwise fun names others =>
      names.precedes others = true := by
    refine List.pairwise_mergeSort (fun a b c hab hbc => ?_) (fun a b => ?_) locations
    · rw [precedes_iff root] at hab hbc ⊢
      exact hab.trans hbc
    · rw [Bool.or_eq_true, precedes_iff root, precedes_iff root]
      exact le_total _ _
  have hdistinct : (locations.mergeSort precedes).Nodup := h.perm (List.mergeSort_perm _ _).symm
  refine (hsorted.and hdistinct).imp fun ⟨hle, hne⟩ => ?_
  exact lt_of_le_of_ne ((precedes_iff root).1 hle) fun heq =>
    hne (root.componentsBelow_injective heq)

end Location

end EntryPoint
