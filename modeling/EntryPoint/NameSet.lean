/-!
# Sets of names

A finite set of names is the list of its members in ascending order, each of them once. Hence two
sets with the same members are equal.
-/

namespace EntryPoint

/-- A finite set of names. -/
structure NameSet where
  /-- The members, in ascending order. -/
  names : List String
  ascending : names.Pairwise (· < ·)

/-- Puts a name in its place in an ascending list, unless it is there already. -/
def insertName (name : String) : List String → List String
  | [] => [name]
  | head :: tail =>
    if name < head then name :: head :: tail
    else if name = head then head :: tail
    else head :: insertName name tail

theorem mem_insertName {name other : String} {names : List String} :
    other ∈ insertName name names ↔ other = name ∨ other ∈ names := by
  induction names with
  | nil => simp [insertName]
  | cons head tail ih =>
    unfold insertName
    split
    · simp
    · split
      · rename_i h; subst h; simp
      · simp [ih]; grind

theorem pairwise_insertName {name : String} {names : List String}
    (h : names.Pairwise (· < ·)) : (insertName name names).Pairwise (· < ·) := by
  induction names with
  | nil => simp [insertName]
  | cons head tail ih =>
    rw [List.pairwise_cons] at h
    unfold insertName
    split
    · rename_i hlt
      refine List.pairwise_cons.2 ⟨fun other hother => ?_, List.pairwise_cons.2 h⟩
      rcases List.mem_cons.1 hother with rfl | hother
      · exact hlt
      · exact Std.lt_trans hlt (h.1 other hother)
    · split
      · exact List.pairwise_cons.2 h
      · rename_i hnlt hne
        refine List.pairwise_cons.2 ⟨fun other hother => ?_, ih h.2⟩
        rcases mem_insertName.1 hother with rfl | hother
        · exact Std.lt_of_le_of_ne (Std.not_lt.1 hnlt) (Ne.symm hne)
        · exact h.1 other hother

namespace NameSet

/-- The set without members. -/
def empty : NameSet :=
  ⟨[], .nil⟩

/-- Adds a name. -/
def insert (set : NameSet) (name : String) : NameSet :=
  ⟨insertName name set.names, pairwise_insertName set.ascending⟩

/-- The set of the names in a list. -/
def ofList (names : List String) : NameSet :=
  names.foldr (fun name set => set.insert name) empty

/-- The number of members. -/
def size (set : NameSet) : Nat :=
  set.names.length

/-- Sets with the same members are equal. -/
theorem eq_of_mem_iff {a b : NameSet} (h : ∀ name, name ∈ a.names ↔ name ∈ b.names) : a = b := by
  obtain ⟨names, hnames⟩ := a
  obtain ⟨others, hothers⟩ := b
  have hperm : names.Perm others :=
    (List.perm_ext_iff_of_nodup (hnames.imp Std.ne_of_lt) (hothers.imp Std.ne_of_lt)).2 h
  have hsame : names = others := by
    refine List.Perm.eq_of_pairwise (fun _ _ _ _ hab hba => ?_) hnames hothers hperm
    exact absurd (Std.lt_trans hab hba) Std.lt_irrefl
  subst hsame
  rfl

theorem mem_ofList {name : String} {names : List String} :
    name ∈ (ofList names).names ↔ name ∈ names := by
  induction names with
  | nil => simp [ofList, empty]
  | cons head tail ih =>
    change name ∈ insertName head (ofList tail).names ↔ name ∈ head :: tail
    rw [mem_insertName, ih, List.mem_cons]

end NameSet

end EntryPoint
