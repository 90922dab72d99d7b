import EntryPoint.FileSystem.Basic

/-!
# Entries after a change

A list of pairs with distinct keys is a finite map. Putting or removing an entry changes what lies
at its own location and nothing else.
-/

namespace EntryPoint

section
variable {α β γ : Type} [BEq α] [LawfulBEq α] [BEq γ] [LawfulBEq γ] {pairs : List (α × β)} {a : α}
  {b : β}

/-- Where no two pairs share a key, each pair is looked up by its key. -/
theorem lookup_eq_some_iff_mem (h : (pairs.map Prod.fst).Nodup) :
    pairs.lookup a = some b ↔ (a, b) ∈ pairs := by
  induction pairs with
  | nil => simp
  | cons head tail ih =>
    obtain ⟨key, stored⟩ := head
    rw [List.map_cons, List.nodup_cons] at h
    by_cases hkey : a = key
    · subst hkey
      have habsent : (a, b) ∉ tail := fun hmem => h.1 (List.mem_map.2 ⟨(a, b), hmem, rfl⟩)
      simp [habsent, eq_comm]
    · have hne : (a == key) = false := by simpa using hkey
      simp [List.lookup_cons, hne, hkey, ih h.2]

/-- A key is looked up by its image where it shares that with no other key. -/
theorem lookup_map_key {f : α → γ} (h : ∀ pair ∈ pairs, f a = f pair.1 → a = pair.1) :
    (pairs.map fun pair => (f pair.1, pair.2)).lookup (f a) = pairs.lookup a := by
  induction pairs with
  | nil => rfl
  | cons head tail ih =>
    obtain ⟨key, stored⟩ := head
    have htail := ih fun pair hpair => h pair (List.mem_cons_of_mem _ hpair)
    by_cases hkey : a = key
    · simp [hkey]
    · have hne : (a == key) = false := by simpa using hkey
      have hne' : (f a == f key) = false := by
        simpa using fun heq => hkey (h (key, stored) List.mem_cons_self heq)
      simp only [List.map_cons, List.lookup_cons, hne, hne', htail]

end

namespace FileSystem

theorem lookup_filter_ne {location other : Location} (entries : List (Location × Entry))
    (h : other ≠ location) :
    (entries.filter fun (found, _) => decide (found ≠ location)).lookup other
      = entries.lookup other := by
  induction entries with
  | nil => rfl
  | cons head tail ih =>
    obtain ⟨found, entry⟩ := head
    by_cases hfound : found = location
    · subst hfound
      have hne : (other == found) = false := by simpa using h
      simpa [List.lookup_cons, hne] using ih
    · simp only [List.filter_cons, hfound, ne_eq, not_false_eq_true, decide_true, if_true,
        List.lookup_cons]
      cases other == found <;> simp_all

theorem lookup_filter_self {location : Location} (entries : List (Location × Entry)) :
    (entries.filter fun (found, _) => decide (found ≠ location)).lookup location = none := by
  rw [List.lookup_eq_none_iff]
  intro pair hpair
  simp only [List.mem_filter, ne_eq, decide_eq_true_eq] at hpair
  simpa using fun h => hpair.2 h.symm

@[simp] theorem get?_set_self (fs : FileSystem) {location : Location} (entry : Entry)
    (h : location ≠ []) : (fs.set location entry).get? location = some entry := by
  simp [get?, set, h]

theorem get?_set_of_ne (fs : FileSystem) {location other : Location} (entry : Entry)
    (h : other ≠ location) : (fs.set location entry).get? other = fs.get? other := by
  have hne : (other == location) = false := by simpa using h
  simp only [get?, set, List.lookup_cons, hne]
  rw [lookup_filter_ne fs.entries h]

@[simp] theorem get?_erase_self (fs : FileSystem) {location : Location} (h : location ≠ []) :
    (fs.erase location).get? location = none := by
  simp only [get?, erase, h, if_false]
  exact lookup_filter_self fs.entries

theorem get?_erase_of_ne (fs : FileSystem) {location other : Location} (h : other ≠ location) :
    (fs.erase location).get? other = fs.get? other := by
  simp only [get?, erase]
  rw [lookup_filter_ne fs.entries h]

/-- Of two entries that are put at a location, the second one counts. -/
theorem set_set (fs : FileSystem) (location : Location) (entry other : Entry) :
    (fs.set location entry).set location other = fs.set location other := by
  simp [set, List.filter_filter]

/-- Putting an entry where nothing lay and removing it again changes nothing. -/
theorem erase_set (fs : FileSystem) {location : Location} (entry : Entry)
    (h : fs.get? location = none) : (fs.set location entry).erase location = fs := by
  obtain ⟨entries, current⟩ := fs
  have hroot : location ≠ [] := by
    rintro rfl
    simp [get?] at h
  have habsent : ∀ pair ∈ entries, pair.1 ≠ location := by
    intro pair hpair heq
    simp only [get?, hroot, if_false, List.lookup_eq_none_iff] at h
    have := h pair hpair
    simp [heq] at this
  simpa [set, erase] using fun found lying hfound => habsent (found, lying) hfound

instance (name : String) : Decidable (IsFileName name) :=
  inferInstanceAs (Decidable (_ ∧ _ ∧ _ ∧ _))

/-- Whether a file system is well-formed can be told entry by entry. -/
theorem wellFormed_iff (fs : FileSystem) :
    fs.WellFormed ↔ (fs.entries.map Prod.fst).Nodup ∧
      (∀ pair ∈ fs.entries, pair.1 ≠ [] ∧ (∀ name ∈ pair.1, IsFileName name) ∧
        fs.get? pair.1.dropLast = some .directory) ∧
      fs.get? fs.currentDirectory = some .directory := by
  constructor
  · rintro ⟨hnodup, hroot, hnames, hparent, hcurrent⟩
    refine ⟨hnodup, fun pair hpair => ?_, hcurrent⟩
    exact ⟨hroot _ _ hpair, hnames _ _ hpair, hparent _ _ hpair⟩
  · rintro ⟨hnodup, hentries, hcurrent⟩
    refine ⟨hnodup, ?_, ?_, ?_, hcurrent⟩
    · exact fun location entry h => (hentries _ h).1
    · exact fun location entry h => (hentries _ h).2.1
    · exact fun location entry h => (hentries _ h).2.2

instance (fs : FileSystem) : Decidable fs.WellFormed :=
  decidable_of_iff _ (wellFormed_iff fs).symm

end FileSystem

end EntryPoint
