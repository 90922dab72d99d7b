import EntryPoint.Proofs.Emission
import EntryPoint.Proofs.Loading
import EntryPoint.Proofs.Ownership

/-!
# Who is nominated

A filter on packages decides which names are looked up, but the name that is nominated is the one
that the class file declares. Hence the filter allows the nominee, whatever it excludes, exactly if
each search ends with a class whose declared name lies in no other packages than the name under
which it was found. A search is not affected by what else is excluded, as long as the class that it
ends with is still looked up (`exists_resolve_of_stricter`), so that any package in which only the
declared name lies can be excluded without stopping the nomination.
-/

namespace EntryPoint

open ClassFile (Summary)

/-! ## Packages -/

namespace OwnershipFilter

/-- Of the filters that can be built, some filter excludes one more package than a given one. -/
lemma exists_excluding (framework : String) (packages : List String) (package : String) :
    ∃ framework' packages', ∀ name, (ofPackages framework' packages').allows name = true ↔
      (ofPackages framework packages).allows name = true ∧ inPackage package name = false := by
  -- An empty name can be excluded in the place of the framework only.
  have hmembers : ∃ framework' packages', ∀ other,
      other ∈ (ofPackages framework' packages').excluded ↔
        other ∈ (ofPackages framework packages).excluded ∨ other = package := by
    by_cases hempty : package = ""
    · refine ⟨"", framework :: packages, fun other => ?_⟩
      rw [mem_excluded_ofPackages_iff, mem_excluded_ofPackages_iff, List.mem_cons]
      by_cases hother : other = "" <;> grind
    · refine ⟨framework, packages ++ [package], fun other => ?_⟩
      rw [mem_excluded_ofPackages_iff, mem_excluded_ofPackages_iff, List.mem_append,
        List.mem_singleton]
      grind
  obtain ⟨framework', packages', hmembers⟩ := hmembers
  refine ⟨framework', packages', fun name => ?_⟩
  simp only [allows_iff, hmembers, or_imp, forall_and, forall_eq]

end OwnershipFilter

/-! ## Selection among fewer classes -/

/-- What is selected is marked, has the smallest declared name of all marked classes, and is the
only one of them unless the policy is to take the first. -/
lemma marked_and_least_of_selectEntryPoint {options : SearchOptions} {classes : List Summary}
    {entryPoint : Summary} (h : selectEntryPoint options classes = .ok entryPoint) :
    entryPoint ∈ classes.filter (·.carries options.marker) ∧
      (∀ other ∈ classes.filter (·.carries options.marker),
        entryPoint.className ≤ other.className) ∧
      ((classes.filter (·.carries options.marker)).length = 1 ∨ options.policy = .firstMatch) := by
  have hselected := isSelected_selectEntryPoint options classes
  rw [h] at hselected
  cases hselected with
  | only hmarked =>
    rw [hmarked]
    refine ⟨List.mem_singleton.2 rfl, fun other hother => ?_, Or.inl rfl⟩
    obtain rfl := List.mem_singleton.1 hother
    exact Std.le_refl _
  | first hpolicy hseveral hmarked hbefore hafter =>
    rw [hmarked]
    refine ⟨by simp, fun other hother => ?_, Or.inr hpolicy⟩
    rcases List.mem_append.1 hother with hother | hother
    · exact Std.le_of_lt (hbefore other hother)
    · rcases List.mem_cons.1 hother with rfl | hother
      · exact Std.le_refl _
      · exact hafter other hother

/-- A class that is selected is selected among fewer classes too, or one that declares the same name
is. -/
lemma exists_selectEntryPoint_of_sublist {options : SearchOptions} {classes fewer : List Summary}
    {entryPoint : Summary} (h : selectEntryPoint options classes = .ok entryPoint)
    (hfewer : fewer.Sublist classes) (hmem : entryPoint ∈ fewer) :
    ∃ selected, selectEntryPoint options fewer = .ok selected ∧
      selected.className = entryPoint.className := by
  obtain ⟨hmarked, hleast, hsingle⟩ := marked_and_least_of_selectEntryPoint h
  have hstill : entryPoint ∈ fewer.filter (·.carries options.marker) :=
    List.mem_filter.2 ⟨hmem, (List.mem_filter.1 hmarked).2⟩
  have hsublist : (fewer.filter (·.carries options.marker)).Sublist
      (classes.filter (·.carries options.marker)) := hfewer.filter _
  have hselected := isSelected_selectEntryPoint options fewer
  cases hanswer : selectEntryPoint options fewer with
  | ok selected =>
    obtain ⟨hselectedMarked, hselectedLeast, -⟩ := marked_and_least_of_selectEntryPoint hanswer
    exact ⟨selected, rfl, Std.le_antisymm (hselectedLeast _ hstill)
      (hleast _ (hsublist.subset hselectedMarked))⟩
  | error failure =>
    rw [hanswer] at hselected
    cases hselected with
    | unmarked hnone =>
      rw [hnone] at hstill
      cases hstill
    | ambiguous hpolicy hseveral =>
      rcases hsingle with hone | hfirst
      · have hlength := hsublist.length_le
        omega
      · rw [hpolicy] at hfirst
        cases hfirst

/-! ## Searches with a stricter filter -/

/-- A search succeeds exactly if all classes with allowed names are loaded and one of them is
selected. -/
lemma resolve_eq_ok_iff {fs : FileSystem} {root : Path} {source : ByteSource}
    {allows : String → Bool} {options : SearchOptions} {resolution : Resolution} :
    resolve fs root source allows options = .ok resolution ↔
      ∃ classes, findClasses fs root allows = .ok resolution.candidates ∧
        List.Forall₂ (IsLoaded source) resolution.candidates.names classes ∧
        selectEntryPoint options classes = .ok resolution.entryPoint := by
  have hparse : ∀ (candidates : NameSet) classes,
      parseCandidates source candidates options.parallel = .ok classes ↔
        List.Forall₂ (IsLoaded source) candidates.names classes := by
    intro candidates classes
    simp only [parseCandidates_eq_mapM, mapM_eq_ok_iff, loadCandidate_eq_ok_iff]
  constructor
  · intro h
    cases hfind : findClasses fs root allows with
    | error failure => simp [resolve, hfind] at h
    | ok candidates =>
      cases hclasses : parseCandidates source candidates options.parallel with
      | error failure => simp [resolve, hfind, resolveCandidates, hclasses] at h
      | ok classes =>
        cases hselect : selectEntryPoint options classes with
        | error failure => simp [resolve, hfind, resolveCandidates, hclasses, hselect] at h
        | ok entryPoint =>
          obtain rfl : Resolution.mk candidates entryPoint = resolution := by
            simpa [resolve, hfind, resolveCandidates, hclasses, hselect] using h
          exact ⟨classes, rfl, (hparse candidates classes).1 hclasses, hselect⟩
  · rintro ⟨classes, hfind, hclasses, hselect⟩
    simp only [resolve, hfind, resolveCandidates, (hparse _ _).2 hclasses, hselect]

/-- The names that satisfy a stricter predicate are those among the others that do. -/
lemma findClasses_of_stricter {fs : FileSystem} {root : Path} {allows stricter : String → Bool}
    {candidates : NameSet} (h : findClasses fs root allows = .ok candidates)
    (hstricter : ∀ name, stricter name = true → allows name = true) :
    ∃ fewer, findClasses fs root stricter = .ok fewer ∧
      fewer.names = candidates.names.filter stricter := by
  cases hscan : scanClassFiles fs root with
  | error failure => simp [findClasses, hscan] at h
  | ok paths =>
    simp only [findClasses, hscan, Except.ok.injEq] at h ⊢
    subst h
    refine ⟨_, rfl, ?_⟩
    have hsame : NameSet.ofList ((paths.filterMap (ClassName.ofPath? root)).filter stricter)
        = ⟨(NameSet.ofList ((paths.filterMap (ClassName.ofPath? root)).filter allows)).names.filter
            stricter, (NameSet.ascending _).filter _⟩ := by
      refine NameSet.eq_of_mem_iff fun name => ?_
      simp only [NameSet.mem_ofList, List.mem_filter]
      constructor
      · rintro ⟨hmem, hname⟩
        exact ⟨⟨hmem, hstricter name hname⟩, hname⟩
      · rintro ⟨⟨hmem, -⟩, hname⟩
        exact ⟨hmem, hname⟩
    rw [hsame]

/-- The results for the members that satisfy a predicate are among the results for all. -/
lemma exists_forall₂_filter {α β : Type} {R : α → β → Prop} {xs : List α} {ys : List β}
    (h : List.Forall₂ R xs ys) (p : α → Bool) :
    ∃ zs, List.Forall₂ R (xs.filter p) zs ∧ zs.Sublist ys ∧
      ∀ x y, (x, y) ∈ xs.zip ys → p x = true → y ∈ zs := by
  induction h with
  | nil => exact ⟨[], .nil, List.Sublist.slnil, by simp⟩
  | @cons x y xs ys hxy _ ih =>
    obtain ⟨zs, hzs, hsublist, hkept⟩ := ih
    cases hx : p x with
    | true =>
      refine ⟨y :: zs, ?_, hsublist.cons_cons y, fun x' y' hmem hx' => ?_⟩
      · rw [List.filter_cons_of_pos hx]
        exact .cons hxy hzs
      · rcases List.mem_cons.1 hmem with hhead | htail
        · cases hhead
          exact List.mem_cons_self
        · exact List.mem_cons_of_mem _ (hkept x' y' htail hx')
    | false =>
      refine ⟨zs, ?_, hsublist.cons y, fun x' y' hmem hx' => ?_⟩
      · rwa [List.filter_cons_of_neg (by simp [hx])]
      · rcases List.mem_cons.1 hmem with hhead | htail
        · cases hhead
          rw [hx] at hx'
          cases hx'
        · exact hkept x' y' htail hx'

/-- The class that a search ends with was found under the name of a candidate. A search with a
stricter filter that still allows this name ends with a class of the same declared name. -/
lemma exists_resolve_of_stricter {fs : FileSystem} {root : Path} {source : ByteSource}
    {allows : String → Bool} {options : SearchOptions} {resolution : Resolution}
    (h : resolve fs root source allows options = .ok resolution) :
    ∃ name ∈ resolution.candidates.names, IsLoaded source name resolution.entryPoint ∧
      ∀ stricter : String → Bool, (∀ name, stricter name = true → allows name = true) →
        stricter name = true → ∃ other, resolve fs root source stricter options = .ok other ∧
          other.entryPoint.className = resolution.entryPoint.className := by
  obtain ⟨classes, hfind, hclasses, hselect⟩ := resolve_eq_ok_iff.1 h
  have hmem : resolution.entryPoint ∈ classes :=
    List.mem_of_mem_filter (marked_and_least_of_selectEntryPoint hselect).1
  obtain ⟨i, hi, hentry⟩ := List.getElem_of_mem hmem
  have hlt : i < resolution.candidates.names.length := hclasses.length_eq ▸ hi
  have hzip : (resolution.candidates.names[i], resolution.entryPoint)
      ∈ resolution.candidates.names.zip classes := by
    rw [← hentry, ← List.getElem_zip (h := by rw [List.length_zip]; omega)]
    exact List.getElem_mem _
  refine ⟨resolution.candidates.names[i], List.getElem_mem hlt,
    List.forall₂_zip hclasses hzip, fun stricter hstricter hname => ?_⟩
  obtain ⟨fewer, hfewer, hnames⟩ := findClasses_of_stricter hfind hstricter
  obtain ⟨kept, hkept, hsublist, hstill⟩ := exists_forall₂_filter hclasses stricter
  obtain ⟨selected, hselected, hsame⟩ :=
    exists_selectEntryPoint_of_sublist hselect hsublist (hstill _ _ hzip hname)
  exact ⟨⟨fewer, selected⟩, resolve_eq_ok_iff.2 ⟨kept, hfewer, hnames ▸ hkept, hselected⟩, hsame⟩

/-! ## Nominees -/

/-- The names that are nominated: that of the class that a search ends with, and that which an
emission writes to the manifest. -/
inductive Nominates (fs : FileSystem) (root : Path) (source : ByteSource) (allows : String → Bool)
    (options : SearchOptions) : String → Prop where
  | found {resolution : Resolution}
    (h : resolve fs root source allows options = .ok resolution) :
    Nominates fs root source allows options resolution.entryPoint.className
  | written {record : Manifest.Record} {changed : FileSystem}
    (h : resolveAndEmit fs root source allows options = (.ok record, changed)) :
    Nominates fs root source allows options record.mainClass

/-- What is nominated is the declared name of the class that a search ends with. -/
lemma Nominates.exists_resolve {fs : FileSystem} {root : Path} {source : ByteSource}
    {allows : String → Bool} {options : SearchOptions} {nominee : String}
    (h : Nominates fs root source allows options nominee) :
    ∃ resolution, resolve fs root source allows options = .ok resolution ∧
      resolution.entryPoint.className = nominee := by
  cases h with
  | found h => exact ⟨_, h, rfl⟩
  | written h =>
    obtain ⟨resolution, _, hresolve, rfl, -⟩ := resolveAndEmit_eq_ok_iff.1 h
    exact ⟨resolution, hresolve, rfl⟩

/-- A candidate has an allowed name. -/
lemma allows_of_mem_findClasses {fs : FileSystem} {root : Path} {allows : String → Bool}
    {candidates : NameSet} (h : findClasses fs root allows = .ok candidates) {name : String}
    (hname : name ∈ candidates.names) : allows name = true := by
  cases hscan : scanClassFiles fs root with
  | error failure => simp [findClasses, hscan] at h
  | ok paths =>
    simp only [findClasses, hscan, Except.ok.injEq] at h
    subst h
    exact (List.mem_filter.1 (NameSet.mem_ofList.1 hname)).2

/-- Whatever packages are excluded, the filter allows the name that is nominated, exactly if every
search ends with a class whose declared name lies in no package in which the name does not lie under
which the class was found. In particular that is so where classes are found under the names that
they declare. -/
theorem allows_nominee_iff (fs : FileSystem) (root : Path) (source : ByteSource)
    (options : SearchOptions) :
    (∀ framework packages nominee, Nominates fs root source
        (OwnershipFilter.ofPackages framework packages).allows options nominee →
      (OwnershipFilter.ofPackages framework packages).allows nominee = true) ↔
    ∀ framework packages resolution, resolve fs root source
        (OwnershipFilter.ofPackages framework packages).allows options = .ok resolution →
      ∃ name ∈ resolution.candidates.names, IsLoaded source name resolution.entryPoint ∧
        ∀ package, inPackage package resolution.entryPoint.className = true →
          inPackage package name = true := by
  constructor
  · intro h framework packages resolution hresolve
    obtain ⟨name, hname, hloaded, hstricter⟩ := exists_resolve_of_stricter hresolve
    refine ⟨name, hname, hloaded, fun package hdeclared => ?_⟩
    -- Otherwise the package can be excluded as well, and the same name is nominated still.
    by_contra hfound
    rw [Bool.not_eq_true] at hfound
    obtain ⟨_, hfind, -⟩ := resolve_eq_ok_iff.1 hresolve
    obtain ⟨framework', packages', hallows⟩ :=
      OwnershipFilter.exists_excluding framework packages package
    obtain ⟨other, hother, hsame⟩ := hstricter
      (OwnershipFilter.ofPackages framework' packages').allows
      (fun other hother => ((hallows other).1 hother).1)
      ((hallows name).2 ⟨allows_of_mem_findClasses hfind hname, hfound⟩)
    have hnominee := h framework' packages' _ (.found hother)
    rw [hsame, hallows, hdeclared] at hnominee
    cases hnominee.2
  · intro h framework packages nominee hnominates
    obtain ⟨resolution, hresolve, rfl⟩ := hnominates.exists_resolve
    obtain ⟨name, hname, -, hpackages⟩ := h framework packages resolution hresolve
    obtain ⟨_, hfind, -⟩ := resolve_eq_ok_iff.1 hresolve
    rw [OwnershipFilter.allows_iff]
    intro package hpackage
    have hfound := OwnershipFilter.allows_iff.1 (allows_of_mem_findClasses hfind hname) package
      hpackage
    by_contra hdeclared
    rw [hpackages package (by simpa using hdeclared)] at hfound
    cases hfound

/-- A class file that declares a name inside the framework's package and carries the marker. -/
def strayClass : Bytes :=
  [0xCA, 0xFE, 0xBA, 0xBE, 0, 0, 0, 52]
    ++ [0, 5, 1, 0, 21] ++ Bytes.ofText "com/_7aske/grain/Boot" ++ [7, 0, 1]
    ++ [1, 0, 25] ++ Bytes.ofText "RuntimeVisibleAnnotations"
    ++ [1, 0, 54] ++ Bytes.ofText defaultMarker
    ++ [0, 33, 0, 2, 0, 0, 0, 0, 0, 0, 0, 0, 0, 1, 0, 3, 0, 0, 0, 6, 0, 1, 0, 4, 0, 0]

/-- The filter that excludes the framework drops no class of a build that has the stray class in the
place of a class `A`, and a class of the framework is nominated. -/
theorem nominates_strayClass :
    (resolve (smallBuild "out" strayClass) ⟨"out"⟩
        (.ofDirectory (smallBuild "out" strayClass) ⟨"out"⟩)
        (OwnershipFilter.ofFramework defaultFrameworkPackage).allows
        ⟨defaultMarker, .strict, true⟩).map (·.entryPoint.className)
      = .ok "com._7aske.grain.Boot" ∧
    (resolveAndEmit (smallBuild "out" strayClass) ⟨"out"⟩
        (.ofDirectory (smallBuild "out" strayClass) ⟨"out"⟩)
        (OwnershipFilter.ofFramework defaultFrameworkPackage).allows
        ⟨defaultMarker, .strict, true⟩).1.map (·.mainClass)
      = .ok "com._7aske.grain.Boot" ∧
    (OwnershipFilter.ofFramework defaultFrameworkPackage).allows "com._7aske.grain.Boot" = false := by
  refine ⟨?_, ?_, ?_⟩ <;> decide +kernel

end EntryPoint
