import EntryPoint.Proofs.ClassFile.Words

/-!
# More bytes behind what a plan reads

A plan that has ended, with a value or with a fault that is no truncation, has looked at nothing
beyond the place where it ended, so that more bytes behind change nothing. A truncation says how
many bytes are missing for the read that failed, and as long as fewer bytes are added it stays and
says how many are missing still. Within a part of known length, though, more bytes behind the part
are of no use.

This holds of all plans that declare no truncation on their own (`Truthful`): `Breaks` lists the
ways in which their runs fail, and `breaks_of_run` says that there is no other.
-/

namespace EntryPoint.ClassFile

/-! ## More bytes ahead of a cursor -/

/-- Whether a fault says that bytes are missing. -/
def Fault.IsTruncation (fault : Fault) : Prop :=
  ∃ offset missing, fault = .truncated offset missing

/-- The same position with more bytes behind all that lies ahead. -/
def Cursor.extend (cursor : Cursor) (more : Bytes) : Cursor :=
  ⟨cursor.offset, cursor.rest ++ more⟩

lemma Cursor.start_append (bytes more : Bytes) :
    Cursor.start (bytes ++ more) = (Cursor.start bytes).extend more :=
  rfl

/-- A cut that succeeds takes the same bytes if more follow. -/
lemma Cursor.cut_extend {cursor behind : Cursor} {n : ℕ} {taken : Bytes}
    (h : cursor.cut n = .ok (taken, behind)) (more : Bytes) :
    (cursor.extend more).cut n = .ok (taken, behind.extend more) := by
  obtain ⟨hlength, hrest, hoffset⟩ := Cursor.cut_eq_ok_iff.1 h
  refine Cursor.cut_eq_ok_iff.2 ⟨hlength, ?_, hoffset⟩
  simp only [Cursor.extend, hrest, List.append_assoc]

/-- A cut that fails names the bytes that are missing, and if fewer than these are added, those that
are missing still. -/
lemma Cursor.cut_short {cursor : Cursor} {n : ℕ} {fault : Fault} (h : cursor.cut n = .error fault) :
    ∃ needed, 1 ≤ needed ∧ fault = .truncated cursor.offset needed ∧
      ∀ more : Bytes, more.length < needed →
        (cursor.extend more).cut n = .error (.truncated cursor.offset (needed - more.length)) := by
  have hshort : cursor.rest.length < n := by
    by_contra hlong
    rw [Cursor.cut_eq_ok (Nat.le_of_not_lt hlong)] at h
    cases h
  rw [Cursor.cut_eq_error hshort] at h
  cases h
  refine ⟨n - cursor.rest.length, by omega, rfl, fun more hmore => ?_⟩
  have hlength : (cursor.extend more).rest.length = cursor.rest.length + more.length :=
    List.length_append
  have hstill : (cursor.extend more).rest.length < n := by omega
  have hneeded : n - (cursor.extend more).rest.length
      = n - cursor.rest.length - more.length := by omega
  rw [Cursor.cut_eq_error hstill, hneeded]
  rfl

namespace Reading

variable {α β : Type}

/-- A plan that succeeds gives the same value if more bytes follow, and leaves them. -/
theorem run_extend {plan : Reading α} {cursor behind : Cursor} {value : α}
    (h : plan.run cursor = .ok (value, behind)) (more : Bytes) :
    plan.run (cursor.extend more) = .ok (value, behind.extend more) := by
  obtain ⟨bytes, ⟨hrest, hoffset⟩, hreads⟩ := run_eq_ok_iff.1 h
  refine run_eq_ok_iff.2 ⟨bytes, ⟨?_, hoffset⟩, hreads⟩
  simp only [Cursor.extend, hrest, List.append_assoc]

/-! ## Plans that report truncations truthfully -/

/-- Whether a plan reports a truncation only where bytes are missing. It declares none on its own,
and where the plan of a part reports one, `Inside` holds of the bytes that were read before the
part, of the part and of the fault. -/
def Truthful {α : Type} : (Inside : Bytes → Bytes → Fault → Prop) → Reading α → Prop
  | _, .done _ => True
  | _, .fail fault => ¬fault.IsTruncation
  | Inside, .take n next =>
    ∀ taken, taken.length = n → (next taken).Truthful fun before => Inside (taken ++ before)
  | Inside, .skip n next =>
    ∀ passed, passed.length = n → (next ()).Truthful fun before => Inside (passed ++ before)
  | Inside, .within n body next =>
    (∀ part fault, part.length = n → body.run (.start part) = .error fault →
      fault.IsTruncation → Inside [] part fault) ∧
    ∀ part value left, part.length = n → body.run (.start part) = .ok (value, left) →
      (next value).Truthful fun before => Inside (part ++ before)

variable {Inside : Bytes → Bytes → Fault → Prop}

lemma Truthful.mono {plan : Reading α} {Within : Bytes → Bytes → Fault → Prop}
    (h : plan.Truthful Inside)
    (hmono : ∀ before part fault, Inside before part fault → Within before part fault) :
    plan.Truthful Within := by
  induction plan generalizing Inside Within with
  | done value => trivial
  | fail fault => exact h
  | take n next ih =>
    exact fun taken hlength => ih taken (h taken hlength) fun before => hmono (taken ++ before)
  | skip n next ih =>
    exact fun passed hlength => ih () (h passed hlength) fun before => hmono (passed ++ before)
  | within n body next _ ih =>
    refine ⟨fun part fault hlength hrun htruncation => ?_, fun part value left hlength hrun => ?_⟩
    · exact hmono [] part fault (h.1 part fault hlength hrun htruncation)
    · exact ih value (h.2 part value left hlength hrun) fun before => hmono (part ++ before)

/-- Two plans in a row report truthfully if both do, the second one behind all that the first one
reads. -/
lemma Truthful.bind {plan : Reading α} {after : α → Reading β} (hplan : plan.Truthful Inside)
    (hafter : ∀ first value, plan.Reads first value →
      (after value).Truthful fun before => Inside (first ++ before)) :
    (plan >>= after).Truthful Inside := by
  change (plan.bind after).Truthful Inside
  induction plan generalizing Inside with
  | done value => exact hafter [] value ⟨rfl, rfl⟩
  | fail fault => exact hplan
  | take n next ih =>
    refine fun taken hlength => ih taken (hplan taken hlength) fun first value hreads => ?_
    have hwhole := hafter (taken ++ first) value ⟨taken, first, rfl, hlength, hreads⟩
    simpa only [List.append_assoc] using hwhole
  | skip n next ih =>
    refine fun passed hlength => ih () (hplan passed hlength) fun first value hreads => ?_
    have hwhole := hafter (passed ++ first) value ⟨passed, first, rfl, hlength, hreads⟩
    simpa only [List.append_assoc] using hwhole
  | within n body next _ ih =>
    refine ⟨hplan.1, fun part inner left hlength hrun => ?_⟩
    refine ih inner (hplan.2 part inner left hlength hrun) fun first value hreads => ?_
    obtain ⟨used, ⟨hpart, -⟩, hbody⟩ := run_eq_ok_iff.1 hrun
    have hwhole := hafter (part ++ first) value
      ⟨part, first, rfl, hlength, used, left.rest, inner, hpart, hbody, hreads⟩
    simpa only [List.append_assoc] using hwhole

/-- Where `Inside` does not depend on what else was read before, two plans in a row report
truthfully if both do. -/
lemma Truthful.bind_same {plan : Reading α} {after : α → Reading β}
    (hdeep : ∀ first before part fault, Inside before part fault →
      Inside (first ++ before) part fault)
    (hplan : plan.Truthful Inside) (hafter : ∀ value, (after value).Truthful Inside) :
    (plan >>= after).Truthful Inside :=
  hplan.bind fun first value _ => (hafter value).mono (hdeep first)

/-- A repeated step reports truthfully if a single one does. -/
lemma Truthful.iterate {step : α → Reading α}
    (hdeep : ∀ first before part fault, Inside before part fault →
      Inside (first ++ before) part fault)
    (hstep : ∀ value, (step value).Truthful Inside) (times : ℕ) (value : α) :
    (iterate step times value).Truthful Inside := by
  induction times generalizing value with
  | zero => trivial
  | succ times ih => exact Truthful.bind_same hdeep (hstep value) ih

/-! ## How runs fail -/

/-- The ways in which a plan fails on what lies ahead of a cursor, each with what comes of more
bytes behind it. -/
inductive Breaks (Inside : Bytes → Bytes → Fault → Prop) (plan : Reading α) (cursor : Cursor) :
    Fault → Prop where
  /-- Something is wrong with the bytes that were read; more of them change nothing. -/
  | rejected {fault : Fault} (htruncation : ¬fault.IsTruncation)
    (hsame : ∀ more, plan.run (cursor.extend more) = .error fault) :
    Breaks Inside plan cursor fault
  /-- Bytes are missing within a part of known length; more bytes behind it change nothing. -/
  | inside (before part after : Bytes) {fault : Fault}
    (hrest : cursor.rest = before ++ part ++ after) (hinside : Inside before part fault)
    (hsame : ∀ more, plan.run (cursor.extend more) = .error fault) :
    Breaks Inside plan cursor fault
  /-- Bytes are missing at the end; with some of them, the others are missing still. -/
  | short {offset needed : ℕ} (hneeded : 1 ≤ needed)
    (hoffset : offset ≤ cursor.offset + cursor.rest.length)
    (hfewer : ∀ more : Bytes, more.length < needed →
      plan.run (cursor.extend more) = .error (.truncated offset (needed - more.length))) :
    Breaks Inside plan cursor (.truncated offset needed)

/-- A plan that moves on and leaves the rest to another plan fails as that one does. -/
lemma Breaks.of_moves {plan next : Reading α} {cursor behind : Cursor} {taken : Bytes}
    {fault : Fault} (hmoves : cursor.Moves taken behind)
    (hrun : ∀ more, plan.run (cursor.extend more) = next.run (behind.extend more))
    (h : Breaks (fun before => Inside (taken ++ before)) next behind fault) :
    Breaks Inside plan cursor fault := by
  obtain ⟨hrest, hoffset⟩ := hmoves
  cases h with
  | rejected htruncation hsame =>
    exact .rejected htruncation fun more => (hrun more).trans (hsame more)
  | inside before part after hbehind hinside hsame =>
    refine .inside (taken ++ before) part after ?_ hinside fun more => (hrun more).trans (hsame more)
    rw [hrest, hbehind]
    simp only [List.append_assoc]
  | short hneeded hshort hfewer =>
    refine .short hneeded ?_ fun more hmore => (hrun more).trans (hfewer more hmore)
    rw [hrest, List.length_append]
    omega

/-- A plan that starts with a cut fails with the cut, or else as it does behind it. -/
lemma breaks_of_cut {plan : Reading α} {cursor : Cursor} {n : ℕ} {fault : Fault}
    (hcut : ∀ cursor fault, cursor.cut n = .error fault → plan.run cursor = .error fault)
    (hbehind : ∀ taken behind, cursor.cut n = .ok (taken, behind) → Breaks Inside plan cursor fault)
    (hrun : plan.run cursor = .error fault) : Breaks Inside plan cursor fault := by
  cases hfirst : cursor.cut n with
  | ok found => exact hbehind found.1 found.2 hfirst
  | error missing =>
    rw [hcut cursor missing hfirst] at hrun
    cases hrun
    obtain ⟨needed, hneeded, rfl, hfewer⟩ := Cursor.cut_short hfirst
    exact .short hneeded (Nat.le_add_right _ _) fun more hmore => hcut _ _ (hfewer more hmore)

/-- A truthful plan fails in one of these ways. -/
theorem breaks_of_run {plan : Reading α} (hplan : plan.Truthful Inside) {cursor : Cursor}
    {fault : Fault} (hrun : plan.run cursor = .error fault) : Breaks Inside plan cursor fault := by
  induction plan generalizing Inside cursor with
  | done value => cases hrun
  | fail declared =>
    cases hrun
    exact .rejected hplan fun _ => rfl
  | take n next ih =>
    refine breaks_of_cut (n := n) (fun _ _ h => by rw [run, h]) (fun taken behind hcut => ?_) hrun
    obtain ⟨hlength, hmoves⟩ := Cursor.cut_eq_ok_iff.1 hcut
    rw [run, hcut] at hrun
    refine .of_moves hmoves (fun more => ?_) (ih taken (hplan taken hlength) hrun)
    rw [run, Cursor.cut_extend hcut]
  | skip n next ih =>
    refine breaks_of_cut (n := n) (fun _ _ h => by rw [run, h]) (fun passed behind hcut => ?_) hrun
    obtain ⟨hlength, hmoves⟩ := Cursor.cut_eq_ok_iff.1 hcut
    rw [run, hcut] at hrun
    refine .of_moves hmoves (fun more => ?_) (ih () (hplan passed hlength) hrun)
    rw [run, Cursor.cut_extend hcut]
  | within n body next _ ih =>
    refine breaks_of_cut (n := n) (fun _ _ h => by rw [run, h]) (fun part behind hcut => ?_) hrun
    obtain ⟨hlength, hmoves⟩ := Cursor.cut_eq_ok_iff.1 hcut
    rw [run, hcut] at hrun
    -- the part is fixed by its length, so that its plan runs alike with more bytes behind
    cases hbody : body.run (.start part) with
    | error inner =>
      simp only [hbody] at hrun
      cases hrun
      have hmore : ∀ more, (within n body next).run (cursor.extend more) = .error fault := by
        intro more
        simp only [run, Cursor.cut_extend hcut, hbody]
      by_cases htruncation : fault.IsTruncation
      · exact .inside [] part _ hmoves.1 (hplan.1 part fault hlength hbody htruncation) hmore
      · exact .rejected htruncation hmore
    | ok outcome =>
      simp only [hbody] at hrun
      refine .of_moves hmoves (fun more => ?_) (ih outcome.1 (hplan.2 part _ _ hlength hbody) hrun)
      simp only [run, Cursor.cut_extend hcut, hbody]

end Reading

end EntryPoint.ClassFile
