import EntryPoint.ClassFile.Reading

/-!
# Running plans of reads

A plan that goes on with another one runs the two in turn (`run_bind`), and the next bytes are there
exactly if enough bytes follow the cursor (`cut_eq_ok`, `cut_eq_error`).
-/

namespace EntryPoint.ClassFile

theorem Cursor.cut_eq_ok {cursor : Cursor} {n : Nat} (h : n ≤ cursor.rest.length) :
    cursor.cut n = .ok (cursor.rest.take n, ⟨cursor.offset + n, cursor.rest.drop n⟩) := by
  have hlength : (cursor.rest.take n).length = n := by
    rw [List.length_take]
    omega
  simp [Cursor.cut, hlength]

theorem Cursor.cut_eq_error {cursor : Cursor} {n : Nat} (h : cursor.rest.length < n) :
    cursor.cut n = .error (.truncated cursor.offset (n - cursor.rest.length)) := by
  have hlength : (cursor.rest.take n).length = cursor.rest.length := by
    rw [List.length_take]
    omega
  have hmissing : n - cursor.rest.length ≠ 0 := by omega
  simp [Cursor.cut, hlength, hmissing]

theorem Cursor.cut_append (offset : Nat) (taken rest : Bytes) :
    (Cursor.mk offset (taken ++ rest)).cut taken.length
      = .ok (taken, ⟨offset + taken.length, rest⟩) := by
  rw [Cursor.cut_eq_ok (by simp)]
  simp

namespace Reading

variable {α β : Type}

/-- A plan that goes on with another one runs the two in turn. -/
theorem run_bind (plan : Reading α) (after : α → Reading β) (cursor : Cursor) :
    (plan.bind after).run cursor =
      match plan.run cursor with
      | .ok (value, cursor) => (after value).run cursor
      | .error fault => .error fault := by
  induction plan generalizing β cursor with
  | done value => rfl
  | fail fault => rfl
  | take n next ih =>
    simp only [bind, run]
    cases cursor.cut n with
    | ok found => exact ih found.1 after found.2
    | error fault => rfl
  | skip n next ih =>
    simp only [bind, run]
    cases cursor.cut n with
    | ok found => exact ih () after found.2
    | error fault => rfl
  | within n body next _ ih =>
    simp only [bind, run]
    cases cursor.cut n with
    | error fault => rfl
    | ok found =>
      cases hbody : body.run (.start found.1) with
      | error fault => simp [hbody]
      | ok outcome => simpa [hbody] using ih outcome.1 after found.2

@[simp] theorem run_pure (value : α) (cursor : Cursor) :
    (pure value : Reading α).run cursor = .ok (value, cursor) :=
  rfl

end Reading

end EntryPoint.ClassFile
