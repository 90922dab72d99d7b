import EntryPoint.Bytes
import EntryPoint.ClassFile.Fault

/-!
# Plans of reads

A `Reading` says which reads a byte string undergoes, in order, and what comes of them. Bytes are
either taken, and then the plan depends on them, or skipped, and then it cannot; a part of known
length may be read by a plan of its own, which counts its offsets from the start of that part and
need not use the part up. `Reading.run` carries a plan out at a cursor.

Since a plan is a tree, what holds of each kind of read holds of every plan by induction.
-/

namespace EntryPoint.ClassFile

/-- A position in a byte string: how many bytes lie before it, and the bytes from it on. -/
structure Cursor where
  offset : Nat
  rest : Bytes
  deriving DecidableEq

/-- The start of a byte string. -/
def Cursor.start (bytes : Bytes) : Cursor :=
  ⟨0, bytes⟩

/-- The next `n` bytes and the position behind them, or how many bytes are missing. -/
def Cursor.cut (cursor : Cursor) (n : Nat) : Except Fault (Bytes × Cursor) :=
  let taken := cursor.rest.take n
  let missing := n - taken.length
  if missing = 0 then
    .ok (taken, ⟨cursor.offset + n, cursor.rest.drop n⟩)
  else
    .error (.truncated cursor.offset missing)

/-- A plan of reads that ends in a value of a given type or in a fault. -/
inductive Reading : Type → Type 1 where
  /-- Ends with a value. -/
  | done {α : Type} (value : α) : Reading α
  /-- Ends with a fault. -/
  | fail {α : Type} (fault : Fault) : Reading α
  /-- Takes the next `n` bytes. -/
  | take {α : Type} (n : Nat) (next : Bytes → Reading α) : Reading α
  /-- Steps over the next `n` bytes, whatever they are. -/
  | skip {α : Type} (n : Nat) (next : Unit → Reading α) : Reading α
  /-- Reads the next `n` bytes by a plan of their own and drops what that plan leaves of them. -/
  | within {α β : Type} (n : Nat) (body : Reading β) (next : β → Reading α) : Reading α

namespace Reading

variable {α β : Type}

/-- Goes on with a second plan, chosen by the value of the first. -/
def bind {α : Type} : Reading α → (α → Reading β) → Reading β
  | .done value, after => after value
  | .fail fault, _ => .fail fault
  | .take n next, after => .take n fun bytes => (next bytes).bind after
  | .skip n next, after => .skip n fun _ => (next ()).bind after
  | .within n body next, after => .within n body fun value => (next value).bind after

instance : Monad Reading where
  pure := .done
  bind := .bind

/-- Carries a plan out and gives its value with the position reached. -/
def run {α : Type} : Reading α → Cursor → Except Fault (α × Cursor)
  | .done value, cursor => .ok (value, cursor)
  | .fail fault, _ => .error fault
  | .take n next, cursor =>
    match cursor.cut n with
    | .ok (bytes, cursor) => (next bytes).run cursor
    | .error fault => .error fault
  | .skip n next, cursor =>
    match cursor.cut n with
    | .ok (_, cursor) => (next ()).run cursor
    | .error fault => .error fault
  | .within n body next, cursor =>
    match cursor.cut n with
    | .ok (bytes, cursor) =>
      match body.run (.start bytes) with
      | .ok (value, _) => (next value).run cursor
      | .error fault => .error fault
    | .error fault => .error fault

/-- The next `n` bytes. -/
def bytes (n : Nat) : Reading Bytes :=
  .take n .done

/-- Steps over `n` bytes. -/
def pass (n : Nat) : Reading Unit :=
  .skip n .done

/-- A part of `n` bytes, read by a plan of its own. -/
def part (n : Nat) (body : Reading α) : Reading α :=
  .within n body .done

/-- One byte. -/
def byte : Reading UInt8 :=
  .take 1 fun bytes => .done (UInt8.ofNat bytes.bigEndian)

/-- A big-endian word of two bytes. -/
def word : Reading UInt16 :=
  .take 2 fun bytes => .done (word16 bytes)

/-- A big-endian word of four bytes. -/
def doubleWord : Reading UInt32 :=
  .take 4 fun bytes => .done (word32 bytes)

/-- A value that is already settled, or a fault. -/
def settled : Except Fault α → Reading α
  | .ok value => .done value
  | .error fault => .fail fault

/-- Repeats a plan that passes a value on. -/
def iterate (step : α → Reading α) : (times : Nat) → α → Reading α
  | 0, value => .done value
  | times + 1, value => (step value).bind (iterate step times)

/-- Repeats a plan for its effect alone. -/
def replicate (times : Nat) (step : Reading Unit) : Reading Unit :=
  iterate (fun _ => step) times ()

end Reading

end EntryPoint.ClassFile
