import EntryPoint.Failure

/-!
# Where the bytes of a class come from

A byte source finds the bytes of a class by its name. That it has none is no failure; that it cannot
tell is one.
-/

namespace EntryPoint

/-- The bytes of a class, with the file or archive entry that they came from. -/
structure ClassBytes where
  contents : Bytes
  /-- Nothing for bytes that never lay in a file. -/
  origin : Option Path
  deriving DecidableEq

/-- A look-up of classes by name. -/
structure ByteSource where
  find : String → Except Failure (Option ClassBytes)

namespace ByteSource

/-- The bytes of a class that must be there. -/
def read (source : ByteSource) (className : String) : Except Failure ClassBytes :=
  match source.find className with
  | .ok (some bytes) => .ok bytes
  | .ok none => .error (.classNotFound className)
  | .error failure => .error failure

/-- The source that asks a list of sources in order, up to the first that has the class or fails. -/
def firstOf : (sources : List ByteSource) → ByteSource
  | [] => ⟨fun _ => .ok none⟩
  | source :: sources =>
    ⟨fun className =>
      match source.find className with
      | .ok none => (firstOf sources).find className
      | answer => answer⟩

/-- The source of classes that are held in memory. -/
def ofMemory (classes : List (String × Bytes)) : ByteSource :=
  ⟨fun className => .ok ((classes.lookup className).map fun contents => ⟨contents, none⟩)⟩

end ByteSource

end EntryPoint
