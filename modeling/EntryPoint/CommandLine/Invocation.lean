import EntryPoint.CommandLine.Arguments
import EntryPoint.Ownership
import EntryPoint.Selection

/-!
# Invocations

An invocation is what a command line says when its arguments are read: a command and the options
that hold for every command.
-/

namespace EntryPoint.CommandLine

/-- What the program is asked to do. -/
inductive Command where
  /-- List the candidates. -/
  | list
  /-- Show what one class file says about itself. -/
  | inspect (file : Path)
  /-- Resolve the entry point. -/
  | resolve
  /-- Resolve the entry point and write the manifest; the group is that of the project being
  built. -/
  | emit (groupId : Option String)
  deriving DecidableEq

/-- The two forms of output. -/
inductive OutputFormat where
  | json
  | text
  deriving DecidableEq

/-- The options that hold for every command. -/
structure Options where
  root : Option Path
  classPath : List Path
  marker : String
  frameworkPackage : String
  excluded : List String
  allowAmbiguous : Bool
  jobs : Option Nat
  sequential : Bool
  format : OutputFormat
  verbose : Bool
  deriving DecidableEq

/-- A command with its options. -/
structure Invocation where
  command : Command
  options : Options
  deriving DecidableEq

/-- The options that are given, with defaults for the others. -/
def Options.ofCollected (collected : Collected) : Options where
  root := (collected.value? .root).map Path.mk
  classPath := (collected.values .classPath).map Path.mk
  marker := (collected.value? .marker).getD defaultMarker
  frameworkPackage := (collected.value? .frameworkPackage).getD defaultFrameworkPackage
  excluded := collected.values .exclude
  allowAmbiguous := collected.has .allowAmbiguous
  jobs := (collected.value? .jobs).bind parseCount?
  sequential := collected.has .sequential
  format := if collected.value? .format = some "text" then .text else .json
  verbose := collected.has .verbose

/-- The command of a scope with its own arguments. -/
def Command.ofCollected (scope : Scope) (collected : Collected) : Except UsageFault Command :=
  match scope with
  | .program => .error .missingSubcommand
  | .list => .ok .list
  | .resolve => .ok .resolve
  | .emit => .ok (.emit (collected.value? .groupId))
  | .inspect =>
    match collected.value? .file with
    | some file => .ok (.inspect ⟨file⟩)
    | none => .error .missingRequiredArgument

/-- Reads a command's own arguments. -/
def readCommand (scope : Scope) (arguments : List String) : Except UsageFault Command := do
  let (collected, _) ← readArguments scope arguments .nothing
  Command.ofCollected scope (← collected.settle)

/-- Reads the arguments of the program, its name aside. -/
def Invocation.parse (arguments : List String) : Except UsageFault Invocation := do
  let (collected, ending) ← readArguments .program arguments .nothing
  match ending with
  | .command scope rest =>
    let command ← readCommand scope rest
    let collected ← collected.settle
    return ⟨command, .ofCollected collected⟩
  | .exhausted =>
    let collected ← collected.settle
    throw (if collected.given.isEmpty then .noArguments else .missingSubcommand)

end EntryPoint.CommandLine
