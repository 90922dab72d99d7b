import EntryPoint.CommandLine.Usage

/-!
# Collecting arguments

Arguments are read from left to right, first those of the program and then, behind a command's name,
those of the command. An option's value is checked when the next argument that makes sense is met,
or at the end; an argument that makes no sense is reported before that.
-/

namespace EntryPoint.CommandLine

/-- What an argument can set. -/
inductive Parameter where
  | root
  | classPath
  | marker
  | frameworkPackage
  | exclude
  | allowAmbiguous
  | jobs
  | sequential
  | format
  | verbose
  | groupId
  | file
  | help
  deriving DecidableEq

/-- Whether a parameter takes a value. -/
def Parameter.takesValue : Parameter → Bool
  | .allowAmbiguous | .sequential | .verbose | .help => false
  | _ => true

/-- Whether a parameter may be given more than once. -/
def Parameter.repeats : Parameter → Bool
  | .classPath | .exclude => true
  | _ => false

/-- Whose arguments are read: the program's own or a command's. -/
inductive Scope where
  | program
  | list
  | inspect
  | resolve
  | emit
  deriving DecidableEq

/-- The command of a given name. -/
def Scope.ofName? : String → Option Scope
  | "list" => some .list
  | "inspect" => some .inspect
  | "resolve" => some .resolve
  | "emit" => some .emit
  | _ => none

/-- The parameter of a long option. -/
def Scope.long? : Scope → String → Option Parameter
  | _, "help" => some .help
  | .program, "root" => some .root
  | .program, "classpath" => some .classPath
  | .program, "marker" => some .marker
  | .program, "framework-package" => some .frameworkPackage
  | .program, "exclude" => some .exclude
  | .program, "allow-ambiguous" => some .allowAmbiguous
  | .program, "jobs" => some .jobs
  | .program, "sequential" => some .sequential
  | .program, "format" => some .format
  | .program, "verbose" => some .verbose
  | .emit, "group-id" => some .groupId
  | _, _ => none

/-- The parameter of a short option. -/
def Scope.short? : Scope → Char → Option Parameter
  | _, 'h' => some .help
  | .program, 'j' => some .jobs
  | .program, 'f' => some .format
  | .program, 'v' => some .verbose
  | _, _ => none

/-- The greatest number that an option may give. -/
def maxCount : Nat := 0xFFFFFFFFFFFFFFFF

/-- The number of a text of decimal digits, which a plus may precede, up to `maxCount`. -/
def parseCount? (text : String) : Option Nat :=
  let digits : List Char := match text.toList with
    | '+' :: digits => digits
    | digits => digits
  let value : Nat := digits.foldl (fun value c => value * 10 + (c.toNat - '0'.toNat)) 0
  if digits ≠ [] ∧ digits.all Char.isDigit ∧ value ≤ maxCount then some value else none

/-- Checks the value of a parameter. -/
def Parameter.check : Parameter → String → Except UsageFault Unit
  | .root, value | .classPath, value | .file, value =>
    if value = "" then .error .invalidValue else .ok ()
  | .format, value => if value = "json" ∨ value = "text" then .ok () else .error .invalidValue
  | .jobs, value => if (parseCount? value).isSome then .ok () else .error .valueValidation
  | _, _ => .ok ()

/-- A parameter that is not checked yet. -/
inductive Pending where
  | nothing
  | awaiting (parameter : Parameter)
  | valued (parameter : Parameter) (value : String)
  deriving DecidableEq

/-- The parameters that are given, in order, and the one that is not checked yet. -/
structure Collected where
  given : List (Parameter × String)
  pending : Pending
  deriving DecidableEq

namespace Collected

/-- The start, when nothing is given. -/
def nothing : Collected :=
  ⟨[], .nothing⟩

/-- Adds a parameter: one that may not repeat must be new, and its value must pass the check. -/
def record (collected : Collected) (parameter : Parameter) (value : String) :
    Except UsageFault Collected :=
  if ¬parameter.repeats ∧ collected.given.any (fun (found, _) => decide (found = parameter)) then
    .error .argumentConflict
  else
    match parameter.check value with
    | .ok () => .ok ⟨collected.given ++ [(parameter, value)], .nothing⟩
    | .error fault => .error fault

/-- Checks the parameter that is not checked yet. -/
def settle (collected : Collected) : Except UsageFault Collected :=
  match collected.pending with
  | .nothing => .ok collected
  | .awaiting _ => .error .invalidValue
  | .valued parameter value => collected.record parameter value

/-- Meets a parameter that is complete: help, a flag, or an option with its value attached. -/
def accept (collected : Collected) (parameter : Parameter) (value : String) :
    Except UsageFault Collected :=
  match collected.settle with
  | .error fault => .error fault
  | .ok collected =>
    if parameter = .help then .error .displayHelp else collected.record parameter value

/-- Meets an option whose value is the next argument. -/
def await (collected : Collected) (parameter : Parameter) : Except UsageFault Collected :=
  match collected.settle with
  | .error fault => .error fault
  | .ok collected => .ok { collected with pending := .awaiting parameter }

/-- Meets a value that is checked later. -/
def supply (collected : Collected) (parameter : Parameter) (value : String) : Collected :=
  { collected with pending := .valued parameter value }

/-- The values of a parameter, in order. -/
def values (collected : Collected) (parameter : Parameter) : List String :=
  collected.given.filterMap fun (found, value) => if found = parameter then some value else none

/-- The value of a parameter that is given at most once. -/
def value? (collected : Collected) (parameter : Parameter) : Option String :=
  (collected.values parameter).head?

/-- Whether a parameter is given. -/
def has (collected : Collected) (parameter : Parameter) : Bool :=
  !(collected.values parameter).isEmpty

end Collected

/-- Splits the text of a long option at its first equals sign. -/
def splitValue (text : List Char) : String × Option String :=
  match text.dropWhile (· != '=') with
  | _ :: value => (String.ofList (text.takeWhile (· != '=')), some (String.ofList value))
  | [] => (String.ofList text, none)

/-- Meets a long option, given the text after its dashes. -/
def readLong (scope : Scope) (text : List Char) (collected : Collected) :
    Except UsageFault Collected :=
  let (name, value) := splitValue text
  match scope.long? name with
  | none => .error .unknownArgument
  | some parameter =>
    match parameter.takesValue, value with
    | true, some value => collected.accept parameter value
    | true, none => collected.await parameter
    | false, some _ => .error .tooManyValues
    | false, none => collected.accept parameter ""

/-- Meets short options, given the letters after their dash; an option with a value takes the rest
as its value, without a leading equals sign. -/
def readShort (scope : Scope) : (letters : List Char) → Collected → Except UsageFault Collected
  | [], collected => .ok collected
  | letter :: rest, collected =>
    match scope.short? letter with
    | none => .error .unknownArgument
    | some parameter =>
      if parameter.takesValue then
        match rest with
        | [] => collected.await parameter
        | '=' :: value => collected.accept parameter (String.ofList value)
        | value => collected.accept parameter (String.ofList value)
      else
        match collected.accept parameter "" with
        | .ok collected => readShort scope rest collected
        | .error fault => .error fault

/-- Meets an argument that looks like an option; other arguments are left alone. -/
def readOption? (scope : Scope) (argument : String) (collected : Collected) :
    Option (Except UsageFault Collected) :=
  match argument.toList with
  | '-' :: '-' :: text => some (readLong scope text collected)
  | '-' :: letter :: rest => some (readShort scope (letter :: rest) collected)
  | _ => none

/-- The fault of a word of the program's own arguments that names no command; a name behind the
separator `--` is out of place. -/
def strayWord (separated : Bool) (argument : String) : UsageFault :=
  if separated ∧ (argument = "help" ∨ (Scope.ofName? argument).isSome) then
    .unknownArgument
  else
    .invalidSubcommand

/-- Meets a word that is neither an option nor an option's value. -/
def readWord (scope : Scope) (separated : Bool) (argument : String) (collected : Collected) :
    Except UsageFault Collected :=
  match scope with
  | .program => .error (strayWord separated argument)
  | .inspect =>
    if collected.has .file ∨ collected.pending matches .valued .file _ then
      .error .unknownArgument
    else
      match collected.settle with
      | .ok collected => .ok (collected.supply .file argument)
      | .error fault => .error fault
  | _ => .error .unknownArgument

/-- The fault by which the command `help` answers. -/
def helpAnswer : (names : List String) → UsageFault
  | [] => .displayHelp
  | [name] =>
    if name = "help" ∨ (Scope.ofName? name).isSome then .displayHelp else .invalidSubcommand
  | _ => .invalidSubcommand

/-- How the arguments of a scope end: at the end of all arguments or at the name of a command. -/
inductive Ending where
  | exhausted
  | command (scope : Scope) (rest : List String)

/-- The command that a word names where one may stand. -/
def commandHere? (scope : Scope) (collected : Collected) (argument : String) : Option Scope :=
  if scope = .program ∧ ¬(collected.pending matches .awaiting _) then
    Scope.ofName? argument
  else
    none

/-- Whether a word asks for help as a command. -/
def isHelpHere (scope : Scope) (collected : Collected) (argument : String) : Bool :=
  scope = .program && !(collected.pending matches .awaiting _) && argument = "help"

/-- Meets one argument that is no separator and names no command. -/
def readArgument (scope : Scope) (argument : String) (collected : Collected) :
    Except UsageFault Collected :=
  match readOption? scope argument collected with
  | some outcome => outcome
  | none =>
    match collected.pending with
    | .awaiting parameter => .ok (collected.supply parameter argument)
    | _ => readWord scope false argument collected

/-- Reads the words behind a separator. -/
def readWords (scope : Scope) : (arguments : List String) → Collected →
    Except UsageFault Collected
  | [], collected => .ok collected
  | argument :: rest, collected =>
    match readWord scope true argument collected with
    | .ok collected => readWords scope rest collected
    | .error fault => .error fault

/-- Reads the arguments of a scope. -/
def readArguments (scope : Scope) : (arguments : List String) → Collected →
    Except UsageFault (Collected × Ending)
  | [], collected => .ok (collected, .exhausted)
  | argument :: rest, collected =>
    if isHelpHere scope collected argument then
      .error (helpAnswer rest)
    else
      match commandHere? scope collected argument with
      | some command => .ok (collected, .command command rest)
      | none =>
        if argument = "--" then
          (readWords scope rest collected).map fun collected => (collected, .exhausted)
        else
          match readArgument scope argument collected with
          | .ok collected => readArguments scope rest collected
          | .error fault => .error fault

end EntryPoint.CommandLine
