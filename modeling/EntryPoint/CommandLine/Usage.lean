/-!
# Faults of a command line

The ways in which the arguments of the program can be wrong. A request for help counts among them,
since it too ends the program before it starts its work.
-/

namespace EntryPoint.CommandLine

/-- A reason for which the arguments name no work to do. -/
inductive UsageFault where
  /-- An argument that has no meaning where it stands. -/
  | unknownArgument
  /-- A word that should name a command but does not. -/
  | invalidSubcommand
  /-- Options without a command. -/
  | missingSubcommand
  /-- No arguments at all. -/
  | noArguments
  /-- A command without a value that it needs. -/
  | missingRequiredArgument
  /-- An option without its value, or with one that it does not admit. -/
  | invalidValue
  /-- A value that does not read as what it should be. -/
  | valueValidation
  /-- An option that is given twice. -/
  | argumentConflict
  /-- A value for an option that takes none. -/
  | tooManyValues
  /-- A request for help. -/
  | displayHelp
  deriving DecidableEq

/-- The exit status of the program after a fault. -/
def UsageFault.status : UsageFault → Nat
  | .displayHelp => 0
  | _ => 2

/-- The wording of a fault. -/
def UsageFault.message : UsageFault → String
  | .unknownArgument => "unexpected argument"
  | .invalidSubcommand => "unrecognized command"
  | .missingSubcommand => "a command is required"
  | .noArguments => "arguments are required"
  | .missingRequiredArgument => "a required argument was not provided"
  | .invalidValue => "a value is missing or not admitted"
  | .valueValidation => "a value cannot be read"
  | .argumentConflict => "an option was given more than once"
  | .tooManyValues => "a value was given to an option that takes none"
  | .displayHelp => "help was requested"

/-- How the program is called. -/
def usageText : String :=
  "Usage: [OPTIONS] (list | inspect FILE | resolve | emit [--group-id GROUP])\n\n"
    ++ "Options:\n"
    ++ "      --root DIR                   compiled output directory\n"
    ++ "      --classpath PATH             directory or archive to read classes from; repeats\n"
    ++ "      --marker DESCRIPTOR          annotation that marks the entry point\n"
    ++ "      --framework-package PACKAGE  package of the framework\n"
    ++ "      --exclude PACKAGE            package without candidates; repeats\n"
    ++ "      --allow-ambiguous            take the first of several entry points\n"
    ++ "  -j, --jobs N                     number of workers\n"
    ++ "      --sequential                 load classes one after the other\n"
    ++ "  -f, --format FORMAT              json or text\n"
    ++ "  -v, --verbose                    say more\n"
    ++ "  -h, --help                       show this text\n"

end EntryPoint.CommandLine
