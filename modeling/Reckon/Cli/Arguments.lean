/-
The command line: which options there are, and how arguments are read.

Arguments are read from left to right, and the first one that does not fit ends the
reading.  A request for help only makes a note: reading goes on, and the help is
shown in the end unless another option follows.
-/

namespace Reckon.Cli

/-- What the arguments ask for. -/
structure Arguments where
  expression : Option String
  /-- The definitions, in the order they are given. -/
  definitions : List String
  /-- The name of a file of variables. -/
  variableFile : Option String
  strict : Bool
  /-- Whether to show the postfix order in place of the value. -/
  postfixOnly : Bool
  verbose : Bool
  deriving DecidableEq

/-- Why a command line leads to no evaluation. -/
inductive EarlyExit
  /-- Help is asked for. -/
  | help
  /-- No option is called so, or there is an expression already. -/
  | unrecognized (argument : String)
  /-- The arguments end where the value of an option is due. -/
  | missingValue (option : String)
  /-- An option that takes one value has two. -/
  | duplicate (option value : String)
  /-- An option follows a request for help. -/
  | trailing
  deriving DecidableEq

namespace EarlyExit

/-- The help. -/
def helpLines : List String :=
  ["Usage: shunt [-D <define...>] [--vars <vars>] [--strict] [--postfix] [-v] [--] [<expression>]",
    "",
    "Evaluate an integer expression. Without an expression a built-in demo is run.",
    "",
    "Positional Arguments:",
    "  expression",
    "",
    "Options:",
    "  -D, --define      define a variable as name=value",
    "  --vars            TOML file of variable definitions",
    "  --strict          reject unclosed parentheses and leftover operands",
    "  --postfix         print the postfix form instead of evaluating",
    "  -v, --verbose     log evaluation steps",
    "  --help, help      display usage information"]

/-- What is shown. -/
def output : EarlyExit → String
  | help => String.join (helpLines.map (· ++ "\n"))
  | unrecognized argument => "Unrecognized argument: " ++ argument ++ "\n"
  | missingValue option => "No value provided for option '" ++ option ++ "'.\n"
  | duplicate option value =>
      "Error parsing option '" ++ option ++ "' with value '" ++ value ++
        "': duplicate values provided\n"
  | trailing => "Trailing arguments are not allowed after `help`."

/-- Whether the command line was all right. -/
def isSuccess : EarlyExit → Bool
  | help => true
  | _ => false

end EarlyExit

/-- The options that take the next argument as their value. -/
inductive ValueOption
  | definition
  | variableFile
  deriving DecidableEq

/-- A command line that is being read. -/
structure Reading where
  arguments : Arguments
  /-- The option whose value is due, and how it was written. -/
  awaiting : Option (ValueOption × String)
  helpAsked : Bool
  /-- Whether all that follows is positional. -/
  optionsEnded : Bool
  deriving DecidableEq

namespace Reading

/-- Before the first argument. -/
def start : Reading :=
  ⟨⟨none, [], none, false, false, false⟩, none, false, false⟩

/-- An argument that is no option. There is room for one, the expression. -/
def positional (r : Reading) (argument : String) : Except EarlyExit Reading :=
  if r.arguments.expression.isSome then .error (.unrecognized argument)
  else .ok { r with arguments := { r.arguments with expression := some argument } }

/-- An argument that begins with a hyphen. -/
def option (r : Reading) (argument : String) : Except EarlyExit Reading :=
  match argument with
  | "-D" | "--define" => .ok { r with awaiting := some (.definition, argument) }
  | "--vars" => .ok { r with awaiting := some (.variableFile, argument) }
  | "--strict" => .ok { r with arguments := { r.arguments with strict := true } }
  | "--postfix" => .ok { r with arguments := { r.arguments with postfixOnly := true } }
  | "-v" | "--verbose" => .ok { r with arguments := { r.arguments with verbose := true } }
  | _ => .error (.unrecognized argument)

/-- The value of the option that awaits one, whatever it looks like. -/
def value (r : Reading) (option : ValueOption) (written argument : String) :
    Except EarlyExit Reading :=
  let r := { r with awaiting := none }
  match option with
  | .definition =>
      .ok { r with arguments :=
        { r.arguments with definitions := r.arguments.definitions ++ [argument] } }
  | .variableFile =>
      if r.arguments.variableFile.isSome then .error (.duplicate written argument)
      else .ok { r with arguments := { r.arguments with variableFile := some argument } }

/-- One argument further. -/
def step (r : Reading) (argument : String) : Except EarlyExit Reading :=
  match r.awaiting with
  | some (option, written) => r.value option written argument
  | none =>
      if r.optionsEnded then r.positional argument
      else if argument = "--help" ∨ argument = "help" then .ok { r with helpAsked := true }
      else if argument.toList.head? = some '-' then
        if argument = "--" then .ok { r with optionsEnded := true }
        else if r.helpAsked then .error .trailing
        else r.option argument
      else r.positional argument

/-- The outcome when there is no argument any more. -/
def finish (r : Reading) : Except EarlyExit Arguments :=
  match r.awaiting with
  | some (_, written) => .error (.missingValue written)
  | none => if r.helpAsked then .error .help else .ok r.arguments

end Reading

/-- Reads a command line. -/
def Arguments.parse (arguments : List String) : Except EarlyExit Arguments := do
  let r ← arguments.foldlM Reading.step .start
  r.finish

end Reckon.Cli
