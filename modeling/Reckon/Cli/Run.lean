/-
A run of the program, from its arguments to what it shows and what it logs.
-/
import Reckon.Cli.Config
import Reckon.Trace

namespace Reckon.Cli

/-- What a run shows: the value of the expression or its postfix order, on a line. -/
def Config.run (c : Config) : Except Error String :=
  let mode := Mode.ofStrict c.strict
  if c.postfixOnly then
    (Postfix.ofSource mode c.expression).map fun p => p.text ++ "\n"
  else
    (evaluate mode c.bindings.toVariables c.expression).map fun value => Decimal.text value ++ "\n"

/-- What a run goes through once its arguments are resolved. -/
def Config.events (c : Config) : List Event :=
  let mode := Mode.ofStrict c.strict
  if c.postfixOnly then (Postfix.ofSourceLogged mode c.expression).1
  else (evaluateLogged mode c.bindings.toVariables c.expression).1

/-- What a log says of the arguments. -/
def Config.fields (c : Config) : List (String × String) :=
  [("message", "configured"), ("expression", c.expression),
    ("variables", Decimal.countText c.bindings.size), ("strict", toString c.strict)]

/--
What a run logs, field by field: the arguments, and then what it goes through.  Details
are left out, so the single steps of an evaluation are.
-/
def Config.log (c : Config) : List (List (String × String)) :=
  if c.verbose then c.fields :: (c.events.filter fun e => e.level = .debug).map Event.fields
  else []

/-- How a run ends. -/
inductive Outcome
  /-- Reading the arguments ends it. -/
  | exited (exit : EarlyExit)
  /-- The arguments cannot be resolved. -/
  | unresolved (error : ConfigError)
  /-- The expression fails. -/
  | failed (config : Config) (error : Error)
  /-- There is something to show. -/
  | shown (config : Config) (output : String)

/-- What arguments that have been read lead to. -/
def conclude (readFile : String → Except FileError String) (arguments : Arguments) : Outcome :=
  match Config.resolve (loadVariables readFile) arguments with
  | .error error => .unresolved error
  | .ok config =>
      match config.run with
      | .error error => .failed config error
      | .ok output => .shown config output

/-- What a command line leads to, given what reading a file results in. -/
def run (readFile : String → Except FileError String) (arguments : List String) : Outcome :=
  match Arguments.parse arguments with
  | .error exit => .exited exit
  | .ok arguments => conclude readFile arguments

end Reckon.Cli
