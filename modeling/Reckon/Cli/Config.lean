/-
What a run needs, resolved from the arguments.

Variables come in three layers, and a later layer overrides an earlier one: the
demonstration's own if no expression is given, those of the file, and the
definitions in their order.  The file is read before the definitions, so its error
wins.  How a file comes to bindings does not matter for that, so resolving takes any
loader, and `loadVariables` is the one that the program has.
-/
import Reckon.Cli.Arguments
import Reckon.Definition
import Reckon.VariableFile

namespace Reckon.Cli

/-- Why a file has no text. -/
inductive FileError
  | notFound
  | permissionDenied
  | notDirectory
  | isDirectory
  /-- The file is not UTF-8. -/
  | notText
  /-- Some other reason of the system's. -/
  | other (reason : String)
  deriving DecidableEq

/-- The error in the system's words. -/
def FileError.message : FileError → String
  | notFound => "No such file or directory (os error 2)"
  | permissionDenied => "Permission denied (os error 13)"
  | notDirectory => "Not a directory (os error 20)"
  | isDirectory => "Is a directory (os error 21)"
  | notText => "stream did not contain valid UTF-8"
  | other reason => reason

/-- Why arguments cannot be resolved. -/
inductive ConfigError
  /-- The file of variables has no text. -/
  | unreadable (file : String) (cause : FileError)
  /-- The file is no file of variables. -/
  | malformed (file : String)
  /-- A definition is none. -/
  | definition (error : DefinitionError)
  deriving DecidableEq

/-- The error in words, and after it what caused it. -/
def ConfigError.chain : ConfigError → List String
  | unreadable file cause => ["reading " ++ file ++ " failed", cause.message]
  | malformed file => ["parsing " ++ file ++ " failed"]
  | definition error => error.chain

/-- What a run needs. -/
structure Config where
  expression : String
  bindings : Bindings
  strict : Bool
  postfixOnly : Bool
  verbose : Bool

/-- The expression to show when none is given. -/
def demoExpression : String :=
  "(x + y * 2) * 3 > 10 && x != y"

/-- The variables of that expression. -/
def demoVariables : Bindings :=
  (∅ : Bindings).insert "x" 1 |>.insert "y" 2

/-- The variables of a file. -/
def loadVariables (readFile : String → Except FileError String) (file : String) :
    Except ConfigError Bindings :=
  match readFile file with
  | .error cause => .error (.unreadable file cause)
  | .ok text =>
      match VariableFile.parse? text with
      | none => .error (.malformed file)
      | some bindings => .ok bindings

/-- The bindings with that of one more definition. -/
def define (b : Bindings) (text : String) : Except ConfigError Bindings :=
  match Definition.parse text with
  | .ok definition => .ok (b.insert definition.name definition.value)
  | .error error => .error (.definition error)

/--
Resolves arguments, given what loading a file results in.  In a union of bindings
those on the right count where both sides bind a name.
-/
def Config.resolve (load : String → Except ConfigError Bindings) (arguments : Arguments) :
    Except ConfigError Config := do
  let own := if arguments.expression.isNone then demoVariables else ∅
  let fromFile ←
    match arguments.variableFile with
    | some file => load file
    | none => .ok ∅
  let bindings ← arguments.definitions.foldlM define (own ∪ fromFile)
  return {
    expression := arguments.expression.getD demoExpression
    bindings
    strict := arguments.strict
    postfixOnly := arguments.postfixOnly
    verbose := arguments.verbose }

end Reckon.Cli
