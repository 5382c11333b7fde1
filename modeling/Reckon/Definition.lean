/-
Definitions of variables, written `name=value`.

The first equals sign separates the two, so a name holds none.  White space around
either part does not count.  The value is a decimal number of sixty-four bits.
-/
import Reckon.Text.CharacterClass
import Reckon.Text.Decimal

namespace Reckon

/-- A variable with its value. -/
structure Definition where
  name : String
  value : Int64
  deriving DecidableEq

/-- Why a text is no definition. -/
inductive DefinitionError
  /-- The text holds no equals sign. -/
  | missingEquals (text : String)
  /-- There is no name before the equals sign of the text. -/
  | missingName (text : String)
  /-- The value of the name is no number. -/
  | badValue (name : String) (cause : Decimal.Error)
  deriving DecidableEq

/-- The error in words, and after it what caused it. -/
def DefinitionError.chain : DefinitionError → List String
  | missingEquals text => ["expected name=value, found '" ++ text ++ "'"]
  | missingName text => ["missing variable name in '" ++ text ++ "'"]
  | badValue name cause => ["value of '" ++ name ++ "' is not an integer", cause.message]

/-- Reads a definition. -/
def Definition.parse (text : String) : Except DefinitionError Definition :=
  let before := text.toList.takeWhile (· ≠ '=')
  match text.toList.dropWhile (· ≠ '=') with
  | [] => .error (.missingEquals text)
  | _ :: after =>
      let name := String.ofList (trim before)
      if name.isEmpty then .error (.missingName text)
      else
        match Decimal.read (trim after) with
        | .ok value => .ok ⟨name, value⟩
        | .error cause => .error (.badValue name cause)

end Reckon
