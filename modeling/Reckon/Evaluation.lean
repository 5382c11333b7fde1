/-
From a text to its value.

An expression is read into tokens, brought into postfix order and reduced.  Each
stage has its own errors, and the first stage that fails decides.
-/
import Reckon.Reduction
import Reckon.Token.Stream

namespace Reckon

/-- Why a text has no value. -/
inductive Error
  | lexical (error : LexicalError)
  | parenthesis (error : ParenthesisError)
  | reduction (error : ReductionError)
  deriving DecidableEq

namespace Error

/-- The error in words. -/
def message : Error → String
  | lexical error => error.message
  | parenthesis error => error.message
  | reduction error => error.message

/-- What can be said about it besides. -/
def help? : Error → Option String
  | lexical _ => none
  | parenthesis error => error.help?
  | reduction error => error.help?

/-- Where in the text it is, if it has a place there. -/
def labels : Error → List Label
  | lexical error => [error.label]
  | _ => []

end Error

/-- The postfix order of a text. -/
def Postfix.ofSource (mode : Mode) (source : String) : Except Error Postfix := do
  let tokens ← (tokenize source).mapError .lexical
  (Postfix.ofTokens mode tokens).mapError .parenthesis

/-- The value of a text. -/
def evaluate (mode : Mode) (vars : Variables) (source : String) : Except Error Int64 := do
  let p ← Postfix.ofSource mode source
  (p.value mode vars).mapError .reduction

end Reckon
