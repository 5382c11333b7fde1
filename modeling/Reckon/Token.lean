/-
Tokens: what an expression is made of once white space is gone.

A token is more general than what can be read from a text.  Its number may be
negative and its name may be any string, so that a list of tokens can also be put
together by hand.
-/
import Reckon.Operator
import Reckon.Text.Decimal

namespace Reckon

/-- The tokens of an expression. -/
inductive Token
  /-- A literal. -/
  | number (value : Int64)
  /-- A variable. -/
  | name (text : String)
  /-- An operator. -/
  | operator (op : Operator)
  /-- An opening parenthesis. -/
  | opening
  /-- A closing parenthesis. -/
  | closing
  /-- The end of the expression. -/
  | finish
  deriving DecidableEq

namespace Token

/-- How a token is written. -/
def text : Token → String
  | number value => Decimal.text value
  | name text => text
  | operator op => op.symbol
  | opening => "("
  | closing => ")"
  | finish => "<eof>"

/-- Whether a token is an operand. -/
def isOperand : Token → Bool
  | number _ | name _ => true
  | _ => false

/-- Whether a token is an operator. -/
def isOperator : Token → Bool
  | operator _ => true
  | _ => false

end Token

end Reckon
