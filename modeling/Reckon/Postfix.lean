/-
Postfix order, and how tokens in infix order are brought into it.

In postfix order every operator follows its operands, so neither precedence nor
parentheses are needed to read it.  Operands keep their order and go out at once.
An operator waits until the operand on its right is complete: until an operator
that binds no tighter arrives, its group is closed, or the tokens end.

What waits is a list of `Pending` entries, the latest first.  An opening
parenthesis waits there too, and no operator is released past it.  What becomes of
one that is never closed depends on the `Mode`, which says how much malformed input
is tolerated, here and where a value is taken from what is left over.
-/
import Reckon.Token

namespace Reckon

/-- The two ways of treating an expression that is not well formed. -/
inductive Mode
  /-- Parentheses left open are passed on, and operands left over are ignored. -/
  | lenient
  /-- Parentheses left open and operands left over are errors. -/
  | strict
  deriving DecidableEq

namespace Mode

/-- The mode that a switch stands for. -/
def ofStrict (strict : Bool) : Mode :=
  if strict then .strict else .lenient

/-- The name of a mode. -/
def name : Mode → String
  | lenient => "Lenient"
  | strict => "Strict"

end Mode

/-- Tokens in postfix order. -/
structure Postfix where
  tokens : List Token
  deriving DecidableEq

namespace Postfix

/-- The tokens, a space between any two. -/
def text (p : Postfix) : String :=
  " ".intercalate (p.tokens.map Token.text)

/-- How many tokens there are. -/
def length (p : Postfix) : Nat :=
  p.tokens.length

/-- Whether there is no token. -/
def isEmpty (p : Postfix) : Bool :=
  p.tokens.isEmpty

end Postfix

/-- What is wrong with the parentheses of an expression. -/
inductive ParenthesisError
  /-- A closing parenthesis has no opening one before it. -/
  | unopened
  /-- An opening parenthesis has no closing one behind it. -/
  | unclosed
  deriving DecidableEq

namespace ParenthesisError

/-- The error in words. -/
def message : ParenthesisError → String
  | unopened => "')' without a matching '('"
  | unclosed => "'(' is never closed"

/-- What can be done about it. -/
def help? : ParenthesisError → Option String
  | unopened => none
  | unclosed => some "add the missing ')'"

end ParenthesisError

/-- What waits for its place in postfix order. -/
inductive Pending
  | operator (op : Operator)
  | opening
  deriving DecidableEq

namespace Pending

/-- The token that an entry is released as. -/
def token : Pending → Token
  | operator op => .operator op
  | opening => .opening

/-- Whether an entry is an operator. -/
def isOperator : Pending → Bool
  | operator _ => true
  | opening => false

/--
Whether an entry goes out before `op` comes in: it is an operator that binds at
least as tightly.
-/
def yieldsTo (op : Operator) : Pending → Bool
  | operator top => op.precedence ≤ top.precedence
  | opening => false

section

variable (op top : Operator)

@[simp] theorem token_operator : token (.operator op) = .operator op := rfl

@[simp] theorem token_opening : token .opening = .opening := rfl

@[simp] theorem isOperator_operator : isOperator (.operator op) = true := rfl

@[simp] theorem isOperator_opening : isOperator .opening = false := rfl

@[simp] theorem yieldsTo_operator :
    yieldsTo op (.operator top) = decide (op.precedence ≤ top.precedence) := rfl

@[simp] theorem yieldsTo_opening : yieldsTo op .opening = false := rfl

end

/--
What one token does: the tokens that go out, and what waits from then on.  The mark
of the end does nothing, since tokens are taken only up to it.
-/
def step (waiting : List Pending) (token : Token) :
    Except ParenthesisError (List Token × List Pending) :=
  match token with
  | .number _ | .name _ => .ok ([token], waiting)
  | .operator op =>
      .ok ((waiting.takeWhile (yieldsTo op)).map Pending.token,
        .operator op :: waiting.dropWhile (yieldsTo op))
  | .opening => .ok ([], .opening :: waiting)
  | .closing =>
      match waiting.dropWhile isOperator with
      | [] => .error .unopened
      | _ :: below => .ok ((waiting.takeWhile isOperator).map Pending.token, below)
  | .finish => .ok ([], waiting)

/-- What goes out when the tokens have ended. -/
def drain (mode : Mode) (waiting : List Pending) : Except ParenthesisError (List Token) :=
  if mode = .strict ∧ .opening ∈ waiting then .error .unclosed
  else .ok (waiting.map Pending.token)

end Pending

/-- An expression on its way into postfix order. -/
structure Reordering where
  /-- What has gone out, in order. -/
  output : Array Token
  /-- What waits, the latest first. -/
  waiting : List Pending
  deriving DecidableEq

namespace Reordering

/-- Before the first token. -/
def start : Reordering :=
  ⟨#[], []⟩

/-- One token further. -/
def step (r : Reordering) (token : Token) : Except ParenthesisError Reordering :=
  (Pending.step r.waiting token).map fun next => ⟨r.output.appendList next.1, next.2⟩

end Reordering

namespace Postfix

/--
The postfix order of tokens in infix order.  Tokens from the first mark of the end
on do not count.
-/
def ofTokens (mode : Mode) (tokens : List Token) : Except ParenthesisError Postfix := do
  let r ← (tokens.takeWhile (· ≠ .finish)).foldlM Reordering.step .start
  let rest ← Pending.drain mode r.waiting
  return ⟨(r.output.appendList rest).toList⟩

end Postfix

end Reckon
