/-
Expressions as trees, and what they mean.

A tree knows neither precedence nor parentheses nor a stack.  Its meaning is
`Expr.value`, by recursion: the left operand first, then the right one, then the
operator.  Its postfix order is `Expr.postorder`.  Both are what reading a text and
reducing it are measured by.

How tokens in infix order group into a tree is told by a grammar, `Expr.Derives`.
It has a level for each precedence and one more for what needs no grouping:
operands and whatever stands in parentheses.  A phrase of a level has an operator of
just that precedence outside parentheses, or it is a phrase of the next level.  The
left side of an operator may be of its own level and the right side may not, which
is what grouping from the left means.
-/
import Reckon.Reduction

namespace Reckon

/-- Expressions: operands, and operators with their two sides. -/
inductive Expr
  | number (value : Int64)
  | name (text : String)
  | operation (op : Operator) (left right : Expr)
  deriving DecidableEq

namespace Expr

/--
What an expression is worth.  Both sides count, whatever the left one is worth, and
the first failure from left to right decides.
-/
def value (vars : Variables) : Expr → Except ReductionError Int64
  | number value => .ok value
  | name text =>
      match vars text with
      | some value => .ok value
      | none => .error (.unknownName text)
  | operation op left right => do
      let x ← left.value vars
      let y ← right.value vars
      (op.apply x y).mapError .ofArithmetic

/-- The tokens of an expression, each operator behind its sides. -/
def postorder : Expr → List Token
  | number value => [.number value]
  | name text => [.name text]
  | operation op left right => left.postorder ++ right.postorder ++ [.operator op]

end Expr

/--
Derivations: `Derives level tokens e` says that `tokens` are a phrase of `level` and
that they mean `e`.
-/
inductive Expr.Derives : Nat → List Token → Expr → Prop
  | number (value : Int64) : Derives 6 [.number value] (.number value)
  | name (text : String) : Derives 6 [.name text] (.name text)
  | group {tokens : List Token} {e : Expr} (inner : Derives 1 tokens e) :
      Derives 6 (.opening :: tokens ++ [.closing]) e
  | lift {level : Nat} {tokens : List Token} {e : Expr} (positive : 1 ≤ level)
      (tighter : Derives (level + 1) tokens e) : Derives level tokens e
  | operation (op : Operator) {left right : List Token} {x y : Expr}
      (leftSide : Derives op.precedence left x)
      (rightSide : Derives (op.precedence + 1) right y) :
      Derives op.precedence (left ++ .operator op :: right) (.operation op x y)

end Reckon
