/-
Reducing postfix order to a value.

Tokens are taken from left to right.  An operand goes onto the stack, and an
operator takes its two operands off and puts its result back.  Nothing else may
occur in postfix order.  In the end the value is the topmost operand.  Operands
below it are left over, which the lenient mode ignores.

Both operands of an operator are reduced before it, so a failure on either side is
met whatever the other side is worth.

Names are only ever looked up, so all that is given of them is a look-up.  Where
they are set and unset too, they are kept as `Bindings`, and a look-up is made from
those.
-/
import Reckon.OperandStack
import Reckon.Postfix
import Std.Data.TreeMap.Lemmas

namespace Reckon

/-- The value of each name that has one. -/
abbrev Variables := String → Option Int64

/-- Names with their values, each name once. -/
abbrev Bindings := Std.TreeMap String Int64

namespace Bindings

/-- The look-up in some bindings. -/
def toVariables (b : Bindings) : Variables :=
  fun name => b[name]?

@[simp] theorem toVariables_insert (b : Bindings) (name : String) (value : Int64)
    (asked : String) :
    toVariables (b.insert name value) asked =
      if name = asked then some value else b.toVariables asked := by
  simp only [toVariables, Std.TreeMap.getElem?_insert, Std.LawfulEqCmp.compare_eq_iff_eq]

@[simp] theorem toVariables_erase (b : Bindings) (name asked : String) :
    toVariables (b.erase name) asked = if name = asked then none else b.toVariables asked := by
  simp only [toVariables, Std.TreeMap.getElem?_erase, Std.LawfulEqCmp.compare_eq_iff_eq]

@[simp] theorem toVariables_union (lower upper : Bindings) (name : String) :
    toVariables (lower ∪ upper) name = (upper.toVariables name).or (lower.toVariables name) := by
  simp only [toVariables, Std.TreeMap.getElem?_union]

end Bindings

/-- Why postfix order has no value. -/
inductive ReductionError
  /-- No operand is left in the end. -/
  | emptyResult
  /-- An operator has fewer than two operands before it. -/
  | missingOperand
  /-- A name has no value. -/
  | unknownName (name : String)
  /-- A token that has no place in postfix order. -/
  | misplaced (token : Token)
  /-- A divisor is zero. -/
  | divisionByZero
  /-- So many operands are below the value. -/
  | leftover (count : Nat)
  deriving DecidableEq

namespace ReductionError

/-- The error in words. -/
def message : ReductionError → String
  | emptyResult => "empty result"
  | missingOperand => "stack underflow: an operator is missing an operand"
  | unknownName name => "unknown identifier: " ++ name
  | misplaced token => "incorrect input token: " ++ token.text
  | divisionByZero => "division by zero"
  | leftover count => Decimal.countText count ++ " operands left without an operator"

/-- What can be said about it besides. -/
def help? : ReductionError → Option String
  | emptyResult => some "the expression produced no value"
  | _ => none

/-- A stack without operands means that an operator lacks one. -/
def ofStack : OperandStack.Error → ReductionError
  | .underflow => missingOperand

/-- A failure of an operator. -/
def ofArithmetic : ArithmeticError → ReductionError
  | .divisionByZero => divisionByZero

end ReductionError

namespace OperandStack

/-- Applies an operator to the two topmost operands, of which the right one is on top. -/
def operate (s : OperandStack) (op : Operator) : Except ReductionError OperandStack := do
  let (y, s) ← s.pop.mapError .ofStack
  let (x, s) ← s.pop.mapError .ofStack
  let value ← (op.apply x y).mapError .ofArithmetic
  return s.push value

/-- What one token of postfix order does to the stack. -/
def take (vars : Variables) (s : OperandStack) (token : Token) :
    Except ReductionError OperandStack :=
  match token with
  | .number value => .ok (s.push value)
  | .name name =>
      match vars name with
      | some value => .ok (s.push value)
      | none => .error (.unknownName name)
  | .operator op => s.operate op
  | .opening | .closing | .finish => .error (.misplaced token)

/-- The value that a stack stands for in the end. -/
def result (mode : Mode) (s : OperandStack) : Except ReductionError Int64 :=
  match s.pop with
  | .error _ => .error .emptyResult
  | .ok (value, below) =>
      if mode = .strict ∧ ¬ below.isEmpty then .error (.leftover below.size) else .ok value

end OperandStack

namespace Postfix

/-- The operands that are there when all tokens are taken. -/
def reduce (vars : Variables) (p : Postfix) : Except ReductionError OperandStack :=
  p.tokens.foldlM (OperandStack.take vars) .empty

/-- The value of an expression in postfix order. -/
def value (mode : Mode) (vars : Variables) (p : Postfix) : Except ReductionError Int64 := do
  let stack ← p.reduce vars
  stack.result mode

end Postfix

end Reckon
