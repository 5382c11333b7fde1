/-
The thirteen operators, all of two operands.

Three things are known of an operator: the symbol it is written with, how tightly
it binds, and what it computes.  Computing is total but for a zero divisor.  The
values are words of sixty-four bits, so arithmetic wraps, and a comparison or a
logical operator answers one or zero.
-/

namespace Reckon

/-- The operators. -/
inductive Operator
  | mul | div | rem
  | add | sub
  | lt | gt | le | ge | eq | ne
  | and
  | or
  deriving DecidableEq

/-- What can go wrong when an operator is applied. -/
inductive ArithmeticError
  /-- The divisor is zero. -/
  | divisionByZero
  deriving DecidableEq

/-- The error in words. -/
def ArithmeticError.message : ArithmeticError → String
  | divisionByZero => "division by zero"

namespace Operator

/-- All operators, from the tightest to the loosest. -/
def all : List Operator :=
  [mul, div, rem, add, sub, lt, gt, le, ge, eq, ne, and, or]

theorem mem_all (op : Operator) : op ∈ all := by
  cases op <;> decide

/-- The symbol an operator is written with. -/
def symbol : Operator → String
  | mul => "*"
  | div => "/"
  | rem => "%"
  | add => "+"
  | sub => "-"
  | lt => "<"
  | gt => ">"
  | le => "<="
  | ge => ">="
  | eq => "=="
  | ne => "!="
  | and => "&&"
  | or => "||"

theorem symbol_injective {op op' : Operator} (h : op.symbol = op'.symbol) : op = op' := by
  cases op <;> cases op' <;> first | rfl | exact absurd h (by decide)

/-- The operator that a symbol writes, if it writes one. -/
def ofSymbol? (text : String) : Option Operator :=
  all.find? fun op => op.symbol == text

@[simp] theorem ofSymbol?_symbol (op : Operator) : ofSymbol? op.symbol = some op := by
  cases op <;> decide

/--
How tightly an operator binds: the higher, the tighter.  Operators of one
precedence group from the left.
-/
def precedence : Operator → Nat
  | mul | div | rem => 5
  | add | sub => 4
  | lt | gt | le | ge | eq | ne => 3
  | and => 2
  | or => 1

theorem one_le_precedence (op : Operator) : 1 ≤ op.precedence := by
  cases op <;> decide

theorem precedence_le_five (op : Operator) : op.precedence ≤ 5 := by
  cases op <;> decide

/-- A truth value as a number. -/
def truth (b : Bool) : Int64 :=
  if b then 1 else 0

/--
What an operator computes from its left operand `x` and its right operand `y`.
Sums, differences and products wrap; a quotient is cut toward zero and a remainder
takes the sign of `x`, so the least value divided by `-1` wraps to itself.  Any
operand but zero counts as true.
-/
def apply (op : Operator) (x y : Int64) : Except ArithmeticError Int64 :=
  match op with
  | mul => .ok (x * y)
  | div => if y = 0 then .error .divisionByZero else .ok (x / y)
  | rem => if y = 0 then .error .divisionByZero else .ok (x % y)
  | add => .ok (x + y)
  | sub => .ok (x - y)
  | lt => .ok (truth (x < y))
  | gt => .ok (truth (x > y))
  | le => .ok (truth (x ≤ y))
  | ge => .ok (truth (x ≥ y))
  | eq => .ok (truth (x = y))
  | ne => .ok (truth (x ≠ y))
  | and => .ok (truth (x ≠ 0 && y ≠ 0))
  | or => .ok (truth (x ≠ 0 || y ≠ 0))

end Operator

end Reckon
