/-
The stack of operands on which postfix order is reduced.
-/

namespace Reckon

/-- Operands, the topmost first. -/
structure OperandStack where
  topmostFirst : List Int64
  deriving DecidableEq

namespace OperandStack

/-- What can go wrong on a stack. -/
inductive Error
  /-- There is nothing to take off. -/
  | underflow
  deriving DecidableEq

/-- The error in words. -/
def Error.message : Error → String
  | underflow => "pop from an empty stack"

/-- The stack without operands. -/
def empty : OperandStack :=
  ⟨[]⟩

/-- Puts an operand on top. -/
def push (s : OperandStack) (value : Int64) : OperandStack :=
  ⟨value :: s.topmostFirst⟩

/-- Takes the topmost operand off. -/
def pop (s : OperandStack) : Except Error (Int64 × OperandStack) :=
  match s.topmostFirst with
  | [] => .error .underflow
  | value :: rest => .ok (value, ⟨rest⟩)

/-- How many operands there are. -/
def size (s : OperandStack) : Nat :=
  s.topmostFirst.length

/-- Whether there is no operand. -/
def isEmpty (s : OperandStack) : Bool :=
  s.topmostFirst.isEmpty

/-- The operands from the bottom to the top. -/
def toList (s : OperandStack) : List Int64 :=
  s.topmostFirst.reverse

section

variable (s : OperandStack) (value : Int64) (values : List Int64)

@[simp] theorem size_mk : size ⟨values⟩ = values.length := rfl

@[simp] theorem size_empty : empty.size = 0 := rfl

@[simp] theorem size_push : (s.push value).size = s.size + 1 := rfl

@[simp] theorem toList_mk : toList ⟨values⟩ = values.reverse := rfl

@[simp] theorem toList_empty : empty.toList = [] := rfl

@[simp] theorem toList_push : (s.push value).toList = s.toList ++ [value] := by
  simp [push, toList]

@[simp] theorem length_toList : s.toList.length = s.size := by
  simp [toList, size]

@[simp] theorem pop_empty : empty.pop = .error .underflow := rfl

@[simp] theorem pop_push : (s.push value).pop = .ok (value, s) := rfl

end

end OperandStack

end Reckon
