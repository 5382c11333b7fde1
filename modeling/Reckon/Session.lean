/-
A session: what stays from one expression to the next.

Evaluating keeps nothing but its mode.  Whoever evaluates keeps the variables, and a
session is the two together.
-/
import Reckon.Evaluation

namespace Reckon

/-- What a session remembers. -/
structure Session where
  bindings : Bindings
  mode : Mode

namespace Session

/-- A new session: no variables, and the lenient mode. -/
def start : Session :=
  ⟨∅, .lenient⟩

/-- The value of a variable. -/
def get? (s : Session) (name : String) : Option Int64 :=
  s.bindings.toVariables name

/-- Gives a variable a value. -/
def set (s : Session) (name : String) (value : Int64) : Session :=
  { s with bindings := s.bindings.insert name value }

/-- Takes a variable's value away. -/
def unset (s : Session) (name : String) : Session :=
  { s with bindings := s.bindings.erase name }

/-- Chooses the mode. -/
def setMode (s : Session) (mode : Mode) : Session :=
  { s with mode := mode }

/-- The value of a text under the variables and in the mode of the session. -/
def evaluate (s : Session) (source : String) : Except Error Int64 :=
  Reckon.evaluate s.mode s.bindings.toVariables source

/-- The postfix order of a text in the mode of the session. -/
def toPostfix (s : Session) (source : String) : Except Error Postfix :=
  Postfix.ofSource s.mode source

/-- Gives a variable the value of a text. A text without a value changes nothing. -/
def assign (s : Session) (name : String) (source : String) : Except Error Int64 × Session :=
  match s.evaluate source with
  | .ok value => (.ok value, s.set name value)
  | .error error => (.error error, s)

section

variable (s : Session) (name asked : String) (value : Int64) (mode : Mode)

@[simp] theorem get?_set :
    (s.set name value).get? asked = if name = asked then some value else s.get? asked := by
  simp [set, get?]

@[simp] theorem get?_unset :
    (s.unset name).get? asked = if name = asked then none else s.get? asked := by
  simp [unset, get?]

@[simp] theorem get?_setMode : (s.setMode mode).get? asked = s.get? asked := rfl

@[simp] theorem mode_set : (s.set name value).mode = s.mode := rfl

@[simp] theorem mode_unset : (s.unset name).mode = s.mode := rfl

@[simp] theorem mode_setMode : (s.setMode mode).mode = mode := rfl

end

theorem assign_of_eq_ok {s : Session} {source : String} {value : Int64}
    (h : s.evaluate source = .ok value) (name : String) :
    s.assign name source = (.ok value, s.set name value) := by
  rw [assign, h]

theorem assign_of_eq_error {s : Session} {source : String} {error : Error}
    (h : s.evaluate source = .error error) (name : String) :
    s.assign name source = (.error error, s) := by
  rw [assign, h]

end Session

end Reckon
