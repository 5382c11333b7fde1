/-
The log of an evaluation.

An evaluation that keeps a log does the same as one that keeps none, and that is
`evaluateLogged_snd`.  Besides, it notes the postfix order once there is one, each
token before it is taken, and how the evaluation ended.
-/
import Reckon.Evaluation

namespace Reckon

/-- How much detail an event is about. -/
inductive Event.Level
  | debug
  | trace
  deriving DecidableEq

/-- The name of a level. -/
def Event.Level.name : Event.Level → String
  | debug => "DEBUG"
  | trace => "TRACE"

/-- What happens in an evaluation. -/
inductive Event
  /-- The expression is in postfix order. -/
  | converted (p : Postfix)
  /-- A token is about to be taken while so many operands are on the stack. -/
  | taking (token : Token) (depth : Nat)
  /-- The expression has a value. -/
  | evaluated (source : String) (value : Int64)
  /-- The expression has no value. -/
  | failed (source : String) (error : Error)
  deriving DecidableEq

namespace Event

/-- The level at which an event is logged. -/
def level : Event → Level
  | taking _ _ => .trace
  | _ => .debug

/-- What a log says of an event: the names of its fields with their texts. -/
def fields : Event → List (String × String)
  | converted p => [("message", "converted to postfix"), ("postfix", p.text)]
  | taking token depth =>
      [("message", "eval"), ("token", token.text), ("depth", Decimal.countText depth)]
  | evaluated source value =>
      [("message", "evaluated"), ("expression", source), ("value", Decimal.text value)]
  | failed source error =>
      [("message", "evaluation failed"), ("expression", source), ("err", error.message)]

end Event

namespace OperandStack

/-- Takes tokens one after the other and notes each before it is taken. -/
def takeLogged (vars : Variables) (s : OperandStack) :
    List Token → List Event × Except ReductionError OperandStack
  | [] => ([], .ok s)
  | token :: rest =>
      match s.take vars token with
      | .error error => ([.taking token s.size], .error error)
      | .ok s' =>
          let (events, outcome) := s'.takeLogged vars rest
          (.taking token s.size :: events, outcome)

theorem takeLogged_snd (vars : Variables) (s : OperandStack) (tokens : List Token) :
    (s.takeLogged vars tokens).2 = tokens.foldlM (OperandStack.take vars) s := by
  induction tokens generalizing s with
  | nil => rfl
  | cons token rest ih =>
      rw [takeLogged, List.foldlM_cons]
      cases h : s.take vars token with
      | error error => rfl
      | ok s' => exact ih s'

end OperandStack

/-- The postfix order of a text together with the log of bringing it there. -/
def Postfix.ofSourceLogged (mode : Mode) (source : String) : List Event × Except Error Postfix :=
  match Postfix.ofSource mode source with
  | .error error => ([], .error error)
  | .ok p => ([.converted p], .ok p)

/-- The event that ends a log. -/
def Event.ofOutcome (source : String) : Except Error Int64 → Event
  | .ok value => .evaluated source value
  | .error error => .failed source error

/-- The value of a text together with the log of its evaluation. -/
def evaluateLogged (mode : Mode) (vars : Variables) (source : String) :
    List Event × Except Error Int64 :=
  match Postfix.ofSource mode source with
  | .error error => ([.failed source error], .error error)
  | .ok p =>
      let (events, reduced) := OperandStack.empty.takeLogged vars p.tokens
      let outcome := (reduced >>= OperandStack.result mode).mapError Error.reduction
      (.converted p :: events ++ [.ofOutcome source outcome], outcome)

/-- **A log changes nothing about the value.** -/
theorem evaluateLogged_snd (mode : Mode) (vars : Variables) (source : String) :
    (evaluateLogged mode vars source).2 = evaluate mode vars source := by
  unfold evaluateLogged evaluate
  cases h : Postfix.ofSource mode source with
  | error error => rfl
  | ok p =>
      show ((OperandStack.empty.takeLogged vars p.tokens).2 >>= _).mapError _ = _
      rw [OperandStack.takeLogged_snd]
      rfl

end Reckon
