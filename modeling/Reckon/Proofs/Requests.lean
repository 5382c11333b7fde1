/-
What requests to a session leave as it was.

A request is about one variable at most, and no request but one chooses the mode.  So what a
text comes to in a session can only change with a variable that it mentions or with the mode,
whatever else is asked in between.  One request is looked at (`get?_perform`, `mode_perform`),
and any number of them follows.

An assignment may fail.  Then nothing of it is left, neither of the variable nor of the error.
-/
import Reckon.Session
import Reckon.Proofs.Agreement
import Reckon.Proofs.Undefined

namespace Reckon

/-- A text comes to the same under variables that agree on its names, unknown ones among them. -/
theorem evaluate_congr_names {mode : Mode} {source : String} {vars vars' : Variables}
    (h : ∀ tokens, tokenize source = .ok tokens →
      ∀ name, .name name ∈ tokens → vars' name = vars name) :
    evaluate mode vars' source = evaluate mode vars source := by
  refine evaluate_eq_of_extends ?_ ?_
  · intro tokens hscan name value hname hvalue
    rw [h tokens hscan name hname, hvalue]
  · intro name hreported
    obtain ⟨tokens, hscan, front, back, rfl, hnone, -⟩ := firstUnknown_of_evaluate hreported
    rw [h _ hscan name (by simp), hnone]

namespace Session

/-- What may change a session. -/
inductive Request
  | set (name : String) (value : Int64)
  | unset (name : String)
  | choose (mode : Mode)
  | assign (name source : String)

namespace Request

/-- The variable that a request is about. -/
def name? : Request → Option String
  | set name _ | unset name | assign name _ => some name
  | choose _ => none

/-- Whether a request is about the mode. -/
def isChoice : Request → Bool
  | choose _ => true
  | _ => false

/-- A request that a text does not mind: it is not about the mode, nor about a name of the text. -/
def Spares (request : Request) (source : String) : Prop :=
  request.isChoice = false ∧
    ∀ tokens, tokenize source = .ok tokens →
      ∀ name, request.name? = some name → .name name ∉ tokens

end Request

/-- The session after a request. -/
def perform (s : Session) : Request → Session
  | .set name value => s.set name value
  | .unset name => s.unset name
  | .choose mode => s.setMode mode
  | .assign name source => (s.assign name source).2

section

variable {s : Session} {request : Request} {requests : List Request} {source : String}

theorem get?_perform {asked : String} (h : request.name? ≠ some asked) :
    (s.perform request).get? asked = s.get? asked := by
  cases request with
  | set name value =>
      have hne : name ≠ asked := fun heq => h (congrArg some heq)
      simp [perform, hne]
  | unset name =>
      have hne : name ≠ asked := fun heq => h (congrArg some heq)
      simp [perform, hne]
  | choose mode => rfl
  | assign name source =>
      have hne : name ≠ asked := fun heq => h (congrArg some heq)
      rcases hvalue : s.evaluate source with error | value
      · simp [perform, assign_of_eq_error hvalue]
      · simp [perform, assign_of_eq_ok hvalue, hne]

theorem mode_perform (h : request.isChoice = false) : (s.perform request).mode = s.mode := by
  cases request with
  | set _ _ | unset _ => rfl
  | choose mode => simp [Request.isChoice] at h
  | assign name source =>
      rcases hvalue : s.evaluate source with error | value
      · simp [perform, assign_of_eq_error hvalue]
      · simp [perform, assign_of_eq_ok hvalue]

theorem evaluate_perform (h : request.Spares source) :
    (s.perform request).evaluate source = s.evaluate source := by
  unfold evaluate
  rw [mode_perform h.1]
  refine evaluate_congr_names ?_
  intro tokens hscan name hname
  exact get?_perform fun habout => h.2 tokens hscan name habout hname

/-- **What a text comes to changes with the mode and the variables of the text only.** -/
theorem evaluate_foldl_perform (h : ∀ request ∈ requests, request.Spares source) :
    (requests.foldl perform s).evaluate source = s.evaluate source := by
  induction requests generalizing s with
  | nil => rfl
  | cons request rest ih =>
      obtain ⟨hfirst, hrest⟩ := List.forall_mem_cons.mp h
      rw [List.foldl_cons, ih hrest, evaluate_perform hfirst]

theorem toPostfix_foldl_perform (h : ∀ request ∈ requests, request.isChoice = false) :
    (requests.foldl perform s).toPostfix source = s.toPostfix source := by
  induction requests generalizing s with
  | nil => rfl
  | cons request rest ih =>
      obtain ⟨hfirst, hrest⟩ := List.forall_mem_cons.mp h
      rw [List.foldl_cons, ih hrest, toPostfix, toPostfix, mode_perform hfirst]

/-- **An assignment that fails may as well not be asked for**, whatever follows it. -/
theorem foldl_perform_of_failed {front back : List Request} {error : Error} (name : String)
    (h : (front.foldl perform s).evaluate source = .error error) :
    (front ++ .assign name source :: back).foldl perform s = (front ++ back).foldl perform s := by
  rw [List.foldl_append, List.foldl_cons, List.foldl_append, perform, assign_of_eq_error h]

theorem get?_perform_assign {value : Int64} (name : String) (h : s.evaluate source = .ok value) :
    (s.perform (.assign name source)).get? name = some value := by
  simp [perform, assign_of_eq_ok h]

end

end Session

end Reckon
