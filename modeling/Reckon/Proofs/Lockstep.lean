/-
The verdict on an expression does not depend on what its variables are worth.

Two evaluations of one text under different variables take the same tokens.  As long as
every name has a value under both, the two stacks differ in their operands but hold as
many of them, and nothing but their number decides whether a token can be taken, which
token is at fault if it cannot, and how much is left over in the end.  Only a divisor can
part the two, and then one of them divides by zero.

`Lockstep` is this relation between two outcomes.  It goes through a chain of stages, so
it is enough to see that one token keeps it.
-/
import Reckon.Proofs.Conservation

namespace Reckon

/-- Every name among some tokens has a value. -/
def Variables.Cover (vars : Variables) (tokens : List Token) : Prop :=
  ∀ name, .name name ∈ tokens → ∃ value, vars name = some value

theorem Variables.Cover.subset {vars : Variables} {tokens tokens' : List Token}
    (h : vars.Cover tokens) (hsubset : ∀ name, .name name ∈ tokens' → .name name ∈ tokens) :
    vars.Cover tokens' :=
  fun name hname => h name (hsubset name hname)

/-- Two outcomes that are alike, unless one of them divides by zero. -/
inductive Lockstep {α : Type} (alike : α → α → Prop) :
    Except ReductionError α → Except ReductionError α → Prop
  /-- Both succeed. -/
  | ok {a a' : α} (h : alike a a') : Lockstep alike (.ok a) (.ok a')
  /-- Both fail for one reason, and no name is to blame. -/
  | error {error : ReductionError} (known : ∀ name, error ≠ .unknownName name) :
      Lockstep alike (.error error) (.error error)
  /-- The first one divides by zero. -/
  | first {outcome : Except ReductionError α} :
      Lockstep alike (.error .divisionByZero) outcome
  /-- The second one does. -/
  | second {outcome : Except ReductionError α} :
      Lockstep alike outcome (.error .divisionByZero)

theorem Lockstep.bind {α β : Type} {alike : α → α → Prop} {alike' : β → β → Prop}
    {x x' : Except ReductionError α} {f f' : α → Except ReductionError β}
    (h : Lockstep alike x x') (hnext : ∀ a a', alike a a' → Lockstep alike' (f a) (f' a')) :
    Lockstep alike' (x >>= f) (x' >>= f') := by
  cases h with
  | ok h => exact hnext _ _ h
  | error known => exact .error known
  | first => exact .first
  | second => exact .second

namespace OperandStack

variable {s s' : OperandStack}

/-- Stacks that hold as many operands. -/
def SameSize (s s' : OperandStack) : Prop :=
  s.size = s'.size

theorem operate_lockstep (h : SameSize s s') (op : Operator) :
    Lockstep SameSize (s.operate op) (s'.operate op) := by
  unfold SameSize at h
  by_cases hsize : s.size < 2
  · rw [operate_of_size_lt_two hsize, operate_of_size_lt_two (h ▸ hsize)]
    exact .error (by simp)
  · obtain ⟨x, y, rest, rfl⟩ := exists_of_two_le_size (Nat.not_lt.mp hsize)
    obtain ⟨x', y', rest', rfl⟩ := exists_of_two_le_size (h ▸ Nat.not_lt.mp hsize)
    rw [operate_two, operate_two]
    rcases op.apply x y with cause | value
    · cases cause
      exact .first
    · rcases op.apply x' y' with cause | value'
      · cases cause
        exact .second
      · exact .ok (by simpa [SameSize] using h)

variable {vars vars' : Variables}

theorem take_lockstep (h : SameSize s s') {token : Token} (hvars : vars.Cover [token])
    (hvars' : vars'.Cover [token]) :
    Lockstep SameSize (s.take vars token) (s'.take vars' token) := by
  cases token with
  | number value => exact .ok (congrArg (· + 1) h)
  | name name =>
      obtain ⟨value, hvalue⟩ := hvars name (List.mem_singleton_self _)
      obtain ⟨value', hvalue'⟩ := hvars' name (List.mem_singleton_self _)
      simp only [take, hvalue, hvalue']
      exact .ok (congrArg (· + 1) h)
  | operator op => exact operate_lockstep h op
  | opening | closing | finish => exact .error (by simp)

/-- **As many operands are on both stacks all the way.** -/
theorem foldlM_take_lockstep {tokens : List Token} :
    vars.Cover tokens → vars'.Cover tokens → ∀ {s s' : OperandStack}, SameSize s s' →
      Lockstep SameSize (tokens.foldlM (take vars) s) (tokens.foldlM (take vars') s') := by
  induction tokens with
  | nil =>
      intro _ _ s s' h
      exact .ok h
  | cons token rest ih =>
      intro hvars hvars' s s' h
      have hfirst : ∀ name, .name name ∈ [token] → .name name ∈ token :: rest := by
        intro name hname
        exact List.mem_cons.mpr (Or.inl (List.mem_singleton.mp hname))
      have hrest : ∀ name, .name name ∈ rest → .name name ∈ token :: rest :=
        fun name hname => List.mem_cons_of_mem _ hname
      rw [List.foldlM_cons, List.foldlM_cons]
      refine (take_lockstep h (hvars.subset hfirst) (hvars'.subset hfirst)).bind ?_
      intro next next' hnext
      exact ih (hvars.subset hrest) (hvars'.subset hrest) hnext

theorem result_lockstep (mode : Mode) (h : SameSize s s') :
    Lockstep (fun _ _ => True) (s.result mode) (s'.result mode) := by
  rcases s with ⟨_ | ⟨top, below⟩⟩
  · obtain rfl : s' = ⟨[]⟩ := congrArg mk (List.eq_nil_of_length_eq_zero h.symm)
    exact .error (by simp)
  · obtain ⟨top', below', htop⟩ := List.exists_cons_of_length_eq_add_one h.symm
    obtain rfl : s' = ⟨top' :: below'⟩ := congrArg mk htop
    have hbelow : below.length = below'.length := by simpa [SameSize] using h
    rw [result_cons, result_cons, ← hbelow]
    by_cases hleft : mode = .strict ∧ 0 < below.length
    · rw [if_pos hleft, if_pos hleft]
      exact .error (by simp)
    · rw [if_neg hleft, if_neg hleft]
      exact .ok trivial

end OperandStack

theorem Postfix.value_lockstep (mode : Mode) {p : Postfix} {vars vars' : Variables}
    (h : vars.Cover p.tokens) (h' : vars'.Cover p.tokens) :
    Lockstep (fun _ _ => True) (p.value mode vars) (p.value mode vars') :=
  (OperandStack.foldlM_take_lockstep h h' rfl).bind fun _ _ => OperandStack.result_lockstep mode

/-- A text that does not convert fails before anything is reduced. -/
theorem Postfix.ofSource_ne_reduction {mode : Mode} {source : String} {error : Error}
    (h : Postfix.ofSource mode source = .error error) (cause : ReductionError) :
    error ≠ .reduction cause := by
  unfold Postfix.ofSource at h
  rcases Except.bind_eq_error h with hscan | ⟨tokens, -, hconvert⟩
  · obtain ⟨_, -, rfl⟩ := Except.mapError_eq_error hscan
    exact nofun
  · obtain ⟨_, -, rfl⟩ := Except.mapError_eq_error hconvert
    exact nofun

theorem evaluate_eq_reduction {mode : Mode} {vars : Variables} {source : String}
    {cause : ReductionError} (h : evaluate mode vars source = .error (.reduction cause)) :
    ∃ p, Postfix.ofSource mode source = .ok p ∧ p.value mode vars = .error cause := by
  rcases Except.bind_eq_error h with hfails | ⟨p, hp, hvalue⟩
  · exact absurd rfl (Postfix.ofSource_ne_reduction hfails cause)
  · obtain ⟨found, hfound, heq⟩ := Except.mapError_eq_error hvalue
    exact ⟨p, hp, by rw [hfound, Error.reduction.inj heq]⟩

theorem Postfix.names_of_ofSource {mode : Mode} {source : String} {p : Postfix}
    (h : Postfix.ofSource mode source = .ok p) :
    ∃ tokens, tokenize source = .ok tokens ∧
      ∀ name, .name name ∈ p.tokens → .name name ∈ tokens := by
  obtain ⟨tokens, hscan, hconvert⟩ := Postfix.ofSource_eq_ok h
  exact ⟨tokens, hscan, fun name hname => Postfix.mem_of_isOperand hconvert hname rfl⟩

theorem Variables.Cover.ofSource {mode : Mode} {source : String} {p : Postfix} {vars : Variables}
    (hp : Postfix.ofSource mode source = .ok p)
    (h : ∀ tokens, tokenize source = .ok tokens → vars.Cover tokens) : vars.Cover p.tokens := by
  obtain ⟨tokens, hscan, hnames⟩ := Postfix.names_of_ofSource hp
  exact (h tokens hscan).subset hnames

/--
**The verdict does not depend on what the variables are worth.**  Let every name of a text
have a value under both variables, and let neither evaluation divide by zero.  Then both
have a value, or both fail with one and the same error, and no name is to blame for it.
-/
theorem verdict_of_cover (mode : Mode) {source : String} {vars vars' : Variables}
    (h : ∀ tokens, tokenize source = .ok tokens → vars.Cover tokens ∧ vars'.Cover tokens)
    (hdivides : evaluate mode vars source ≠ .error (.reduction .divisionByZero))
    (hdivides' : evaluate mode vars' source ≠ .error (.reduction .divisionByZero)) :
    (∃ value value', evaluate mode vars source = .ok value ∧
      evaluate mode vars' source = .ok value') ∨
    ∃ error, evaluate mode vars source = .error error ∧ evaluate mode vars' source = .error error ∧
      ∀ name, error ≠ .reduction (.unknownName name) := by
  rcases hp : Postfix.ofSource mode source with error | p
  · have hfails : ∀ vars, evaluate mode vars source = .error error := by
      intro vars
      rw [evaluate, hp]
      rfl
    exact Or.inr ⟨error, hfails vars, hfails vars',
      fun name => Postfix.ofSource_ne_reduction hp (.unknownName name)⟩
  · have hcover := Variables.Cover.ofSource hp fun tokens hscan => (h tokens hscan).1
    have hcover' := Variables.Cover.ofSource hp fun tokens hscan => (h tokens hscan).2
    have hlockstep := Postfix.value_lockstep mode hcover hcover'
    rw [evaluate_of_ofSource hp] at hdivides hdivides' ⊢
    rw [evaluate_of_ofSource hp]
    generalize p.value mode vars = outcome at hlockstep hdivides ⊢
    generalize p.value mode vars' = outcome' at hlockstep hdivides' ⊢
    cases hlockstep with
    | @ok value value' _ => exact Or.inl ⟨value, value', rfl, rfl⟩
    | @error error known =>
        refine Or.inr ⟨.reduction error, rfl, rfl, ?_⟩
        intro name hname
        exact known name (Error.reduction.inj hname)
    | first => exact absurd rfl hdivides
    | second => exact absurd rfl hdivides'

/-- In `a/b (c)` one operand is left over, and it is so under any values with which `a/b` exists. -/
theorem verdict_of_cover_leftover :
    let vars : Variables := fun name => some (if name = "b" then 2 else 7)
    let vars' : Variables := fun name => some (if name = "a" then 0 else -3)
    let error : Error := .reduction (.leftover 1)
    ((∀ tokens, tokenize "a/b (c)" = .ok tokens → vars.Cover tokens ∧ vars'.Cover tokens) ∧
      evaluate .strict vars "a/b (c)" ≠ .error (.reduction .divisionByZero) ∧
      evaluate .strict vars' "a/b (c)" ≠ .error (.reduction .divisionByZero) ∧
      evaluate .strict vars "a/b (c)" = .error error) ∧
    evaluate .strict vars' "a/b (c)" = .error error := by
  intro vars vars' error
  have hcover : ∀ tokens, tokenize "a/b (c)" = .ok tokens →
      vars.Cover tokens ∧ vars'.Cover tokens := by
    intro tokens _
    exact ⟨fun name _ => ⟨_, rfl⟩, fun name _ => ⟨_, rfl⟩⟩
  have herror : evaluate .strict vars "a/b (c)" = .error error := by decide +kernel
  have hdivides : evaluate .strict vars "a/b (c)" ≠ .error (.reduction .divisionByZero) := by
    decide +kernel
  have hdivides' : evaluate .strict vars' "a/b (c)" ≠ .error (.reduction .divisionByZero) := by
    decide +kernel
  refine ⟨⟨hcover, hdivides, hdivides', herror⟩, ?_⟩
  rcases verdict_of_cover .strict hcover hdivides hdivides' with
    ⟨value, -, hvalue, -⟩ | ⟨found, hfound, hfound', -⟩
  · rw [herror] at hvalue
    cases hvalue
  · rw [hfound', ← hfound, herror]

end Reckon
