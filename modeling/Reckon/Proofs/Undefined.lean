/-
Which name is reported when several have no value.

It is the leftmost one in the text.  Reducing goes through postfix order and not through
the text, but operands are in the same order in both, so the leftmost name without a value
is the same one (`SameParts.firstUnknown_iff`).  Reducing that comes to this name stops
there, and reducing that stops before has an operator at fault, since every name so far has a
value and parentheses that are never closed stand behind all operands.
-/
import Reckon.Proofs.Lockstep

namespace Reckon

/-! ### The leftmost name without a value -/

/-- The leftmost name among some tokens that has no value: all names before it have one. -/
def Variables.FirstUnknown (vars : Variables) (tokens : List Token) (name : String) : Prop :=
  ∃ front back, tokens = front ++ .name name :: back ∧ vars name = none ∧ vars.Cover front

section

variable {vars : Variables} {tokens tokens' : List Token} {name : String}

theorem Variables.exists_firstUnknown :
    ∀ {tokens : List Token}, .name name ∈ tokens → vars name = none →
      ∃ first, vars.FirstUnknown tokens first := by
  intro tokens hmem hunknown
  induction tokens with
  | nil => cases hmem
  | cons token rest ih =>
      by_cases hfirst : ∃ text, token = .name text ∧ vars text = none
      · obtain ⟨text, rfl, htext⟩ := hfirst
        exact ⟨text, [], rest, rfl, htext, by simp [Cover]⟩
      · have hrest : .name name ∈ rest := by
          rcases List.mem_cons.mp hmem with heq | hrest
          · exact absurd ⟨name, heq.symm, hunknown⟩ hfirst
          · exact hrest
        obtain ⟨first, front, back, rfl, hnone, hcover⟩ := ih hrest
        refine ⟨first, token :: front, back, rfl, hnone, ?_⟩
        intro text htext
        rcases List.mem_cons.mp htext with heq | hlater
        · exact Option.ne_none_iff_exists'.mp fun hnone => hfirst ⟨text, heq.symm, hnone⟩
        · exact hcover text hlater

/-- Only operands count, since names are operands. -/
theorem Variables.cover_filter_iff :
    vars.Cover (tokens.filter Token.isOperand) ↔ vars.Cover tokens := by
  simp [Cover, Token.isOperand]

theorem Variables.firstUnknown_filter_iff :
    vars.FirstUnknown (tokens.filter Token.isOperand) name ↔ vars.FirstUnknown tokens name := by
  constructor
  · rintro ⟨front, back, hsplit, hunknown, hcover⟩
    obtain ⟨before, behind, rfl, rfl, hbehind⟩ := List.filter_eq_append_iff.mp hsplit
    obtain ⟨between, after, rfl, hbetween, -, -⟩ := List.filter_eq_cons_iff.mp hbehind
    refine ⟨before ++ between, after, by simp, hunknown, ?_⟩
    rw [← cover_filter_iff, List.filter_append, List.filter_eq_nil_iff.mpr hbetween,
      List.append_nil]
    exact hcover
  · rintro ⟨front, back, rfl, hunknown, hcover⟩
    refine ⟨front.filter Token.isOperand, back.filter Token.isOperand, ?_, hunknown,
      cover_filter_iff.mpr hcover⟩
    rw [List.filter_append, List.filter_cons_of_pos rfl]

/-- So the leftmost name without a value is the same wherever operands are in the same order. -/
theorem SameParts.firstUnknown_iff (h : SameParts tokens tokens') :
    vars.FirstUnknown tokens name ↔ vars.FirstUnknown tokens' name := by
  rw [← Variables.firstUnknown_filter_iff, h.operands, Variables.firstUnknown_filter_iff]

end

/-! ### Reducing -/

namespace OperandStack

variable {vars : Variables} {s s' : OperandStack} {tokens : List Token} {name : String}

theorem cover_of_foldlM_take (h : tokens.foldlM (take vars) s = .ok s') : vars.Cover tokens := by
  intro name hmem
  obtain ⟨before, behind, htake⟩ := Except.exists_of_foldlM_eq_ok h _ hmem
  rcases hname : vars name with _ | value
  · simp [take, hname] at htake
  · exact ⟨value, rfl⟩

/-- A name that is reported is the leftmost one without a value. -/
theorem firstUnknown_of_foldlM_take
    (h : tokens.foldlM (take vars) s = .error (.unknownName name)) :
    vars.FirstUnknown tokens name := by
  obtain ⟨front, token, back, s', rfl, hfront, htake⟩ := Except.exists_of_foldlM_eq_error h
  cases take_eq_error htake with
  | unknownName undefined => exact ⟨front, back, rfl, undefined, cover_of_foldlM_take hfront⟩

/--
Reducing comes to the leftmost name without a value, or an operator stops it before, provided
that there is nothing but operands and operators in front of the name.
-/
theorem foldlM_take_of_unknown {front back : List Token} (hcover : vars.Cover front)
    (hplain : ∀ token ∈ front, token.isOperand = true ∨ token.isOperator = true)
    (hunknown : vars name = none) :
    ∃ error, (front ++ .name name :: back).foldlM (take vars) s = .error error ∧
      (error = .unknownName name ∨ error = .missingOperand ∨ error = .divisionByZero) := by
  rw [List.foldlM_append]
  rcases hfront : front.foldlM (take vars) s with error | s'
  · refine ⟨error, rfl, Or.inr ?_⟩
    obtain ⟨token, hmem, hfault⟩ := foldlM_take_eq_error hfront
    cases hfault with
    | @unknownName text undefined =>
        obtain ⟨value, hvalue⟩ := hcover text hmem
        rw [undefined] at hvalue
        cases hvalue
    | missingOperand op => exact Or.inl rfl
    | divisionByZero op => exact Or.inr rfl
    | opening | closing | finish => simpa [Token.isOperand, Token.isOperator] using hplain _ hmem
  · refine ⟨.unknownName name, ?_, Or.inl rfl⟩
    show (take vars s' (.name name) >>= _) = _
    rw [take, hunknown]
    rfl

theorem result_ne_unknownName (mode : Mode) (s : OperandStack) (name : String) :
    s.result mode ≠ .error (.unknownName name) := by
  rcases s with ⟨_ | ⟨value, below⟩⟩
  · rw [result_nil]
    exact nofun
  · rw [result_cons]
    split_ifs <;> exact nofun

end OperandStack

/-! ### What a text comes to -/

section

variable {mode : Mode} {vars : Variables} {source : String}

theorem firstUnknown_of_evaluate {name : String}
    (h : evaluate mode vars source = .error (.reduction (.unknownName name))) :
    ∃ tokens, tokenize source = .ok tokens ∧ vars.FirstUnknown tokens name := by
  obtain ⟨p, hp, hvalue⟩ := evaluate_eq_reduction h
  obtain ⟨tokens, hscan, hconvert⟩ := Postfix.ofSource_eq_ok hp
  have hparts := Postfix.sameParts_of_tokenize hscan hconvert
  refine ⟨tokens, hscan, hparts.firstUnknown_iff.mp ?_⟩
  rcases Except.bind_eq_error hvalue with hreduce | ⟨s, -, hresult⟩
  · exact OperandStack.firstUnknown_of_foldlM_take hreduce
  · exact absurd hresult (s.result_ne_unknownName mode name)

/-- The leftmost name without a value is reported, unless an operator fails before. -/
theorem evaluate_of_firstUnknown {tokens : List Token} {p : Postfix} {name : String}
    (hscan : tokenize source = .ok tokens) (hp : Postfix.ofTokens mode tokens = .ok p)
    (h : vars.FirstUnknown tokens name) :
    ∃ error, evaluate mode vars source = .error (.reduction error) ∧
      (error = .unknownName name ∨ error = .missingOperand ∨ error = .divisionByZero) := by
  have hparts := Postfix.sameParts_of_tokenize hscan hp
  obtain ⟨front, back, hsplit, hunknown, hcover⟩ := hparts.firstUnknown_iff.mpr h
  have hplain := Postfix.plain_of_isOperand hp hsplit rfl
  obtain ⟨error, hreduce, hcases⟩ :=
    OperandStack.foldlM_take_of_unknown hcover hplain hunknown
  rw [← hsplit] at hreduce
  refine ⟨error, ?_, hcases⟩
  rw [evaluate_of_tokenize hscan, hp]
  show (p.value mode vars).mapError Error.reduction = _
  rw [Postfix.value_of_reduce_error hreduce]
  rfl

end

/--
**The name that is reported is the leftmost one without a value.**  If an evaluation fails
for a name, all names to the left of it have values.  Conversely, let a text scan and
convert, and let some name in it have no value.  Then there is a leftmost such name, and
either this name is reported, or an operator lacks an operand, or it divides by zero.  So
there is no value then, nor does the evaluation fail because of what is left in the end or of
a parenthesis that is left open.
-/
theorem unknownName_leftmost (mode : Mode) (vars : Variables) (source : String) :
    (∀ name, evaluate mode vars source = .error (.reduction (.unknownName name)) →
      ∃ tokens, tokenize source = .ok tokens ∧ vars.FirstUnknown tokens name) ∧
    ∀ tokens p, tokenize source = .ok tokens → Postfix.ofTokens mode tokens = .ok p →
      ∀ unknown, .name unknown ∈ tokens → vars unknown = none →
        ∃ name, vars.FirstUnknown tokens name ∧
          (evaluate mode vars source = .error (.reduction (.unknownName name)) ∨
            evaluate mode vars source = .error (.reduction .missingOperand) ∨
            evaluate mode vars source = .error (.reduction .divisionByZero)) := by
  refine ⟨fun name => firstUnknown_of_evaluate, ?_⟩
  intro tokens p hscan hp unknown hmem hunknown
  obtain ⟨name, hfirst⟩ := Variables.exists_firstUnknown hmem hunknown
  refine ⟨name, hfirst, ?_⟩
  obtain ⟨error, hevaluate, hcases⟩ := evaluate_of_firstUnknown hscan hp hfirst
  rw [hevaluate]
  rcases hcases with rfl | rfl | rfl
  · exact Or.inl rfl
  · exact Or.inr (Or.inl rfl)
  · exact Or.inr (Or.inr rfl)

/--
In `x*(1-y)+z` it is `y` that is reported, although `-` comes before `*` and `+` comes last.
In `1/(x-4)+y(` the division comes before `y`, and the parenthesis left open is not met.
-/
theorem unknownName_leftmost_between :
    let vars : Variables := fun name => if name = "x" then some 4 else none
    let tokens : List Token := [.number 1, .operator .div, .opening, .name "x", .operator .sub,
      .number 4, .closing, .operator .add, .name "y", .opening, .finish]
    let p : Postfix := ⟨[.number 1, .name "x", .number 4, .operator .sub, .operator .div,
      .name "y", .opening, .operator .add]⟩
    (evaluate .strict vars "x*(1-y)+z" = .error (.reduction (.unknownName "y")) ∧
      tokenize "1/(x-4)+y(" = .ok tokens ∧ Postfix.ofTokens .lenient tokens = .ok p ∧
      .name "y" ∈ tokens ∧ vars "y" = none) ∧
    (∃ found, tokenize "x*(1-y)+z" = .ok found ∧ vars.FirstUnknown found "y") ∧
      ∃ name, vars.FirstUnknown tokens name ∧
        (evaluate .lenient vars "1/(x-4)+y(" = .error (.reduction (.unknownName name)) ∨
          evaluate .lenient vars "1/(x-4)+y(" = .error (.reduction .missingOperand) ∨
          evaluate .lenient vars "1/(x-4)+y(" = .error (.reduction .divisionByZero)) := by
  intro vars tokens p
  have hunknown : evaluate .strict vars "x*(1-y)+z" = .error (.reduction (.unknownName "y")) := by
    decide +kernel
  have hscan : tokenize "1/(x-4)+y(" = .ok tokens := by decide +kernel
  have hp : Postfix.ofTokens .lenient tokens = .ok p := by decide
  have hmem : .name "y" ∈ tokens := by decide
  obtain ⟨hleftmost, -⟩ := unknownName_leftmost .strict vars "x*(1-y)+z"
  obtain ⟨-, hreported⟩ := unknownName_leftmost .lenient vars "1/(x-4)+y("
  exact ⟨⟨hunknown, hscan, hp, hmem, rfl⟩, hleftmost "y" hunknown,
    hreported tokens p hscan hp "y" hmem rfl⟩

end Reckon
