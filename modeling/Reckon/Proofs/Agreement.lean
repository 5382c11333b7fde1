/-
Only the variables that are looked up matter.

Let other variables give every name of a text that has a value the same value.  They may give
values to more names, and anything to names that are not in the text.  Then reducing goes the
same way under both, token by token, until it comes to a name without a value.  There it stops,
so what the others make of later names is never asked.  If the name has no value under the
others either, both stop with the same error.

So there is one condition for a token, for a run and for a text: a name that is reported has no
value under the other variables.  Given that, the two outcomes are one, whether they are a value
or an error of any kind.
-/
import Reckon.Proofs.Lockstep

namespace Reckon

/-- Every name among some tokens that has a value under `vars` has the same one under `vars'`. -/
def Variables.Extends (vars' vars : Variables) (tokens : List Token) : Prop :=
  ∀ name value, .name name ∈ tokens → vars name = some value → vars' name = some value

section

variable {vars vars' : Variables}

theorem Variables.Extends.subset {tokens tokens' : List Token} (h : vars'.Extends vars tokens)
    (hsubset : ∀ name, .name name ∈ tokens' → .name name ∈ tokens) :
    vars'.Extends vars tokens' :=
  fun name value hname => h name value (hsubset name hname)

theorem Variables.extends_cons {token : Token} {rest : List Token} :
    vars'.Extends vars (token :: rest) ↔ vars'.Extends vars [token] ∧ vars'.Extends vars rest := by
  simp only [Variables.Extends, List.mem_cons, List.not_mem_nil, or_false]
  constructor
  · intro h
    exact ⟨fun name value hname => h name value (Or.inl hname),
      fun name value hname => h name value (Or.inr hname)⟩
  · intro h name value hname
    by_cases hfirst : .name name = token
    · exact h.1 name value hfirst
    · exact h.2 name value (hname.resolve_left hfirst)

namespace OperandStack

/-- Only a name that has no value can tell the variables apart. -/
theorem take_of_extends {s : OperandStack} {token : Token} (h : vars'.Extends vars [token])
    (hunknown : ∀ name, s.take vars token = .error (.unknownName name) → vars' name = none) :
    s.take vars' token = s.take vars token := by
  cases token with
  | name name =>
      by_cases hname : vars name = none
      · have hreported : s.take vars (.name name) = .error (.unknownName name) := by
          simp [take, hname]
        simp [take, hname, hunknown name hreported]
      · obtain ⟨value, hvalue⟩ := Option.ne_none_iff_exists'.mp hname
        simp [take, hvalue, h name value (by simp) hvalue]
  | number _ | operator _ | opening | closing | finish => rfl

/-- **Two runs are one**, up to a name that has a value in the second run only. -/
theorem foldlM_take_of_extends {tokens : List Token} :
    ∀ {s : OperandStack}, vars'.Extends vars tokens →
      (∀ name, tokens.foldlM (take vars) s = .error (.unknownName name) → vars' name = none) →
      tokens.foldlM (take vars') s = tokens.foldlM (take vars) s := by
  induction tokens with
  | nil =>
      intro s _ _
      rfl
  | cons token rest ih =>
      intro s h hunknown
      obtain ⟨hfirst, hrest⟩ := Variables.extends_cons.mp h
      simp only [List.foldlM_cons] at hunknown ⊢
      -- A name that stops the first token stops the run, so the condition holds of the token.
      have htake : s.take vars' token = s.take vars token := by
        refine take_of_extends hfirst ?_
        intro name hname
        refine hunknown name ?_
        rw [hname]
        rfl
      rw [htake]
      rcases hnext : s.take vars token with error | next
      · rfl
      · rw [hnext] at hunknown
        exact ih hrest hunknown

end OperandStack

/-- The operands in the end are asked for no name. -/
theorem Postfix.value_of_extends {mode : Mode} {p : Postfix} (h : vars'.Extends vars p.tokens)
    (hunknown : ∀ name, p.value mode vars = .error (.unknownName name) → vars' name = none) :
    p.value mode vars' = p.value mode vars := by
  have hreduce : p.reduce vars' = p.reduce vars := by
    refine OperandStack.foldlM_take_of_extends h ?_
    intro name hname
    exact hunknown name (Postfix.value_of_reduce_error hname mode)
  unfold Postfix.value
  rw [hreduce]

theorem Variables.Extends.ofSource {mode : Mode} {source : String} {p : Postfix}
    (hp : Postfix.ofSource mode source = .ok p)
    (h : ∀ tokens, tokenize source = .ok tokens → vars'.Extends vars tokens) :
    vars'.Extends vars p.tokens := by
  obtain ⟨tokens, hscan, hnames⟩ := Postfix.names_of_ofSource hp
  exact (h tokens hscan).subset hnames

theorem evaluate_eq_of_extends {mode : Mode} {source : String}
    (h : ∀ tokens, tokenize source = .ok tokens → vars'.Extends vars tokens)
    (hunknown : ∀ name, evaluate mode vars source = .error (.reduction (.unknownName name)) →
      vars' name = none) :
    evaluate mode vars' source = evaluate mode vars source := by
  rcases hp : Postfix.ofSource mode source with error | p
  · unfold evaluate
    rw [hp]
    rfl
  · rw [evaluate_of_ofSource hp] at hunknown
    rw [evaluate_of_ofSource hp, evaluate_of_ofSource hp]
    refine congrArg _ (Postfix.value_of_extends (Variables.Extends.ofSource hp h) ?_)
    intro name hname
    refine hunknown name ?_
    rw [hname]
    rfl

end

/--
**Only the variables that are looked up matter.**  Let every name of a text that has a value
under `vars` have the same value under `vars'`.  If evaluation under `vars` reports no name,
then under `vars'` it comes to exactly the same, be it a value or any error.  And if it reports
a name that has no value under `vars'` either, then under `vars'` the same name is reported.
-/
theorem evaluate_of_extends (mode : Mode) {source : String} {vars vars' : Variables}
    (h : ∀ tokens, tokenize source = .ok tokens → vars'.Extends vars tokens) :
    ((∀ name, evaluate mode vars source ≠ .error (.reduction (.unknownName name))) →
      evaluate mode vars' source = evaluate mode vars source) ∧
    ∀ name, evaluate mode vars source = .error (.reduction (.unknownName name)) →
      vars' name = none →
      evaluate mode vars' source = .error (.reduction (.unknownName name)) := by
  refine ⟨?_, ?_⟩
  · intro hknown
    exact evaluate_eq_of_extends h fun name hname => absurd hname (hknown name)
  · intro name hname hnone
    rw [← hname]
    refine evaluate_eq_of_extends h ?_
    intro other hother
    rw [hname] at hother
    have hsame : name = other := by simpa using hother
    exact hsame ▸ hnone

/--
With a value for `x` and none for `u` and `y`, the division in `x/0+y` fails before `y` is looked
up, and `x*u+y` fails at `u`.  So other variables may give `y` a value, and need not know `z`,
which is in neither text.
-/
theorem evaluate_of_extends_later :
    let vars : Variables := fun name =>
      if name = "x" then some 4 else if name = "z" then some 1 else none
    let vars' : Variables := fun name =>
      if name = "x" then some 4 else if name = "y" then some 9 else none
    ((∀ tokens, tokenize "x/0+y" = .ok tokens → vars'.Extends vars tokens) ∧
      (∀ name, evaluate .strict vars "x/0+y" ≠ .error (.reduction (.unknownName name))) ∧
      (∀ tokens, tokenize "x*u+y" = .ok tokens → vars'.Extends vars tokens) ∧
      evaluate .lenient vars "x*u+y" = .error (.reduction (.unknownName "u")) ∧
      vars' "u" = none) ∧
    evaluate .strict vars' "x/0+y" = evaluate .strict vars "x/0+y" ∧
      evaluate .lenient vars' "x*u+y" = .error (.reduction (.unknownName "u")) := by
  intro vars vars'
  -- The two differ on `z` only where `vars` gives a value, and neither text holds `z`.
  have hextends : ∀ tokens, .name "z" ∉ tokens → vars'.Extends vars tokens := by
    intro tokens hz name value hname hvalue
    have hx : name = "x" ∧ 4 = value := by
      by_cases hx : name = "x"
      · exact ⟨hx, by simpa [vars, hx] using hvalue⟩
      · by_cases heq : name = "z"
        · exact absurd (heq ▸ hname) hz
        · simp [vars, hx, heq] at hvalue
    simp [vars', hx.1, hx.2]
  have hdivision : ∀ tokens, tokenize "x/0+y" = .ok tokens → vars'.Extends vars tokens := by
    intro tokens hscan
    refine hextends tokens ?_
    have hfound : tokenize "x/0+y" = .ok [.name "x", .operator .div, .number 0, .operator .add,
      .name "y", .finish] := by decide +kernel
    rw [Except.ok.inj (hscan.symm.trans hfound)]
    decide
  have hproduct : ∀ tokens, tokenize "x*u+y" = .ok tokens → vars'.Extends vars tokens := by
    intro tokens hscan
    refine hextends tokens ?_
    have hfound : tokenize "x*u+y" = .ok [.name "x", .operator .mul, .name "u", .operator .add,
      .name "y", .finish] := by decide +kernel
    rw [Except.ok.inj (hscan.symm.trans hfound)]
    decide
  have hfails : evaluate .strict vars "x/0+y" = .error (.reduction .divisionByZero) := by
    decide +kernel
  have hknown : ∀ name, evaluate .strict vars "x/0+y" ≠ .error (.reduction (.unknownName name)) := by
    intro name
    rw [hfails]
    simp
  have hreported : evaluate .lenient vars "x*u+y" = .error (.reduction (.unknownName "u")) := by
    decide +kernel
  obtain ⟨hsame, -⟩ := evaluate_of_extends .strict hdivision
  obtain ⟨-, hstill⟩ := evaluate_of_extends .lenient hproduct
  exact ⟨⟨hdivision, hknown, hproduct, hreported, rfl⟩, hsame hknown,
    hstill "u" hreported rfl⟩

end Reckon
