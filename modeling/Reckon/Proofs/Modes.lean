/-
How the strict and the lenient mode differ.

They differ in two places.  In the end of the conversion the strict mode refuses what
is left open, and the lenient mode sends it out, where reducing meets it and fails
(`Postfix.conversions`).  And in the end of reducing the strict mode refuses operands
below the topmost one.  How many there are is told by the tokens of the text, since a
surplus of operands over operators is all that reducing leaves.

So there are four ways for the two outcomes to stand side by side, and `SideBySide`
lists them.
-/
import Reckon.Proofs.Balance
import Reckon.Proofs.Conservation

namespace Reckon

/-! ### Converting -/

/-- How tokens convert in strict and in lenient mode, side by side. -/
inductive Conversions (given : List Token) :
    Except ParenthesisError Postfix → Except ParenthesisError Postfix → Prop
  /-- Something is closed that is not open. -/
  | unopened : Conversions given (.error .unopened) (.error .unopened)
  /-- Nothing is left open. -/
  | closed {p : Postfix}
      (plain : ∀ token ∈ p.tokens, token.isOperand = true ∨ token.isOperator = true)
      (surplus_eq : surplus p.tokens = surplus (beforeFinish given)) :
      Conversions given (.ok p) (.ok p)
  /-- Something is left open. -/
  | unclosed {p : Postfix} (isOpen : .opening ∈ p.tokens)
      (plain : ∀ token ∈ p.tokens,
        token = .opening ∨ token.isOperand = true ∨ token.isOperator = true) :
      Conversions given (.error .unclosed) (.ok p)

theorem Postfix.conversions (given : List Token) :
    Conversions given (Postfix.ofTokens .strict given) (Postfix.ofTokens .lenient given) := by
  rcases Pending.run_outcome (beforeFinish given) [] with ⟨-, hrun⟩ | ⟨-, out, held, hrun, -⟩
  · rw [ofTokens_eq, ofTokens_eq, hrun]
    exact .unopened
  · have hlenient : ofTokens .lenient given = .ok ⟨out ++ held.map Pending.token⟩ := by
      rw [ofTokens_eq, hrun]
      rfl
    have hstrict : ofTokens .strict given = (Pending.drain .strict held).map fun rest =>
        ⟨out ++ rest⟩ := by
      rw [ofTokens_eq, hrun]
      rfl
    rw [hstrict, hlenient]
    by_cases hopen : Pending.opening ∈ held
    · rw [Pending.drain, if_pos ⟨rfl, hopen⟩]
      exact .unclosed (List.mem_append_right _ (List.mem_map_of_mem hopen)) (plain hlenient)
    · have htighter := Pending.tighter_of_not_mem hopen
      rw [Pending.drain_of_tighter htighter]
      refine .closed ?_ (sameParts hlenient).surplus_eq
      intro token htoken
      rcases List.mem_append.mp htoken with hout | hheld
      · exact (Pending.run_keeps hrun).plain token hout
      · exact htighter.plain token hheld

/-! ### Evaluating -/

/-- The outcomes of a text in strict and in lenient mode, side by side. -/
inductive SideBySide (source : String) : Except Error Int64 → Except Error Int64 → Prop
  /-- The text has a value, and nothing is left over. -/
  | value {tokens : List Token} {value : Int64} (scan : tokenize source = .ok tokens)
      (one : surplus tokens = 1) : SideBySide source (.ok value) (.ok value)
  /-- The text has a value, and something is left over. -/
  | leftover {tokens : List Token} {value : Int64} {count : Nat}
      (scan : tokenize source = .ok tokens) (more : surplus tokens = count + 1)
      (positive : 1 ≤ count) :
      SideBySide source (.error (.reduction (.leftover count))) (.ok value)
  /-- Something is left open. -/
  | unclosed {error : ReductionError}
      (fault : error = .missingOperand ∨ (∃ name, error = .unknownName name) ∨
        error = .divisionByZero ∨ error = .misplaced .opening) :
      SideBySide source (.error (.parenthesis .unclosed)) (.error (.reduction error))
  /-- The text fails for another reason. -/
  | failure {error : Error} (closed : error ≠ .parenthesis .unclosed)
      (used : ∀ count, error ≠ .reduction (.leftover count))
      (placed : ∀ token, error ≠ .reduction (.misplaced token)) :
      SideBySide source (.error error) (.error error)

theorem OperandStack.Fault.cases_plain {vars : Variables} {token : Token} {error : ReductionError}
    (h : Fault vars token error)
    (hplain : token = .opening ∨ token.isOperand = true ∨ token.isOperator = true) :
    error = .missingOperand ∨ (∃ name, error = .unknownName name) ∨
      error = .divisionByZero ∨ (error = .misplaced .opening ∧ token = .opening) := by
  cases h with
  | missingOperand op => exact Or.inl rfl
  | @unknownName name _ => exact Or.inr (Or.inl ⟨name, rfl⟩)
  | divisionByZero op => exact Or.inr (Or.inr (Or.inl rfl))
  | opening => exact Or.inr (Or.inr (Or.inr ⟨rfl, rfl⟩))
  | closing | finish => simp [Token.isOperand, Token.isOperator] at hplain

/-- If nothing is left open, the operands in the end decide how the modes differ. -/
theorem sideBySide_of_closed {source : String} {vars : Variables} {tokens : List Token}
    {p : Postfix} (hscan : tokenize source = .ok tokens)
    (hplain : ∀ token ∈ p.tokens, token.isOperand = true ∨ token.isOperator = true)
    (hsurplus : surplus p.tokens = surplus tokens) :
    SideBySide source ((p.value .strict vars).mapError .reduction)
      ((p.value .lenient vars).mapError .reduction) := by
  rcases hreduce : p.reduce vars with error | s
  · rw [Postfix.value_of_reduce_error hreduce, Postfix.value_of_reduce_error hreduce]
    obtain ⟨token, htoken, hfault⟩ := OperandStack.foldlM_take_eq_error hreduce
    have hcases := hfault.cases_plain (Or.inr (hplain token htoken))
    rcases hcases with rfl | ⟨name, rfl⟩ | rfl | ⟨-, rfl⟩
    · exact .failure (by simp) (by simp) (by simp)
    · exact .failure (by simp) (by simp) (by simp)
    · exact .failure (by simp) (by simp) (by simp)
    · rcases hplain _ htoken with hoperand | hoperator
      · cases hoperand
      · cases hoperator
  · rw [Postfix.value_of_reduce_ok hreduce, Postfix.value_of_reduce_ok hreduce]
    have hsize := OperandStack.size_of_foldlM_take hreduce
    rw [hsurplus] at hsize
    rcases s with ⟨_ | ⟨top, _ | ⟨next, below⟩⟩⟩
    · exact .failure (by simp) (by simp) (by simp)
    · exact .value hscan (by simpa using hsize.symm)
    · refine .leftover hscan ?_ (Nat.le_add_left 1 below.length)
      simpa using hsize.symm

/-- If something is left open, reducing does not come past it. -/
theorem sideBySide_of_unclosed {source : String} {vars : Variables} {p : Postfix}
    (hopen : .opening ∈ p.tokens)
    (hplain : ∀ token ∈ p.tokens,
      token = .opening ∨ token.isOperand = true ∨ token.isOperator = true) :
    SideBySide source (.error (.parenthesis .unclosed))
      ((p.value .lenient vars).mapError .reduction) := by
  rcases hreduce : p.reduce vars with error | s
  · rw [Postfix.value_of_reduce_error hreduce]
    obtain ⟨token, htoken, hfault⟩ := OperandStack.foldlM_take_eq_error hreduce
    refine .unclosed ((hfault.cases_plain (hplain token htoken)).imp_right ?_)
    exact Or.imp_right (Or.imp_right And.left)
  · exact absurd hopen (OperandStack.opening_not_mem_of_foldlM_take hreduce)

/-- **There are four ways for the outcomes of the two modes to stand side by side.** -/
theorem sideBySide (source : String) (vars : Variables) :
    SideBySide source (evaluate .strict vars source) (evaluate .lenient vars source) := by
  rcases hscan : tokenize source with error | tokens
  · rw [evaluate, evaluate, Postfix.ofSource, Postfix.ofSource, hscan]
    exact .failure (by simp) (by simp) (by simp)
  · obtain ⟨inner, rfl, hinner⟩ := exists_inner_of_tokenize hscan
    rw [evaluate_of_tokenize hscan, evaluate_of_tokenize hscan]
    have hconversions := Postfix.conversions (inner ++ [.finish])
    generalize Postfix.ofTokens .strict (inner ++ [.finish]) = strict at hconversions ⊢
    generalize Postfix.ofTokens .lenient (inner ++ [.finish]) = lenient at hconversions ⊢
    cases hconversions with
    | unopened => exact .failure (by simp) (by simp) (by simp)
    | closed plain surplus_eq =>
        exact sideBySide_of_closed hscan plain (surplus_eq.trans (surplus_beforeFinish hinner))
    | unclosed isOpen plain => exact sideBySide_of_unclosed isOpen plain

/--
**Strict and lenient mode side by side.**

  * A strict value is the lenient value.
  * Where there is a lenient value, there are more operands than operators in the text.
    If there is one more, the strict value is the same, and otherwise all further ones
    are left over strictly.
  * Where something is left open strictly, reducing fails leniently, and it does so at an
    operand, at an operator or at what is left open.
  * A misplaced token is met leniently only.  It is an opening parenthesis, and strictly
    something is left open then.
  * Any other error of one mode is the error of the other, provided for a lenient one
    that nothing is left open.
-/
theorem strict_beside_lenient (source : String) (vars : Variables) :
    (∀ value, evaluate .strict vars source = .ok value →
      evaluate .lenient vars source = .ok value) ∧
    (∀ value, evaluate .lenient vars source = .ok value →
      ∃ tokens, tokenize source = .ok tokens ∧ 1 ≤ surplus tokens ∧
        (evaluate .strict vars source = .ok value ↔ surplus tokens = 1) ∧
        (surplus tokens ≠ 1 → ∃ count : Nat, count = surplus tokens - 1 ∧
          evaluate .strict vars source = .error (.reduction (.leftover count)))) ∧
    (evaluate .strict vars source = .error (.parenthesis .unclosed) →
      ∃ error, evaluate .lenient vars source = .error (.reduction error) ∧
        (error = .missingOperand ∨ (∃ name, error = .unknownName name) ∨
          error = .divisionByZero ∨ error = .misplaced .opening)) ∧
    (∀ token, evaluate .lenient vars source = .error (.reduction (.misplaced token)) →
      token = .opening ∧ evaluate .strict vars source = .error (.parenthesis .unclosed)) ∧
    (∀ token, evaluate .strict vars source ≠ .error (.reduction (.misplaced token))) ∧
    (∀ error, evaluate .strict vars source = .error error → error ≠ .parenthesis .unclosed →
      (∀ count, error ≠ .reduction (.leftover count)) →
      evaluate .lenient vars source = .error error) ∧
    ∀ error, evaluate .lenient vars source = .error error →
      (∀ token, error ≠ .reduction (.misplaced token)) →
      evaluate .strict vars source ≠ .error (.parenthesis .unclosed) →
      evaluate .strict vars source = .error error := by
  have hmodes := sideBySide source vars
  generalize evaluate .strict vars source = strict at hmodes ⊢
  generalize evaluate .lenient vars source = lenient at hmodes ⊢
  cases hmodes with
  | @value tokens value scan one =>
      refine ⟨fun _ h => h, ?_, nofun, nofun, nofun, nofun, nofun⟩
      intro found h
      refine ⟨tokens, scan, Int.le_of_eq one.symm, iff_of_true h one, ?_⟩
      exact fun hne => absurd one hne
  | @leftover tokens value count scan more positive =>
      refine ⟨nofun, ?_, nofun, nofun, nofun, ?_, nofun⟩
      · intro found _
        exact ⟨tokens, scan, by omega, iff_of_false nofun (by omega),
          fun _ => ⟨count, by omega, rfl⟩⟩
      · intro error h _ hleftover
        cases h
        exact absurd rfl (hleftover count)
  | @unclosed error fault =>
      refine ⟨nofun, nofun, fun _ => ⟨error, rfl, fault⟩, ?_, nofun, ?_, ?_⟩
      · intro token h
        cases h
        rcases fault with h | ⟨name, h⟩ | h | h
        · cases h
        · cases h
        · cases h
        · cases h
          exact ⟨rfl, rfl⟩
      · intro found h hne
        cases h
        exact absurd rfl hne
      · intro found _ _ hne
        exact absurd rfl hne
  | @failure error closed used placed =>
      refine ⟨nofun, nofun, ?_, ?_, ?_, fun _ h _ _ => h, fun _ h _ _ => h⟩
      · intro h
        cases h
        exact absurd rfl closed
      · intro token h
        cases h
        exact absurd rfl (placed token)
      · intro token h
        cases h
        exact placed token rfl

/-- `3-1 (2*2)` takes 4 from 1 and leaves 3 over, and in `(4 5` something is left open. -/
theorem strict_beside_lenient_leftover :
    let vars : Variables := fun _ => none
    (evaluate .lenient vars "3-1 (2*2)" = .ok (-3) ∧
      evaluate .lenient vars "(4 5" = .error (.reduction (.misplaced .opening))) ∧
    evaluate .strict vars "3-1 (2*2)" = .error (.reduction (.leftover 1)) ∧
      evaluate .strict vars "(4 5" = .error (.parenthesis .unclosed) := by
  intro vars
  have hvalue : evaluate .lenient vars "3-1 (2*2)" = .ok (-3) := by decide +kernel
  have hopen : evaluate .lenient vars "(4 5" = .error (.reduction (.misplaced .opening)) := by
    decide +kernel
  have hscan : tokenize "3-1 (2*2)" = .ok [.number 3, .operator .sub, .number 1, .opening,
      .number 2, .operator .mul, .number 2, .closing, .finish] := by decide +kernel
  obtain ⟨-, hlenient, -⟩ := strict_beside_lenient "3-1 (2*2)" vars
  obtain ⟨tokens, htokens, -, -, hleftover⟩ := hlenient (-3) hvalue
  obtain rfl := Except.ok.inj (htokens.symm.trans hscan)
  obtain ⟨count, hcount, hstrict⟩ := hleftover (by decide)
  obtain rfl : count = 1 := Int.ofNat.inj hcount
  obtain ⟨-, -, -, hmisplaced, -⟩ := strict_beside_lenient "(4 5" vars
  exact ⟨⟨hvalue, hopen⟩, hstrict, (hmisplaced _ hopen).2⟩

end Reckon
