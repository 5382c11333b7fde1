/-
What reducing some tokens does to the operands that are there already.

Nothing: tokens that reduce from the empty stack reduce on top of any operands, and
leave those as they are (`foldlM_take_above`).  A failure may change, since an
operator that lacked an operand may find one below, so only success carries over.
Where the tokens are the postorder of a tree, no operand is lacking, and what is put
on top is the value of the tree (`foldlM_take_postorder`).  And where they fail, one of
them is at fault, and `Fault` says for what (`foldlM_take_eq_error`).

Besides, this file takes `evaluate` apart once and for all.
-/
import Reckon.Evaluation
import Reckon.Expr
import Reckon.Proofs.Outcome

namespace Reckon

namespace OperandStack

theorem operate_two (op : Operator) (x y : Int64) (rest : List Int64) :
    operate ⟨y :: x :: rest⟩ op =
      ((op.apply x y).mapError ReductionError.ofArithmetic).map fun value => ⟨value :: rest⟩ := by
  show ((op.apply x y).mapError ReductionError.ofArithmetic >>= _) = _
  rcases (op.apply x y).mapError ReductionError.ofArithmetic with error | value <;> rfl

theorem operate_of_size_lt_two {s : OperandStack} (h : s.size < 2) (op : Operator) :
    s.operate op = .error .missingOperand := by
  rcases s with ⟨_ | ⟨y, _ | ⟨x, rest⟩⟩⟩
  · rfl
  · rfl
  · simp only [size, List.length_cons] at h
    omega

theorem exists_of_two_le_size {s : OperandStack} (h : 2 ≤ s.size) :
    ∃ x y rest, s = ⟨y :: x :: rest⟩ := by
  rcases s with ⟨_ | ⟨y, _ | ⟨x, rest⟩⟩⟩
  · simp at h
  · simp at h
  · exact ⟨x, y, rest, rfl⟩

/-- An operator that applies has two operands, and puts its result in their place. -/
theorem operate_eq_ok {s s' : OperandStack} {op : Operator} (h : s.operate op = .ok s') :
    ∃ x y rest value, s = ⟨y :: x :: rest⟩ ∧ op.apply x y = .ok value ∧ s' = ⟨value :: rest⟩ := by
  rcases s with ⟨_ | ⟨y, _ | ⟨x, rest⟩⟩⟩
  · cases h
  · cases h
  · rw [operate_two] at h
    obtain ⟨value, happly, hs'⟩ := Except.map_eq_ok h
    exact ⟨x, y, rest, value, rfl, Except.mapError_eq_ok happly, hs'.symm⟩

/-- The operands of a stack on top of others. -/
def above (s : OperandStack) (below : List Int64) : OperandStack :=
  ⟨s.topmostFirst ++ below⟩

theorem take_above {vars : Variables} {s s' : OperandStack} {token : Token}
    (h : s.take vars token = .ok s') (below : List Int64) :
    (s.above below).take vars token = .ok (s'.above below) := by
  rcases token with value | name | op | _ | _ | _
  · cases h
    rfl
  · rcases hv : vars name with _ | value
    · simp [take, hv] at h
    · simp only [take, hv] at h ⊢
      cases h
      rfl
  · obtain ⟨x, y, rest, value, rfl, happly, rfl⟩ := operate_eq_ok h
    show operate ⟨y :: x :: (rest ++ below)⟩ op = _
    rw [operate_two, happly]
    rfl
  · cases h
  · cases h
  · cases h

/-- **Operands that are there already stay as they are.** -/
theorem foldlM_take_above {vars : Variables} {tokens : List Token} :
    ∀ {s s' : OperandStack}, tokens.foldlM (take vars) s = .ok s' → ∀ below : List Int64,
      tokens.foldlM (take vars) (s.above below) = .ok (s'.above below) := by
  induction tokens with
  | nil =>
      intro s s' h below
      cases h
      rfl
  | cons token rest ih =>
      intro s s' h below
      rw [List.foldlM_cons] at h ⊢
      obtain ⟨next, ht, hrest⟩ := Except.bind_eq_ok h
      rw [take_above ht below]
      exact ih hrest below

/-- **The postorder of a tree puts the value of the tree on the stack.** -/
theorem foldlM_take_postorder (vars : Variables) (e : Expr) :
    ∀ s : OperandStack, e.postorder.foldlM (take vars) s = (e.value vars).map s.push := by
  induction e with
  | number value => intro s; rfl
  | name text =>
      intro s
      show (take vars s (.name text) >>= pure) = _
      rw [take, Expr.value]
      rcases vars text with _ | value <;> rfl
  | operation op left right ihl ihr =>
      intro s
      rw [Expr.postorder, List.foldlM_append, List.foldlM_append, ihl, Expr.value]
      rcases left.value vars with error | x
      · rfl
      · show (right.postorder.foldlM (take vars) (s.push x) >>= _) = _
        rw [ihr]
        rcases right.value vars with error | y
        · rfl
        · show (operate ⟨y :: x :: s.topmostFirst⟩ op >>= pure) = _
          rw [operate_two]
          show _ = ((op.apply x y).mapError ReductionError.ofArithmetic).map _
          rcases op.apply x y with error | value <;> rfl

/-! ### How reducing fails -/

/-- What a token can be at fault for, whatever the stack is that it is taken onto. -/
inductive Fault (vars : Variables) : Token → ReductionError → Prop
  | unknownName {name : String} (undefined : vars name = none) :
      Fault vars (.name name) (.unknownName name)
  | missingOperand (op : Operator) : Fault vars (.operator op) .missingOperand
  | divisionByZero (op : Operator) : Fault vars (.operator op) .divisionByZero
  | opening : Fault vars .opening (.misplaced .opening)
  | closing : Fault vars .closing (.misplaced .closing)
  | finish : Fault vars .finish (.misplaced .finish)

theorem operate_eq_error {s : OperandStack} {op : Operator} {error : ReductionError}
    (h : s.operate op = .error error) : error = .missingOperand ∨ error = .divisionByZero := by
  rcases s with ⟨_ | ⟨y, _ | ⟨x, rest⟩⟩⟩
  · cases h
    exact Or.inl rfl
  · cases h
    exact Or.inl rfl
  · rw [operate_two] at h
    rcases happly : op.apply x y with cause | value
    · rw [happly] at h
      rcases cause
      cases h
      exact Or.inr rfl
    · rw [happly] at h
      cases h

theorem take_eq_error {vars : Variables} {s : OperandStack} {token : Token}
    {error : ReductionError} (h : s.take vars token = .error error) : Fault vars token error := by
  rcases token with value | name | op | _ | _ | _
  · cases h
  · rcases hv : vars name with _ | value
    · rw [take, hv] at h
      cases h
      exact .unknownName hv
    · rw [take, hv] at h
      cases h
  · rcases operate_eq_error h with rfl | rfl
    · exact .missingOperand op
    · exact .divisionByZero op
  · cases h
    exact .opening
  · cases h
    exact .closing
  · cases h
    exact .finish

/-- **Where tokens do not reduce, one of them is at fault.** -/
theorem foldlM_take_eq_error {vars : Variables} {tokens : List Token} {error : ReductionError} :
    ∀ {s : OperandStack}, tokens.foldlM (take vars) s = .error error →
      ∃ token ∈ tokens, Fault vars token error := by
  induction tokens with
  | nil =>
      intro s h
      cases h
  | cons token rest ih =>
      intro s h
      rw [List.foldlM_cons] at h
      rcases Except.bind_eq_error h with htake | ⟨next, -, hrest⟩
      · exact ⟨token, List.mem_cons_self .., take_eq_error htake⟩
      · obtain ⟨found, hfound, hfault⟩ := ih hrest
        exact ⟨found, List.mem_cons_of_mem _ hfound, hfault⟩

/-! ### The value of a stack -/

@[simp] theorem result_nil (mode : Mode) : result mode ⟨[]⟩ = .error .emptyResult := rfl

/-- The topmost operand is the value, unless the mode minds those below it. -/
theorem result_cons (mode : Mode) (value : Int64) (below : List Int64) :
    result mode ⟨value :: below⟩ =
      if mode = .strict ∧ 0 < below.length then .error (.leftover below.length) else .ok value := by
  unfold result
  simp [pop, isEmpty, List.length_pos_iff]

@[simp] theorem result_lenient_cons (value : Int64) (below : List Int64) :
    result .lenient ⟨value :: below⟩ = .ok value := rfl

@[simp] theorem result_strict_singleton (value : Int64) :
    result .strict ⟨[value]⟩ = .ok value := rfl

@[simp] theorem result_strict_cons_cons (value next : Int64) (below : List Int64) :
    result .strict ⟨value :: next :: below⟩ = .error (.leftover (below.length + 1)) := rfl

theorem result_strict_eq_ok {s : OperandStack} {value : Int64} (h : s.result .strict = .ok value) :
    s = ⟨[value]⟩ := by
  rcases s with ⟨_ | ⟨top, _ | ⟨next, rest⟩⟩⟩
  · cases h
  · cases h
    rfl
  · cases h

end OperandStack

/-! ### The stages of an evaluation -/

theorem Lexeme.token_ne_finish {l : Lexeme} {token : Token} (h : l.token = .ok token) :
    token ≠ .finish := by
  intro hfinish
  subst hfinish
  unfold Lexeme.token at h
  split at h
  · by_cases hlt : Decimal.value l.chars < Decimal.limit
    · simp [hlt] at h
    · simp [hlt] at h
  all_goals cases h

theorem finish_not_mem_of_tokenize {source : String} {inner : List Token}
    (h : tokenize source = .ok (inner ++ [.finish])) : .finish ∉ inner := by
  unfold tokenize at h
  obtain ⟨tokens, hmap, h⟩ := Except.bind_eq_ok h
  have heq : tokens = inner := List.append_cancel_right (Except.ok.inj h)
  rw [← heq]
  intro hmem
  obtain ⟨l, -, hl⟩ := Except.exists_of_mapM_eq_ok hmap _ hmem
  exact Lexeme.token_ne_finish hl rfl

theorem exists_inner_of_tokenize {source : String} {tokens : List Token}
    (h : tokenize source = .ok tokens) :
    ∃ inner, tokens = inner ++ [.finish] ∧ .finish ∉ inner := by
  have hscan := h
  unfold tokenize at h
  obtain ⟨inner, -, hinner⟩ := Except.bind_eq_ok h
  cases hinner
  exact ⟨inner, rfl, finish_not_mem_of_tokenize hscan⟩

theorem Postfix.ofSource_of_tokenize {source : String} {tokens : List Token}
    (h : tokenize source = .ok tokens) (mode : Mode) :
    Postfix.ofSource mode source = (Postfix.ofTokens mode tokens).mapError .parenthesis := by
  unfold Postfix.ofSource
  rw [h]
  rfl

theorem Postfix.ofSource_eq_ok {mode : Mode} {source : String} {p : Postfix}
    (h : Postfix.ofSource mode source = .ok p) :
    ∃ tokens, tokenize source = .ok tokens ∧ Postfix.ofTokens mode tokens = .ok p := by
  obtain ⟨tokens, hscan, hconvert⟩ := Except.bind_eq_ok h
  exact ⟨tokens, Except.mapError_eq_ok hscan, Except.mapError_eq_ok hconvert⟩

theorem evaluate_of_tokenize {source : String} {tokens : List Token}
    (h : tokenize source = .ok tokens) (mode : Mode) (vars : Variables) :
    evaluate mode vars source =
      ((Postfix.ofTokens mode tokens).mapError .parenthesis >>= fun p =>
        (p.value mode vars).mapError .reduction) := by
  unfold evaluate
  rw [Postfix.ofSource_of_tokenize h]

theorem evaluate_of_ofSource {mode : Mode} {source : String} {p : Postfix}
    (h : Postfix.ofSource mode source = .ok p) (vars : Variables) :
    evaluate mode vars source = (p.value mode vars).mapError .reduction := by
  rw [evaluate, h]
  rfl

theorem Postfix.value_of_reduce_error {vars : Variables} {p : Postfix} {error : ReductionError}
    (h : p.reduce vars = .error error) (mode : Mode) : p.value mode vars = .error error := by
  rw [value, h]
  rfl

theorem Postfix.value_of_reduce_ok {vars : Variables} {p : Postfix} {s : OperandStack}
    (h : p.reduce vars = .ok s) (mode : Mode) : p.value mode vars = s.result mode := by
  rw [value, h]
  rfl

/-- A text has a value if it scans, converts and reduces to a stack with that value. -/
theorem evaluate_eq_ok {source : String} {tokens : List Token} (h : tokenize source = .ok tokens)
    {mode : Mode} {vars : Variables} {value : Int64} (hv : evaluate mode vars source = .ok value) :
    ∃ p s, Postfix.ofTokens mode tokens = .ok p ∧ p.reduce vars = .ok s ∧
      s.result mode = .ok value := by
  rw [evaluate_of_tokenize h] at hv
  obtain ⟨p, hp, hv⟩ := Except.bind_eq_ok hv
  have hvalue : (p.reduce vars >>= OperandStack.result mode) = .ok value :=
    Except.mapError_eq_ok hv
  obtain ⟨s, hs, hresult⟩ := Except.bind_eq_ok hvalue
  exact ⟨p, s, Except.mapError_eq_ok hp, hs, hresult⟩

end Reckon
