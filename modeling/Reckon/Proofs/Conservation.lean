/-
What the conversion keeps of the tokens.

It moves operators and takes parentheses out, and nothing else: the operands are the
same in the same order, there are as many operators, and what goes out before the end
is nothing but these.  `Keeps` says so of any stretch, where operators that wait count
as if they were still to come.  One token keeps it, so all tokens do.  Of operators more
is true: each goes out as often as it came in (`run_operators`), so postfix order has the
parts of the tokens that it is made from (`SameParts`).

So the surplus of operands over operators is the same before and after.  Reducing
turns that surplus into operands, one by one (`size_of_foldlM_take`).
-/
import Reckon.Proofs.Stack
import Reckon.Proofs.Waiting

namespace Reckon

/-- How many more operands than operators there are. -/
def surplus (tokens : List Token) : Int :=
  tokens.countP Token.isOperand - tokens.countP Token.isOperator

theorem surplus_append (first second : List Token) :
    surplus (first ++ second) = surplus first + surplus second := by
  unfold surplus
  rw [List.countP_append, List.countP_append]
  omega

theorem surplus_cons (token : Token) (rest : List Token) :
    surplus (token :: rest) = surplus [token] + surplus rest :=
  surplus_append [token] rest

namespace Pending

/-! ### What waits -/

@[simp] theorem isOperator_token (entry : Pending) : entry.token.isOperator = entry.isOperator := by
  rcases entry with op | _ <;> rfl

@[simp] theorem isOperand_token (entry : Pending) : entry.token.isOperand = false := by
  rcases entry with op | _ <;> rfl

@[simp] theorem countP_map_token (waiting : List Pending) :
    (waiting.map token).countP Token.isOperator = waiting.countP isOperator := by
  rw [List.countP_map]
  exact List.countP_congr fun entry _ => by rw [Function.comp_apply, isOperator_token]

@[simp] theorem filter_map_token (waiting : List Pending) :
    (waiting.map token).filter Token.isOperand = [] := by
  rw [List.filter_eq_nil_iff]
  intro found hfound
  obtain ⟨entry, -, rfl⟩ := List.mem_map.mp hfound
  simp

/-! ### What one token keeps, and what all do -/

/-- What a stretch of tokens keeps, on the way from some entries that wait to others. -/
structure Keeps (waiting : List Pending) (tokens out : List Token) (waiting' : List Pending) :
    Prop where
  /-- Operands go out in the order in which they come in. -/
  operands : out.filter Token.isOperand = tokens.filter Token.isOperand
  /-- Operators wait or go out, and each of them once. -/
  operators : out.countP Token.isOperator + waiting'.countP isOperator =
    waiting.countP isOperator + tokens.countP Token.isOperator
  /-- Nothing else goes out. -/
  plain : ∀ token ∈ out, token.isOperand = true ∨ token.isOperator = true

theorem Keeps.append {waiting middle waiting' : List Pending} {first second out more : List Token}
    (h : Keeps waiting first out middle) (h' : Keeps middle second more waiting') :
    Keeps waiting (first ++ second) (out ++ more) waiting' where
  operands := by rw [List.filter_append, List.filter_append, h.operands, h'.operands]
  operators := by
    have h1 := h.operators
    have h2 := h'.operators
    rw [List.countP_append, List.countP_append]
    omega
  plain := by
    intro token htoken
    rcases List.mem_append.mp htoken with hout | hmore
    · exact h.plain token hout
    · exact h'.plain token hmore

theorem Tighter.plain {level : Nat} {held : List Pending} (h : Tighter level held) :
    ∀ found ∈ held.map token, found.isOperand = true ∨ found.isOperator = true := by
  intro found hfound
  obtain ⟨entry, hentry, rfl⟩ := List.mem_map.mp hfound
  obtain ⟨op, rfl, -⟩ := h entry hentry
  exact Or.inr rfl

/-- Operators wait or go out, and nothing else becomes of them. -/
theorem step_operators {waiting waiting' : List Pending} {found : Token} {out : List Token}
    (h : step waiting found = .ok (out, waiting')) :
    ((out ++ waiting'.map token).filter Token.isOperator).Perm
      ((waiting.map token ++ [found]).filter Token.isOperator) := by
  cases step_eq_ok_iff.mp h with
  | operand _ => exact List.perm_append_comm.filter _
  | operator _ _ =>
      refine List.Perm.filter _ ?_
      rw [List.map_cons, List.map_append, List.append_assoc]
      exact (List.perm_append_singleton _ _).symm.append_left _
  | opening => simp [Token.isOperator]
  | closing _ => simp [Token.isOperator]
  | finish => simp [Token.isOperator]

theorem step_keeps {waiting waiting' : List Pending} {found : Token} {out : List Token}
    (h : step waiting found = .ok (out, waiting')) : Keeps waiting [found] out waiting' where
  operands := by
    cases step_eq_ok_iff.mp h with
    | operand _ | opening | finish => rfl
    | operator _ _ | closing _ => exact filter_map_token _
  operators := by
    have hlength := (step_operators h).length_eq
    rw [← List.countP_eq_length_filter, ← List.countP_eq_length_filter, List.countP_append,
      List.countP_append, countP_map_token, countP_map_token] at hlength
    exact hlength
  plain := by
    cases step_eq_ok_iff.mp h with
    | operand operand =>
        intro token htoken
        exact Or.inl (List.mem_singleton.mp htoken ▸ operand)
    | operator tighter _ => exact tighter.plain
    | closing operators => exact operators.plain
    | opening | finish => simp

/-- **A stretch of tokens keeps operands, their order and the number of operators.** -/
theorem run_keeps {tokens : List Token} :
    ∀ {waiting waiting' : List Pending} {out : List Token},
      run waiting tokens = .ok (out, waiting') → Keeps waiting tokens out waiting' := by
  induction tokens with
  | nil =>
      intro waiting waiting' out h
      cases h
      exact ⟨rfl, Nat.add_comm _ _, by simp⟩
  | cons token rest ih =>
      intro waiting waiting' out h
      obtain ⟨now, middle, later, hstep, hrest, rfl⟩ := run_cons_eq_ok h
      exact (step_keeps hstep).append (ih hrest)

/-- **Operators of a stretch wait or go out**, each as often as it comes in. -/
theorem run_operators {tokens : List Token} :
    ∀ {waiting waiting' : List Pending} {out : List Token},
      run waiting tokens = .ok (out, waiting') →
      ((out ++ waiting'.map token).filter Token.isOperator).Perm
        ((waiting.map token ++ tokens).filter Token.isOperator) := by
  induction tokens with
  | nil =>
      intro waiting waiting' out h
      cases h
      rw [List.nil_append, List.append_nil]
  | cons found rest ih =>
      intro waiting waiting' out h
      obtain ⟨now, middle, later, hstep, hrest, rfl⟩ := run_cons_eq_ok h
      calc List.Perm ((now ++ later ++ waiting'.map token).filter Token.isOperator)
            (now.filter Token.isOperator ++
              (later ++ waiting'.map token).filter Token.isOperator) := by
            rw [List.append_assoc, List.filter_append]
        List.Perm _ (now.filter Token.isOperator ++
              (middle.map token ++ rest).filter Token.isOperator) :=
            (ih hrest).append_left _
        _ = (now ++ middle.map token).filter Token.isOperator ++ rest.filter Token.isOperator := by
            simp only [List.filter_append, List.append_assoc]
        List.Perm _ ((waiting.map token ++ [found]).filter Token.isOperator ++
              rest.filter Token.isOperator) :=
            (step_operators hstep).append_right _
        _ = (waiting.map token ++ found :: rest).filter Token.isOperator := by
            rw [← List.filter_append, List.append_assoc, List.singleton_append]

end Pending

/-! ### The whole conversion -/

/-- The same operands in the same order, and the same operators, each as often. -/
structure SameParts (tokens tokens' : List Token) : Prop where
  operands : tokens.filter Token.isOperand = tokens'.filter Token.isOperand
  operators : (tokens.filter Token.isOperator).Perm (tokens'.filter Token.isOperator)

theorem SameParts.symm {tokens tokens' : List Token} (h : SameParts tokens tokens') :
    SameParts tokens' tokens :=
  ⟨h.operands.symm, h.operators.symm⟩

theorem SameParts.trans {tokens tokens' tokens'' : List Token} (h : SameParts tokens tokens')
    (h' : SameParts tokens' tokens'') : SameParts tokens tokens'' :=
  ⟨h.operands.trans h'.operands, h.operators.trans h'.operators⟩

namespace Postfix

variable {mode : Mode} {given : List Token} {p : Postfix}

/-- **Postfix order has the parts of the tokens that it is made from.** -/
theorem sameParts (h : ofTokens mode given = .ok p) : SameParts p.tokens (beforeFinish given) := by
  obtain ⟨out, held, rest, hrun, hdrain, rfl⟩ := ofTokens_eq_ok h
  obtain ⟨rfl, -⟩ := Pending.drain_eq_ok hdrain
  refine ⟨?_, Pending.run_operators hrun⟩
  rw [List.filter_append, (Pending.run_keeps hrun).operands, Pending.filter_map_token,
    List.append_nil]

/-- Besides, only parentheses that are never closed are in it. -/
theorem plain (h : ofTokens mode given = .ok p) :
    ∀ token ∈ p.tokens, token = .opening ∨ token.isOperand = true ∨ token.isOperator = true := by
  obtain ⟨out, held, rest, hrun, hdrain, rfl⟩ := ofTokens_eq_ok h
  obtain ⟨rfl, -⟩ := Pending.drain_eq_ok hdrain
  intro token htoken
  rcases List.mem_append.mp htoken with hout | hheld
  · exact Or.inr ((Pending.run_keeps hrun).plain token hout)
  · obtain ⟨entry, -, rfl⟩ := List.mem_map.mp hheld
    cases entry with
    | operator op => exact Or.inr (Or.inr rfl)
    | opening => exact Or.inl rfl

/-- Those stand behind all operands. -/
theorem plain_of_isOperand (h : ofTokens mode given = .ok p) {front back : List Token}
    {token : Token} (hsplit : p.tokens = front ++ token :: back)
    (hoperand : token.isOperand = true) :
    ∀ found ∈ front, found.isOperand = true ∨ found.isOperator = true := by
  obtain ⟨out, held, rest, hrun, hdrain, rfl⟩ := ofTokens_eq_ok h
  obtain ⟨rfl, -⟩ := Pending.drain_eq_ok hdrain
  have hplain := (Pending.run_keeps hrun).plain
  rcases List.append_eq_append_iff.mp hsplit with ⟨middle, -, hheld⟩ | ⟨middle, rfl, -⟩
  · -- What is drained holds no operand.
    have hmem : token ∈ held.map Pending.token := by simp [hheld]
    obtain ⟨entry, -, rfl⟩ := List.mem_map.mp hmem
    rw [Pending.isOperand_token] at hoperand
    cases hoperand
  · exact fun found hfound => hplain found (List.mem_append_left _ hfound)

theorem mem_of_isOperand (h : ofTokens mode given = .ok p) {token : Token}
    (hmem : token ∈ p.tokens) (hoperand : token.isOperand = true) : token ∈ given := by
  have hfilter : token ∈ p.tokens.filter Token.isOperand := List.mem_filter.mpr ⟨hmem, hoperand⟩
  rw [(sameParts h).operands] at hfilter
  exact (List.takeWhile_sublist _).subset (List.mem_filter.mp hfilter).1

end Postfix

theorem SameParts.surplus_eq {tokens tokens' : List Token} (h : SameParts tokens tokens') :
    surplus tokens = surplus tokens' := by
  unfold surplus
  rw [List.countP_eq_length_filter, List.countP_eq_length_filter, List.countP_eq_length_filter,
    List.countP_eq_length_filter, h.operands, h.operators.length_eq]

/-- The mark of the end is no part, so postfix order has the parts of all tokens of a text. -/
theorem Postfix.sameParts_of_tokenize {mode : Mode} {source : String} {tokens : List Token}
    {p : Postfix} (hscan : tokenize source = .ok tokens) (hp : ofTokens mode tokens = .ok p) :
    SameParts p.tokens tokens := by
  obtain ⟨inner, rfl, hinner⟩ := exists_inner_of_tokenize hscan
  have hparts := sameParts hp
  rw [beforeFinish_append_finish hinner] at hparts
  refine hparts.trans ⟨?_, ?_⟩
  · simp [Token.isOperand]
  · simp [Token.isOperator]

theorem surplus_beforeFinish {inner : List Token} (h : .finish ∉ inner) :
    surplus (beforeFinish (inner ++ [.finish])) = surplus (inner ++ [.finish]) := by
  rw [beforeFinish_append_finish h, surplus_append]
  exact (Int.add_zero _).symm

namespace OperandStack

/-! ### Reducing -/

/-- A token that is taken is an operand and adds one, or an operator and takes one away. -/
theorem size_of_take {vars : Variables} {s s' : OperandStack} {token : Token}
    (h : s.take vars token = .ok s') : (s'.size : Int) = s.size + surplus [token] := by
  rcases token with value | name | op | _ | _ | _
  · cases h
    rfl
  · rcases hv : vars name with _ | value
    · rw [take, hv] at h
      cases h
    · rw [take, hv] at h
      cases h
      rfl
  · obtain ⟨x, y, rest, value, rfl, -, rfl⟩ := operate_eq_ok h
    have hsurplus : surplus [.operator op] = -1 := rfl
    rw [hsurplus]
    simp only [size, List.length_cons]
    omega
  · cases h
  · cases h
  · cases h

/-- **Where tokens reduce, the surplus of operands is there in the end.** -/
theorem size_of_foldlM_take {vars : Variables} {tokens : List Token} :
    ∀ {s s' : OperandStack}, tokens.foldlM (take vars) s = .ok s' →
      (s'.size : Int) = s.size + surplus tokens := by
  induction tokens with
  | nil =>
      intro s s' h
      cases h
      exact (Int.add_zero _).symm
  | cons token rest ih =>
      intro s s' h
      rw [List.foldlM_cons] at h
      obtain ⟨next, htake, hrest⟩ := Except.bind_eq_ok h
      rw [ih hrest, size_of_take htake, surplus_cons token rest, Int.add_assoc]

theorem opening_not_mem_of_foldlM_take {vars : Variables} {tokens : List Token}
    {s s' : OperandStack} (h : tokens.foldlM (take vars) s = .ok s') : .opening ∉ tokens := by
  intro hmem
  obtain ⟨before, behind, htake⟩ := Except.exists_of_foldlM_eq_ok h _ hmem
  cases htake

end OperandStack

end Reckon
