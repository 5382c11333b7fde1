/-
A text that writes a tree has the value of the tree.

A tree is written as tokens with parentheses wherever the precedences call for them,
and with as many more as one likes (`Writes`), and the tokens are written as a text
with or without white space.  Each stage of the evaluation undoes a stage of the
writing.  The scan gives back the tokens, since no two tokens that follow each other
in a phrase would glue; the conversion gives the postorder of the tree, since what is
written is a phrase of the grammar; and reducing that gives the value of the tree.

The value is an error where an operand fails, and then it is the first one from left to
right.  The mode plays no part.
-/
import Reckon.Proofs.Grammar
import Reckon.Proofs.Spelling
import Reckon.Proofs.Stack

namespace Reckon

namespace Expr

/-! ### Trees as tokens -/

/-- How tightly the root of a tree binds. Operands bind tighter than any operator. -/
def precedence : Expr → Nat
  | operation op _ _ => op.precedence
  | number _ | name _ => 6

/--
The ways to write a tree: `Writes e parens tokens` says that `tokens` write `e` with so
many pairs of parentheses about the whole.  The sides of an operator may be written
in any way, but without parentheses about them only if they bind tightly enough, and
the right side has to bind more tightly than the operator does.
-/
inductive Writes : Expr → Nat → List Token → Prop
  | number (value : Int64) : Writes (.number value) 0 [.number value]
  | name (text : String) : Writes (.name text) 0 [.name text]
  | operation (op : Operator) {x y : Expr} {parensx parensy : Nat} {left right : List Token}
      (leftSide : Writes x parensx left) (rightSide : Writes y parensy right)
      (leftBare : parensx = 0 → op.precedence ≤ x.precedence)
      (rightBare : parensy = 0 → op.precedence < y.precedence) :
      Writes (.operation op x y) 0 (left ++ .operator op :: right)
  | group {e : Expr} {parens : Nat} {tokens : List Token} (inner : Writes e parens tokens) :
      Writes e (parens + 1) (.opening :: tokens ++ [.closing])

theorem one_le_precedence (e : Expr) : 1 ≤ e.precedence := by
  rcases e with value | text | ⟨op, x, y⟩
  · exact Nat.le_add_left 1 5
  · exact Nat.le_add_left 1 5
  · exact op.one_le_precedence

/-- What is written is a phrase, of the level of the root or of the level of groups. -/
theorem Writes.derives {e : Expr} {parens : Nat} {tokens : List Token}
    (h : Writes e parens tokens) :
    Derives (if parens = 0 then e.precedence else 6) tokens e := by
  induction h with
  | number value => exact .number value
  | name text => exact .name text
  -- A side is a phrase of its own level, which is high enough to be lowered to what `op` asks for.
  | @operation op x y parensx parensy left right _ _ leftBare rightBare ihx ihy =>
      refine .operation op (ihx.lower op.one_le_precedence ?_) (ihy.lower (Nat.le_add_left 1 _) ?_)
      · by_cases hx : parensx = 0
        · rw [if_pos hx]
          exact leftBare hx
        · rw [if_neg hx]
          exact Nat.le_succ_of_le op.precedence_le_five
      · by_cases hy : parensy = 0
        · rw [if_pos hy]
          exact rightBare hy
        · rw [if_neg hy]
          exact Nat.succ_le_succ op.precedence_le_five
  | @group e parens tokens _ ih =>
      rw [if_neg (Nat.succ_ne_zero parens)]
      refine .group (ih.lower (Nat.le_refl 1) ?_)
      by_cases hparens : parens = 0
      · rw [if_pos hparens]
        exact one_le_precedence e
      · rw [if_neg hparens]
        exact Nat.le_add_left 1 5

end Expr

/-! ### No two tokens of a phrase glue -/

theorem Token.glues_operator {token : Token} {op : Operator} (h : token.isOperator = false) :
    token.glues (.operator op) = false ∧ (Token.operator op).glues token = false := by
  rcases token with value | text | op' | _ | _ | _
  · rcases op <;> exact ⟨rfl, rfl⟩
  · rcases op <;> exact ⟨rfl, rfl⟩
  · cases h
  · rcases op <;> exact ⟨rfl, rfl⟩
  · rcases op <;> exact ⟨rfl, rfl⟩
  · rcases op <;> exact ⟨rfl, rfl⟩

namespace Expr.Derives

variable {level : Nat} {tokens : List Token} {e : Expr}

theorem exists_head (h : Derives level tokens e) :
    ∃ first rest, tokens = first :: rest ∧ first.isOperator = false := by
  induction h with
  | number value => exact ⟨_, _, rfl, rfl⟩
  | name text => exact ⟨_, _, rfl, rfl⟩
  | group _ _ => exact ⟨_, _, rfl, rfl⟩
  | lift _ _ ih => exact ih
  | operation op _ _ ihl _ =>
      obtain ⟨first, rest, rfl, hfirst⟩ := ihl
      exact ⟨first, _, rfl, hfirst⟩

theorem exists_last (h : Derives level tokens e) :
    ∃ front last, tokens = front ++ [last] ∧ last.isOperator = false := by
  induction h with
  | number value => exact ⟨[], _, rfl, rfl⟩
  | name text => exact ⟨[], _, rfl, rfl⟩
  | group _ _ => exact ⟨_, _, rfl, rfl⟩
  | lift _ _ ih => exact ih
  | @operation op left _ _ _ _ _ _ ihr =>
      obtain ⟨front, last, rfl, hlast⟩ := ihr
      exact ⟨left ++ .operator op :: front, last, by simp, hlast⟩

/-- In a phrase operators and operands take turns, so no two tokens glue. -/
theorem isChain_glues (h : Derives level tokens e) :
    tokens.IsChain fun token next => token.glues next = false := by
  induction h with
  | number value => exact List.isChain_singleton _
  | name text => exact List.isChain_singleton _
  | @group tokens e _ ih =>
      refine List.isChain_append.mpr ⟨List.isChain_cons.mpr ⟨?_, ih⟩, List.isChain_singleton _, ?_⟩
      · intro next _
        rfl
      · intro token _ next hnext
        cases hnext
        rcases token with value | text | op | _ | _ | _ <;> first | rfl | (rcases op <;> rfl)
  | lift _ _ ih => exact ih
  | @operation op left right _ _ hl hr ihl ihr =>
      obtain ⟨first, rest, rfl, hfirst⟩ := hr.exists_head
      obtain ⟨front, last, rfl, hlast⟩ := hl.exists_last
      refine List.isChain_append.mpr ⟨ihl, List.isChain_cons.mpr ⟨?_, ihr⟩, ?_⟩
      · intro next hnext
        cases hnext
        exact (Token.glues_operator hfirst).2
      · intro token htoken next hnext
        cases hnext
        rw [List.getLast?_concat] at htoken
        cases htoken
        exact (Token.glues_operator hlast).1

end Expr.Derives

/--
**A text that writes a tree has the value of the tree**, be it a number or an error, and
in either mode.
-/
theorem evaluate_of_writes {e : Expr} {parens : Nat} {tokens : List Token} {source : String}
    (hwrites : e.Writes parens tokens) (hspelled : Spelled tokens source.toList) (mode : Mode)
    (vars : Variables) : evaluate mode vars source = (e.value vars).mapError .reduction := by
  have hderives := hwrites.derives
  have htokens : tokenize source = .ok (tokens ++ [.finish]) :=
    tokenize_of_spelled hspelled hderives.isChain_glues
  have hpostfix : Postfix.ofTokens mode (tokens ++ [.finish]) = .ok ⟨e.postorder⟩ :=
    Postfix.ofTokens_of_derives hderives (beforeFinish_append_finish hderives.finish_not_mem [])
      mode
  have hreduce : Postfix.reduce vars ⟨e.postorder⟩ = (e.value vars).map OperandStack.empty.push :=
    OperandStack.foldlM_take_postorder vars e .empty
  rw [evaluate_of_tokenize htokens, hpostfix]
  show (Postfix.value mode vars ⟨e.postorder⟩).mapError Error.reduction = _
  unfold Postfix.value
  rw [hreduce]
  rcases e.value vars with error | value
  · rfl
  · -- The value is the only operand, so nothing is left over in strict mode either.
    rcases mode <;> rfl

/-- `( 1+02 )*x` where `x` has no value: the error is that of `x`. -/
theorem evaluate_of_writes_unknown :
    let e : Expr := .operation .mul (.operation .add (.number 1) (.number 2)) (.name "x")
    let tokens : List Token := [.opening, .number 1, .operator .add, .number 2, .closing,
      .operator .mul, .name "x"]
    (e.Writes 0 tokens ∧ Spelled tokens "( 1+02 )*x".toList) ∧
      evaluate .strict (fun _ => none) "( 1+02 )*x" = .error (.reduction (.unknownName "x")) := by
  intro e tokens
  have hsum : Expr.Writes (.operation .add (.number 1) (.number 2)) 0
      [.number 1, .operator .add, .number 2] :=
    .operation .add (.number 1) (.number 2) (fun _ => by decide) (fun _ => by decide)
  have hwrites : e.Writes 0 tokens :=
    .operation .mul (.group hsum) (.name "x") (fun h => by cases h) (fun _ => by decide)
  have hx : (Token.name "x").Spells ['x'] :=
    ⟨⟨'x', [], rfl, by decide +kernel, by simp⟩, rfl⟩
  have hspace : ∀ c ∈ [' '], isWhiteSpace c = true := List.forall_mem_singleton.mpr rfl
  have hnone : ∀ c ∈ ([] : List Char), isWhiteSpace c = true := by simp
  have hspelled : Spelled tokens "( 1+02 )*x".toList := by
    show Spelled tokens ([] ++ ['('] ++ ([' '] ++ ['1'] ++ ([] ++ ['+'] ++ ([] ++ ['0', '2'] ++
      ([' '] ++ [')'] ++ ([] ++ ['*'] ++ ([] ++ ['x'] ++ [])))))))
    exact .cons hnone rfl (.cons hspace ⟨by decide, 0, rfl⟩ (.cons hnone rfl (.cons hnone
      ⟨by decide, 1, rfl⟩ (.cons hspace rfl (.cons hnone rfl (.cons hnone hx (.nil hnone)))))))
  exact ⟨⟨hwrites, hspelled⟩, evaluate_of_writes hwrites hspelled .strict fun _ => none⟩

end Reckon
