/-
What the parentheses of an expression decide, and nothing else does.

Two counts are all that is needed.  A closing parenthesis is one too many if some stretch
from the beginning closes more than it opens, and an opening one is if the whole opens
more than it closes.  The conversion counts on the stack, where operators wait as well,
but those neither hide a parenthesis nor take one along: as many opening parentheses wait
as are open in what has been read (`run_outcome`).  A closing one fails where none waits,
and the strict mode refuses those that wait in the end.

So the outcome is the same for any two lists of tokens that have the same parentheses in
the same order.
-/
import Reckon.Proofs.Waiting

namespace Reckon

/-- Parentheses, opening and closing. -/
def Token.isParenthesis : Token → Bool
  | opening | closing => true
  | _ => false

/-- With so many groups open before, some stretch from the beginning closes more than there are. -/
def Overcloses (opened : Nat) (tokens : List Token) : Prop :=
  ∃ front, front <+: tokens ∧ opened + front.count .opening < front.count .closing

/-- Every group is closed, and no sooner than it is opened. -/
structure Balanced (tokens : List Token) : Prop where
  /-- No stretch from the beginning closes more than it opens. -/
  inOrder : ∀ front, front <+: tokens → front.count .closing ≤ front.count .opening
  /-- As much is closed as is opened. -/
  settled : tokens.count .opening = tokens.count .closing

section Counting

variable {opened now : Nat} {token : Token} {tokens rest : List Token}

theorem not_overcloses_nil (opened : Nat) : ¬ Overcloses opened [] := by
  intro h
  obtain ⟨front, hfront, hlt⟩ := h
  rw [List.prefix_nil.mp hfront] at hlt
  simp at hlt

theorem count_cons_eq_add (mark : Token) :
    (token :: rest).count mark = [token].count mark + rest.count mark := by
  rw [← List.count_append, List.singleton_append]

theorem overcloses_closing (rest : List Token) : Overcloses 0 (.closing :: rest) :=
  ⟨[.closing], by simp, by simp⟩

theorem overcloses_cons_iff
    (h : now + [token].count .closing = opened + [token].count .opening) :
    Overcloses opened (token :: rest) ↔ Overcloses now rest := by
  constructor
  · rintro ⟨front, hfront, hlt⟩
    rcases List.prefix_cons_iff.mp hfront with rfl | ⟨later, rfl, hlater⟩
    · simp at hlt
    · rw [count_cons_eq_add .opening, count_cons_eq_add .closing] at hlt
      exact ⟨later, hlater, by omega⟩
  · rintro ⟨later, hlater, hlt⟩
    refine ⟨token :: later, List.prefix_cons_iff.mpr (Or.inr ⟨later, rfl, hlater⟩), ?_⟩
    rw [count_cons_eq_add .opening, count_cons_eq_add .closing]
    omega

theorem not_overcloses_zero_iff :
    ¬ Overcloses 0 tokens ↔
      ∀ front, front <+: tokens → front.count .closing ≤ front.count .opening := by
  simp [Overcloses]

theorem count_filter_isParenthesis {mark : Token} (hmark : mark.isParenthesis = true)
    (tokens : List Token) : (tokens.filter Token.isParenthesis).count mark = tokens.count mark :=
  List.count_filter hmark

theorem count_singleton_of_isOperand {mark : Token} (hmark : mark.isParenthesis = true)
    (htoken : token.isOperand = true) : [token].count mark = 0 := by
  refine List.count_eq_zero.mpr fun hmem => ?_
  rw [List.mem_singleton.mp hmem] at hmark
  cases token with
  | number _ | name _ => simp [Token.isParenthesis] at hmark
  | operator _ | opening | closing | finish => simp [Token.isOperand] at htoken

theorem overcloses_filter_isParenthesis :
    Overcloses opened (tokens.filter Token.isParenthesis) ↔ Overcloses opened tokens := by
  constructor
  · rintro ⟨front, hfront, hlt⟩
    obtain ⟨long, hlong, rfl⟩ := List.prefix_filter_iff.mp hfront
    rw [count_filter_isParenthesis rfl, count_filter_isParenthesis rfl] at hlt
    exact ⟨long, hlong, hlt⟩
  · rintro ⟨front, hfront, hlt⟩
    refine ⟨front.filter Token.isParenthesis, hfront.filter _, ?_⟩
    rw [count_filter_isParenthesis rfl, count_filter_isParenthesis rfl]
    exact hlt

end Counting

namespace Pending

/-! ### Opening parentheses that wait -/

theorem Tighter.count_opening {level : Nat} {held : List Pending} (h : Tighter level held) :
    held.count .opening = 0 :=
  List.count_eq_zero.mpr h.opening_not_mem

theorem step_outcome (waiting : List Pending) (found : Token) :
    (found = .closing ∧ waiting.count .opening = 0 ∧ step waiting found = .error .unopened) ∨
      ∃ out waiting', step waiting found = .ok (out, waiting') ∧
        waiting'.count .opening + [found].count .closing =
          waiting.count .opening + [found].count .opening := by
  rcases hstep : step waiting found with error | ⟨out, waiting'⟩
  · obtain ⟨rfl, rfl, hopening⟩ := step_eq_error hstep
    exact Or.inl ⟨rfl, List.count_eq_zero.mpr hopening, rfl⟩
  · refine Or.inr ⟨out, waiting', rfl, ?_⟩
    cases step_eq_ok_iff.mp hstep with
    | operand operand =>
        rw [count_singleton_of_isOperand rfl operand, count_singleton_of_isOperand rfl operand]
    | operator tighter looser => simp [tighter.count_opening]
    | opening => simp
    | closing operators => simp [operators.count_opening]
    | finish => simp

/-- **As many opening parentheses wait as are open**, and a stretch fails if it closes more. -/
theorem run_outcome (tokens : List Token) :
    ∀ waiting : List Pending,
      (Overcloses (waiting.count .opening) tokens ∧ run waiting tokens = .error .unopened) ∨
        (¬ Overcloses (waiting.count .opening) tokens ∧
          ∃ out waiting', run waiting tokens = .ok (out, waiting') ∧
            waiting'.count .opening + tokens.count .closing =
              waiting.count .opening + tokens.count .opening) := by
  induction tokens with
  | nil =>
      intro waiting
      exact Or.inr ⟨not_overcloses_nil _, [], waiting, rfl, rfl⟩
  | cons token rest ih =>
      intro waiting
      rcases step_outcome waiting token with ⟨rfl, hnone, hstep⟩ | ⟨out, middle, hstep, hcount⟩
      · rw [hnone, run_cons, hstep]
        exact Or.inl ⟨overcloses_closing rest, rfl⟩
      · rw [overcloses_cons_iff hcount]
        rcases ih middle with ⟨hover, hrun⟩ | ⟨hover, more, waiting', hrun, hrest⟩
        · rw [run_cons, hstep]
          refine Or.inl ⟨hover, ?_⟩
          show (run middle rest).map _ = _
          rw [hrun]
          rfl
        · refine Or.inr ⟨hover, _, waiting', run_cons_ok hstep hrun, ?_⟩
          rw [count_cons_eq_add .opening, count_cons_eq_add .closing]
          omega

theorem count_opening_of_run {tokens out : List Token} {waiting waiting' : List Pending}
    (h : run waiting tokens = .ok (out, waiting')) :
    waiting'.count .opening + tokens.count .closing =
      waiting.count .opening + tokens.count .opening := by
  rcases run_outcome tokens waiting with ⟨-, hrun⟩ | ⟨-, _, _, hrun, hcount⟩
  · rw [h] at hrun
    cases hrun
  · rw [h] at hrun
    cases hrun
    exact hcount

end Pending

/-! ### The whole conversion -/

/-- What the parentheses of some tokens say of the outcome of a conversion. -/
inductive Judged (mode : Mode) (tokens : List Token) : Except ParenthesisError Postfix → Prop
  /-- Something is closed that is not open. -/
  | unopened (early : Overcloses 0 tokens) : Judged mode tokens (.error .unopened)
  /-- Something is left open, and the mode does not tolerate it. -/
  | unclosed (inOrder : ¬ Overcloses 0 tokens) (strict : mode = .strict)
      (more : tokens.count .closing < tokens.count .opening) :
      Judged mode tokens (.error .unclosed)
  /-- Nothing is left open, or it is tolerated. -/
  | converted {p : Postfix} (inOrder : ¬ Overcloses 0 tokens)
      (closed : mode = .strict → tokens.count .opening ≤ tokens.count .closing) :
      Judged mode tokens (.ok p)

theorem Postfix.judged (mode : Mode) (given : List Token) :
    Judged mode (beforeFinish given) (Postfix.ofTokens mode given) := by
  rw [ofTokens_eq]
  rcases Pending.run_outcome (beforeFinish given) [] with
    ⟨hover, hrun⟩ | ⟨hover, out, waiting, hrun, hcount⟩
  · rw [hrun]
    exact .unopened hover
  · rw [List.count_nil, Nat.zero_add] at hcount
    rw [hrun]
    show Judged mode (beforeFinish given) ((Pending.drain mode waiting).map _)
    unfold Pending.drain
    by_cases hopen : mode = .strict ∧ Pending.opening ∈ waiting
    · rw [if_pos hopen]
      have hpos := List.count_pos_iff.mpr hopen.2
      exact .unclosed hover hopen.1 (by omega)
    · rw [if_neg hopen]
      refine .converted hover ?_
      intro hstrict
      have hzero := List.count_eq_zero.mpr fun hmem => hopen ⟨hstrict, hmem⟩
      omega

namespace Judged

variable {mode : Mode} {tokens tokens' : List Token}
  {outcome outcome' : Except ParenthesisError Postfix}

theorem eq_unopened_iff (h : Judged mode tokens outcome) :
    outcome = .error .unopened ↔ Overcloses 0 tokens := by
  cases h with
  | unopened early => exact iff_of_true rfl early
  | unclosed inOrder _ _ => exact iff_of_false nofun inOrder
  | converted inOrder _ => exact iff_of_false nofun inOrder

theorem eq_unclosed_iff (h : Judged mode tokens outcome) :
    outcome = .error .unclosed ↔
      mode = .strict ∧ ¬ Overcloses 0 tokens ∧ tokens.count .closing < tokens.count .opening := by
  cases h with
  | unopened early => exact iff_of_false nofun fun h => h.2.1 early
  | unclosed inOrder strict more => exact iff_of_true rfl ⟨strict, inOrder, more⟩
  | converted _ closed =>
      refine iff_of_false nofun ?_
      rintro ⟨hstrict, -, hlt⟩
      exact absurd (closed hstrict) (Nat.not_le.mpr hlt)

theorem exists_eq_ok_iff (h : Judged mode tokens outcome) :
    (∃ p, outcome = .ok p) ↔
      ¬ Overcloses 0 tokens ∧
        ¬ (mode = .strict ∧ tokens.count .closing < tokens.count .opening) := by
  cases h with
  | unopened early => exact iff_of_false nofun fun h => h.1 early
  | unclosed _ strict more => exact iff_of_false nofun fun h => h.2 ⟨strict, more⟩
  | converted inOrder closed =>
      refine iff_of_true ⟨_, rfl⟩ ⟨inOrder, ?_⟩
      rintro ⟨hstrict, hlt⟩
      exact absurd (closed hstrict) (Nat.not_le.mpr hlt)

/-- The same parentheses in the same order come to the same, apart from what goes out. -/
theorem map_eq (h : Judged mode tokens outcome) (h' : Judged mode tokens' outcome')
    (hsame : tokens.filter Token.isParenthesis = tokens'.filter Token.isParenthesis) :
    outcome.map (fun _ => ()) = outcome'.map fun _ => () := by
  have hover : Overcloses 0 tokens ↔ Overcloses 0 tokens' := by
    rw [← overcloses_filter_isParenthesis, hsame, overcloses_filter_isParenthesis]
  have hcount : ∀ mark : Token, mark.isParenthesis = true →
      tokens.count mark = tokens'.count mark := by
    intro mark hmark
    rw [← count_filter_isParenthesis hmark, hsame, count_filter_isParenthesis hmark]
  have hunopened : outcome = .error .unopened ↔ outcome' = .error .unopened := by
    rw [h.eq_unopened_iff, h'.eq_unopened_iff, hover]
  have hunclosed : outcome = .error .unclosed ↔ outcome' = .error .unclosed := by
    rw [h.eq_unclosed_iff, h'.eq_unclosed_iff, hover, hcount .opening rfl, hcount .closing rfl]
  rcases outcome with error | p
  · cases error with
    | unopened => rw [hunopened.mp rfl]
    | unclosed => rw [hunclosed.mp rfl]
  · rcases outcome' with error | p'
    · cases error with
      | unopened => exact absurd (hunopened.mpr rfl) nofun
      | unclosed => exact absurd (hunclosed.mpr rfl) nofun
    · rfl

end Judged

theorem Postfix.balanced_of_strict {given : List Token} {p : Postfix}
    (h : Postfix.ofTokens .strict given = .ok p) : Balanced (beforeFinish given) := by
  obtain ⟨hover, hclosed⟩ := (Postfix.judged .strict given).exists_eq_ok_iff.mp ⟨p, h⟩
  have hinOrder := not_overcloses_zero_iff.mp hover
  refine ⟨hinOrder, ?_⟩
  have hle := hinOrder _ (List.prefix_refl (beforeFinish given))
  have hge := Nat.not_lt.mp fun hlt => hclosed ⟨rfl, hlt⟩
  exact Nat.le_antisymm hge hle

/--
**Parenthesis errors are exact.**  Take the tokens before the first mark of the end.  In
either mode, a closing parenthesis is unopened if and only if some stretch from the
beginning closes more than it opens.  An opening one is unclosed if and only if the mode
is strict, no stretch does so, and the whole opens more than it closes.  In every other
case the conversion succeeds.  So tokens with the same parentheses in the same order come
to the same, whatever operands and operators stand between.
-/
theorem ofTokens_parentheses (mode : Mode) (given : List Token) :
    (Postfix.ofTokens mode given = .error .unopened ↔
      ∃ front, front <+: beforeFinish given ∧ front.count .opening < front.count .closing) ∧
    (Postfix.ofTokens mode given = .error .unclosed ↔
      mode = .strict ∧
        (∀ front, front <+: beforeFinish given →
          front.count .closing ≤ front.count .opening) ∧
        (beforeFinish given).count .closing < (beforeFinish given).count .opening) ∧
    ((∃ p, Postfix.ofTokens mode given = .ok p) ↔
      (∀ front, front <+: beforeFinish given → front.count .closing ≤ front.count .opening) ∧
        ¬ (mode = .strict ∧
          (beforeFinish given).count .closing < (beforeFinish given).count .opening)) ∧
    ∀ given' : List Token,
      (beforeFinish given).filter Token.isParenthesis =
        (beforeFinish given').filter Token.isParenthesis →
      (Postfix.ofTokens mode given).map (fun _ => ()) =
        (Postfix.ofTokens mode given').map fun _ => () := by
  have h := Postfix.judged mode given
  refine ⟨?_, ?_, ?_, ?_⟩
  · rw [h.eq_unopened_iff]
    simp [Overcloses]
  · rw [h.eq_unclosed_iff, not_overcloses_zero_iff]
  · rw [h.exists_eq_ok_iff, not_overcloses_zero_iff]
  · intro given' hsame
    exact h.map_eq (Postfix.judged mode given') hsame

/-- In `1)(+(` the first parenthesis decides, whatever is left open behind it and in between. -/
theorem ofTokens_parentheses_first :
    let given : List Token := [.number 1, .closing, .opening, .operator .add, .opening, .finish]
    let given' : List Token := [.closing, .name "x", .opening, .opening, .name "y"]
    ((beforeFinish given).filter Token.isParenthesis =
        (beforeFinish given').filter Token.isParenthesis ∧
      [.number 1, .closing] <+: beforeFinish given ∧
      [Token.number 1, .closing].count .opening < [Token.number 1, .closing].count .closing) ∧
    Postfix.ofTokens .strict given = .error .unopened ∧
      (Postfix.ofTokens .strict given).map (fun _ => ()) =
        (Postfix.ofTokens .strict given').map fun _ => () := by
  intro given given'
  have hsame : (beforeFinish given).filter Token.isParenthesis =
      (beforeFinish given').filter Token.isParenthesis := by decide
  have hfront : [.number 1, .closing] <+: beforeFinish given := by decide
  have hmore : [Token.number 1, .closing].count .opening <
      [Token.number 1, .closing].count .closing := by decide
  obtain ⟨hunopened, -, -, hkind⟩ := ofTokens_parentheses .strict given
  exact ⟨⟨hsame, hfront, hmore⟩, hunopened.mpr ⟨_, hfront, hmore⟩, hkind given' hsame⟩

end Reckon
