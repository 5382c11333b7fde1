/-
Well-formed infix order, and what it takes.

The grammar here has no levels, since it asks which tokens are an expression and not
which one.  Two things are asked of tokens, and each is seen in one go from left to
right.  Parentheses are in order (`Balanced`), and every token stands in its place
(`alternates`): an operand or an opening parenthesis where an operand is due, and an
operator or a closing parenthesis behind it.

Together they are enough (`wellFormed_iff`).  To see this, the tokens that have been
read are cut where groups are open.  Each stretch between two cuts is then a phrase as
soon as one more operand comes, and what follows keeps it so (`Reads.step`).

The grammar with levels derives all of them and nothing else (`wellFormed_iff_derives`).
One more operator and operand go into a phrase where its levels have room for them
(`Derives.extend`), and a whole phrase is taken in like that from its first operand on.
-/
import Reckon.Proofs.Balance
import Reckon.Proofs.Grammar

namespace Reckon

/-- Expressions in infix order: an operand, a group, or two of them and an operator in between. -/
inductive WellFormed : List Token → Prop
  | operand {token : Token} (operand : token.isOperand = true) : WellFormed [token]
  | group {tokens : List Token} (inner : WellFormed tokens) :
      WellFormed (.opening :: tokens ++ [.closing])
  | operation (op : Operator) {left right : List Token} (leftSide : WellFormed left)
      (rightSide : WellFormed right) : WellFormed (left ++ .operator op :: right)

/-- Whether every token stands in its place, from where an operand is due or not. -/
def alternates (due : Bool) : List Token → Bool
  | [] => !due
  | .number _ :: rest | .name _ :: rest => due && alternates false rest
  | .opening :: rest => due && alternates true rest
  | .operator _ :: rest => !due && alternates true rest
  | .closing :: rest => !due && alternates false rest
  | .finish :: _ => false

theorem Expr.Derives.wellFormed {level : Nat} {tokens : List Token} {e : Expr}
    (h : Expr.Derives level tokens e) : WellFormed tokens := by
  induction h with
  | number _ | name _ => exact .operand rfl
  | group _ ih => exact .group ih
  | lift _ _ ih => exact ih
  | operation op _ _ ihl ihr => exact .operation op ihl ihr

/-! ### Groups that are open -/

/-- With so many groups open before, the tokens close all of them and all of their own. -/
structure Closes (opened : Nat) (tokens : List Token) : Prop where
  /-- Nothing is closed that is not open. -/
  inOrder : ¬ Overcloses opened tokens
  /-- In the end nothing is open. -/
  settled : tokens.count .closing = opened + tokens.count .opening

theorem balanced_iff_closes {tokens : List Token} : Balanced tokens ↔ Closes 0 tokens := by
  constructor
  · intro h
    exact ⟨not_overcloses_zero_iff.mpr h.inOrder, by rw [Nat.zero_add, h.settled]⟩
  · intro h
    exact ⟨not_overcloses_zero_iff.mp h.inOrder, by rw [h.settled, Nat.zero_add]⟩

theorem closes_nil_iff {opened : Nat} : Closes opened [] ↔ opened = 0 := by
  constructor
  · intro h
    simpa using h.settled.symm
  · intro h
    exact ⟨not_overcloses_nil opened, by simp [h]⟩

theorem not_closes_closing (rest : List Token) : ¬ Closes 0 (.closing :: rest) :=
  fun h => h.inOrder (overcloses_closing rest)

theorem closes_cons_iff {opened now : Nat} {token : Token} {rest : List Token}
    (h : now + [token].count .closing = opened + [token].count .opening) :
    Closes opened (token :: rest) ↔ Closes now rest := by
  constructor
  · intro hcloses
    refine ⟨(overcloses_cons_iff h).not.mp hcloses.inOrder, ?_⟩
    have hsettled := hcloses.settled
    rw [count_cons_eq_add .closing, count_cons_eq_add .opening] at hsettled
    omega
  · intro hcloses
    refine ⟨(overcloses_cons_iff h).not.mpr hcloses.inOrder, ?_⟩
    have hsettled := hcloses.settled
    rw [count_cons_eq_add .closing, count_cons_eq_add .opening]
    omega

/-! ### What a phrase has -/

namespace WellFormed

variable {tokens : List Token}

/-- In a phrase every token stands in its place, and behind it no operand is due. -/
theorem alternates_append (h : WellFormed tokens) :
    ∀ rest, alternates true (tokens ++ rest) = alternates false rest := by
  induction h with
  | @operand token operand =>
      intro rest
      cases token with
      | number _ | name _ => simp [alternates]
      | operator _ | opening | closing | finish => simp [Token.isOperand] at operand
  | group _ ih =>
      intro rest
      simp [alternates, ih]
  | operation op _ _ ihl ihr =>
      intro rest
      simp [alternates, ihl, ihr]

theorem closes_append_iff (h : WellFormed tokens) :
    ∀ (opened : Nat) (rest : List Token), Closes opened (tokens ++ rest) ↔ Closes opened rest := by
  induction h with
  | @operand token operand =>
      intro opened rest
      refine closes_cons_iff ?_
      rw [count_singleton_of_isOperand rfl operand, count_singleton_of_isOperand rfl operand]
  | @group tokens _ ih =>
      intro opened rest
      calc Closes opened (.opening :: tokens ++ [.closing] ++ rest)
          ↔ Closes (opened + 1) (tokens ++ .closing :: rest) := by
            rw [List.append_assoc, List.singleton_append, List.cons_append]
            exact closes_cons_iff (by simp)
        _ ↔ Closes (opened + 1) (.closing :: rest) := ih (opened + 1) _
        _ ↔ Closes opened rest := closes_cons_iff (by simp)
  | @operation op left right _ _ ihl ihr =>
      intro opened rest
      calc Closes opened (left ++ .operator op :: right ++ rest)
          ↔ Closes opened (left ++ .operator op :: (right ++ rest)) := by
            rw [List.append_assoc, List.cons_append]
        _ ↔ Closes opened (.operator op :: (right ++ rest)) := ihl opened _
        _ ↔ Closes opened (right ++ rest) := closes_cons_iff (by simp)
        _ ↔ Closes opened rest := ihr opened rest

end WellFormed

/-! ### Reading from left to right -/

/-- The tokens become a phrase with any phrase that follows. -/
def Leads (front : List Token) : Prop :=
  ∀ tokens, WellFormed tokens → WellFormed (front ++ tokens)

theorem leads_nil : Leads [] := fun _ h => h

theorem Leads.operator {front phrase : List Token} (h : Leads front) (hphrase : WellFormed phrase)
    (op : Operator) : Leads (front ++ phrase ++ [.operator op]) := by
  intro tokens htokens
  rw [List.append_assoc, List.singleton_append]
  exact .operation op (h phrase hphrase) htokens

/-- An operand is due behind the tokens, with so many groups open. -/
inductive Awaits : Nat → List Token → Prop
  | outermost {front : List Token} (leads : Leads front) : Awaits 0 front
  | group {opened : Nat} {before front : List Token} (outer : Awaits opened before)
      (leads : Leads front) : Awaits (opened + 1) (before ++ .opening :: front)

namespace Awaits

variable {opened : Nat} {before phrase : List Token}

theorem opening (h : Awaits opened before) : Awaits (opened + 1) (before ++ [.opening]) :=
  .group h leads_nil

theorem operator (h : Awaits opened before) (hphrase : WellFormed phrase) (op : Operator) :
    Awaits opened (before ++ phrase ++ [.operator op]) := by
  cases h with
  | outermost leads => exact .outermost (leads.operator hphrase op)
  | @group opened before front outer leads =>
      have hgroup := Awaits.group outer (leads.operator hphrase op)
      simpa using hgroup

/-- A phrase makes the whole one where no group is open. -/
theorem complete (h : Awaits 0 before) (hphrase : WellFormed phrase) :
    WellFormed (before ++ phrase) := by
  cases h with
  | outermost leads => exact leads phrase hphrase

/-- Otherwise the innermost group can be closed behind it, and is a phrase then. -/
theorem closing (h : Awaits (opened + 1) before) (hphrase : WellFormed phrase) :
    ∃ outer inner, Awaits opened outer ∧ WellFormed inner ∧
      before ++ phrase ++ [.closing] = outer ++ inner := by
  cases h with
  | @group _ outer front houter leads =>
      refine ⟨outer, _, houter, .group (leads phrase hphrase), ?_⟩
      simp

end Awaits

/-- Where reading has come to: an operand is due, or there is one behind where it was. -/
inductive Reads : Bool → Nat → List Token → Prop
  | due {opened : Nat} {before : List Token} (awaits : Awaits opened before) :
      Reads true opened before
  | done {opened : Nat} {before phrase : List Token} (awaits : Awaits opened before)
      (wellFormed : WellFormed phrase) : Reads false opened (before ++ phrase)

/-- One token that stands in its place and closes nothing that is not open. -/
theorem Reads.step {due : Bool} {opened : Nat} {before rest : List Token} {token : Token}
    (h : Reads due opened before) (hplace : alternates due (token :: rest) = true)
    (hcloses : Closes opened (token :: rest)) :
    ∃ due' opened', Reads due' opened' (before ++ [token]) ∧ alternates due' rest = true ∧
      Closes opened' rest := by
  cases h with
  | due awaits =>
      cases token with
      | number _ | name _ =>
          simp only [alternates, Bool.true_and] at hplace
          exact ⟨false, opened, .done awaits (.operand rfl), hplace,
            (closes_cons_iff (by simp)).mp hcloses⟩
      | opening =>
          simp only [alternates, Bool.true_and] at hplace
          exact ⟨true, opened + 1, .due awaits.opening, hplace,
            (closes_cons_iff (by simp)).mp hcloses⟩
      | operator _ | closing | finish => simp [alternates] at hplace
  | @done opened before phrase awaits wellFormed =>
      cases token with
      | operator op =>
          simp only [alternates, Bool.not_false, Bool.true_and] at hplace
          exact ⟨true, opened, .due (awaits.operator wellFormed op), hplace,
            (closes_cons_iff (by simp)).mp hcloses⟩
      | closing =>
          simp only [alternates, Bool.not_false, Bool.true_and] at hplace
          cases opened with
          | zero => exact absurd hcloses (not_closes_closing rest)
          | succ opened =>
              obtain ⟨outer, inner, houter, hinner, heq⟩ := awaits.closing wellFormed
              rw [heq]
              exact ⟨false, opened, .done houter hinner, hplace,
                (closes_cons_iff (by simp)).mp hcloses⟩
      | number _ | name _ | opening | finish => simp [alternates] at hplace

/-- **Where all tokens stand in their places and all groups are closed, there is a phrase.** -/
theorem Reads.wellFormed {tokens : List Token} :
    ∀ {due : Bool} {opened : Nat} {before : List Token}, Reads due opened before →
      alternates due tokens = true → Closes opened tokens → WellFormed (before ++ tokens) := by
  induction tokens with
  | nil =>
      intro due opened before h hplace hcloses
      rw [List.append_nil]
      cases h with
      | due _ => simp [alternates] at hplace
      | done awaits wellFormed =>
          rw [closes_nil_iff] at hcloses
          subst hcloses
          exact awaits.complete wellFormed
  | cons token rest ih =>
      intro due opened before h hplace hcloses
      obtain ⟨due', opened', hnext, hplace', hcloses'⟩ := h.step hplace hcloses
      rw [← List.singleton_append, ← List.append_assoc]
      exact ih hnext hplace' hcloses'

/-- **Well-formed are just those tokens that alternate and have their parentheses in order.** -/
theorem wellFormed_iff {tokens : List Token} :
    WellFormed tokens ↔ Balanced tokens ∧ alternates true tokens = true := by
  rw [balanced_iff_closes]
  constructor
  · intro h
    have hcloses := h.closes_append_iff 0 []
    have hplace := h.alternates_append []
    rw [List.append_nil] at hcloses hplace
    exact ⟨hcloses.mpr (closes_nil_iff.mpr rfl), hplace⟩
  · intro h
    obtain ⟨hcloses, hplace⟩ := h
    exact Reads.wellFormed (.due (.outermost leads_nil)) hplace hcloses

/-! ### The grammar with levels -/

namespace Expr.Derives

variable {level : Nat} {left right : List Token} {x y : Expr} {op : Operator}

/-- An operator that binds as tightly as a phrase takes all of it for its left side. -/
theorem extend_whole (hx : Derives level left x) (hy : Derives 6 right y)
    (heq : level = op.precedence) :
    Derives level (left ++ .operator op :: right) (.operation op x y) := by
  subst heq
  exact .operation op hx (hy.lower (Nat.le_add_left 1 _) (Nat.succ_le_succ op.precedence_le_five))

/-- One more operator and operand behind a phrase that binds no more tightly. -/
theorem extend (hx : Derives level left x) (hy : Derives 6 right y) :
    level ≤ op.precedence → ∃ e, Derives level (left ++ .operator op :: right) e := by
  induction hx with
  | number _ | name _ | group _ _ =>
      intro hle
      exact absurd (Nat.le_trans hle op.precedence_le_five) (by decide)
  | lift positive tighter ih =>
      intro hle
      rcases Nat.eq_or_lt_of_le hle with heq | hlt
      · exact ⟨_, extend_whole (.lift positive tighter) hy heq⟩
      · obtain ⟨e, he⟩ := ih hlt
        exact ⟨e, .lift positive he⟩
  | @operation op' left' right' x' y' leftSide rightSide _ ihr =>
      intro hle
      rcases Nat.eq_or_lt_of_le hle with heq | hlt
      · exact ⟨_, extend_whole (.operation op' leftSide rightSide) hy heq⟩
      · -- A tighter operator takes no more than the right side of the one before it.
        obtain ⟨e, he⟩ := ihr hlt
        refine ⟨.operation op' x' e, ?_⟩
        rw [List.append_assoc, List.cons_append]
        exact .operation op' leftSide he

/-- Two phrases and an operator in between are a phrase, whatever the levels are. -/
theorem exists_operation (hy : Derives level right y) :
    ∀ {left : List Token} {x : Expr} (op : Operator), Derives 1 left x →
      ∃ e, Derives 1 (left ++ .operator op :: right) e := by
  induction hy with
  | number value =>
      intro left x op hx
      exact hx.extend (.number value) op.one_le_precedence
  | name text =>
      intro left x op hx
      exact hx.extend (.name text) op.one_le_precedence
  | group inner _ =>
      intro left x op hx
      exact hx.extend (.group inner) op.one_le_precedence
  | lift _ _ ih => exact ih
  | @operation op' left' right' _ _ _ _ ihl ihr =>
      -- The left side is taken in first, and the right side behind it.
      intro left x op hx
      obtain ⟨e, he⟩ := ihl op hx
      obtain ⟨e', he'⟩ := ihr op' he
      refine ⟨e', ?_⟩
      rwa [List.append_assoc, List.cons_append] at he'

end Expr.Derives

/-- **Well-formed are just those tokens that the grammar with levels derives.** -/
theorem wellFormed_iff_derives {tokens : List Token} :
    WellFormed tokens ↔ ∃ e, Expr.Derives 1 tokens e := by
  constructor
  · intro h
    induction h with
    | @operand token operand =>
        cases token with
        | number value => exact ⟨_, Expr.Derives.lower (Nat.le_refl 1) (by decide) (.number value)⟩
        | name text => exact ⟨_, Expr.Derives.lower (Nat.le_refl 1) (by decide) (.name text)⟩
        | operator _ | opening | closing | finish => cases operand
    | group _ ih =>
        obtain ⟨e, he⟩ := ih
        exact ⟨e, Expr.Derives.lower (Nat.le_refl 1) (by decide) (.group he)⟩
    | operation op _ _ ihl ihr =>
        obtain ⟨x, hx⟩ := ihl
        obtain ⟨y, hy⟩ := ihr
        exact hy.exists_operation op hx
  · rintro ⟨e, he⟩
    exact he.wellFormed

end Reckon
