/-
What two phrases of one meaning have in common.

A pair of parentheses is redundant if it stands around a phrase and the tokens are
still a phrase without it, with the same meaning.  Taking one such pair off after
the other ends in `sparse`, the writing that has parentheses only where grouping
needs them, and it depends on the tree alone.  So phrases that mean one tree are
those that redundant pairs lead to and fro between.

Together with the postfix order of phrases that is `ofTokens_refines_grammar`.
-/
import Reckon.Proofs.Grammar

namespace Reckon

open Reckon.Expr (Derives)

namespace Expr

/-- Going from `wide` to `narrow` takes one redundant pair of parentheses off. -/
structure DropsPair (level : Nat) (e : Expr) (wide narrow : List Token) : Prop where
  /-- The pair stands around a phrase. -/
  pair : ∃ before inner after x, Derives 1 inner x ∧
    wide = before ++ .opening :: inner ++ .closing :: after ∧ narrow = before ++ inner ++ after
  /-- With the pair the tokens mean `e`. -/
  wide : Derives level wide e
  /-- Without it they still do. -/
  narrow : Derives level narrow e

/-- What can be taken off within a part can be taken off within the whole. -/
theorem DropsPair.within {level level' : Nat} {e e' : Expr} {wide narrow : List Token}
    (h : DropsPair level e wide narrow) (front back : List Token)
    (hwhole : ∀ {tokens}, Derives level tokens e → Derives level' (front ++ tokens ++ back) e') :
    DropsPair level' e' (front ++ wide ++ back) (front ++ narrow ++ back) := by
  obtain ⟨⟨before, inner, after, x, hinner, hwide, hnarrow⟩, hw, hn⟩ := h
  refine ⟨⟨front ++ before, inner, after ++ back, x, hinner, ?_, ?_⟩, hwhole hw, hwhole hn⟩
  · rw [hwide]; simp
  · rw [hnarrow]; simp

/-- Any number of redundant pairs taken off. -/
abbrev Sheds (level : Nat) (e : Expr) : List Token → List Token → Prop :=
  Relation.ReflTransGen (DropsPair level e)

theorem Sheds.within {level level' : Nat} {e e' : Expr} {wide narrow : List Token}
    (h : Sheds level e wide narrow) (front back : List Token)
    (hwhole : ∀ {tokens}, Derives level tokens e → Derives level' (front ++ tokens ++ back) e') :
    Sheds level' e' (front ++ wide ++ back) (front ++ narrow ++ back) :=
  Relation.ReflTransGen.lift (fun tokens => front ++ tokens ++ back)
    (fun _ _ hstep => DropsPair.within hstep front back hwhole) _ _ h

/-! ### The sparsest writing -/

/-- A tree written as a phrase of a level, with parentheses only where it has to have them. -/
def sparse (level : Nat) : Expr → List Token
  | number value => [.number value]
  | name text => [.name text]
  | operation op left right =>
      let bare := left.sparse op.precedence ++ .operator op :: right.sparse (op.precedence + 1)
      if level ≤ op.precedence then bare else .opening :: bare ++ [.closing]

theorem sparse_of_le {level : Nat} {op : Operator} (left right : Expr)
    (h : level ≤ op.precedence) :
    (operation op left right).sparse level =
      left.sparse op.precedence ++ .operator op :: right.sparse (op.precedence + 1) :=
  if_pos h

theorem sparse_of_lt {level : Nat} {op : Operator} (left right : Expr)
    (h : op.precedence < level) :
    (operation op left right).sparse level =
      .opening :: (operation op left right).sparse 1 ++ [.closing] := by
  rw [sparse_of_le left right op.one_le_precedence]
  exact if_neg (Nat.not_le.mpr h)

theorem derives_sparse (e : Expr) :
    ∀ {level : Nat}, 1 ≤ level → level ≤ 6 → Derives level (e.sparse level) e := by
  induction e with
  | number value => intro level h1 h6; exact (Derives.number value).lower h1 h6
  | name text => intro level h1 h6; exact (Derives.name text).lower h1 h6
  | operation op left right ihl ihr =>
      have hop := op.one_le_precedence
      have hop5 := op.precedence_le_five
      have hbare : Derives op.precedence (left.sparse op.precedence ++
          .operator op :: right.sparse (op.precedence + 1)) (operation op left right) :=
        .operation op (ihl hop (by omega)) (ihr (by omega) (by omega))
      intro level h1 h6
      by_cases h : level ≤ op.precedence
      · rw [sparse_of_le left right h]
        exact hbare.lower h1 h
      · rw [sparse_of_lt left right (Nat.not_le.mp h), sparse_of_le left right hop]
        exact (Derives.group (hbare.lower (Nat.le_refl 1) hop)).lower h1 h6

/-- The parentheses around a sparse writing can go where it may stand without them. -/
theorem sheds_sparse_group {level : Nat} (e : Expr) (h1 : 1 ≤ level) (h6 : level ≤ 6) :
    Sheds level e (.opening :: e.sparse 1 ++ [.closing]) (e.sparse level) := by
  have hone : Derives 1 (e.sparse 1) e := e.derives_sparse (Nat.le_refl 1) (by omega)
  have hgroup : Derives level (.opening :: e.sparse 1 ++ [.closing]) e :=
    (Derives.group hone).lower h1 h6
  have hlevel : Derives level (e.sparse level) e := e.derives_sparse h1 h6
  by_cases hsame : e.sparse level = e.sparse 1
  · rw [hsame] at hlevel ⊢
    exact .single ⟨⟨[], e.sparse 1, [], e, hone, by simp, by simp⟩, hgroup, hlevel⟩
  · cases e with
    | number _ | name _ => exact absurd rfl hsame
    | operation op left right =>
        by_cases h : level ≤ op.precedence
        · rw [sparse_of_le left right h, sparse_of_le left right op.one_le_precedence] at hsame
          exact absurd rfl hsame
        · rw [sparse_of_lt left right (Nat.not_le.mp h)]

/-- **Every phrase sheds its redundant pairs until the sparsest writing is left.** -/
theorem Derives.sheds_sparse {level : Nat} {tokens : List Token} {e : Expr}
    (h : Derives level tokens e) : level ≤ 6 → Sheds level e tokens (e.sparse level) := by
  induction h with
  | number value => intro _; exact .refl
  | name text => intro _; exact .refl
  | @group tokens e _ ih =>
      intro h6
      have hwithin : Sheds 6 e ([.opening] ++ tokens ++ [.closing])
          ([.opening] ++ e.sparse 1 ++ [.closing]) :=
        (ih (by omega)).within [.opening] [.closing] Derives.group
      exact hwithin.trans (e.sheds_sparse_group (by omega) h6)
  | @lift level tokens e positive tighter ih =>
      intro h6
      rcases Nat.lt_or_ge level 6 with hlt | hge
      · have hwithin : Sheds level e ([] ++ tokens ++ []) ([] ++ e.sparse (level + 1) ++ []) :=
          (ih hlt).within [] [] (by intro tokens h; simpa using Derives.lift positive h)
        rw [List.nil_append, List.append_nil, List.nil_append, List.append_nil] at hwithin
        refine hwithin.trans ?_
        -- Only an operation of just this level loses its parentheses one level down.
        cases e with
        | number _ | name _ => exact .refl
        | operation op left right =>
            rcases Nat.lt_or_ge op.precedence (level + 1) with hop | hop
            · rw [sparse_of_lt left right hop]
              exact sheds_sparse_group _ positive h6
            · rw [sparse_of_le left right hop, sparse_of_le left right (by omega)]
      · exact absurd tighter.level_le_six (by omega)
  | @operation op left right x y leftSide rightSide ihl ihr =>
      intro h6
      have hop5 := op.precedence_le_five
      have hl : Sheds op.precedence (.operation op x y) ([] ++ left ++ (.operator op :: right))
          ([] ++ x.sparse op.precedence ++ (.operator op :: right)) :=
        (ihl (by omega)).within [] _ (fun h => .operation op h rightSide)
      have hr : Sheds op.precedence (.operation op x y)
          ((x.sparse op.precedence ++ [.operator op]) ++ right ++ [])
          ((x.sparse op.precedence ++ [.operator op]) ++ y.sparse (op.precedence + 1) ++ []) :=
        (ihr (by omega)).within _ [] (by
          intro tokens h
          simpa using Derives.operation op (x.derives_sparse op.one_le_precedence (by omega)) h)
      rw [sparse_of_le x y (Nat.le_refl _)]
      simp only [List.nil_append, List.append_nil, List.append_assoc, List.cons_append] at hl hr
      exact hl.trans hr

/-! ### Phrases of one meaning -/

/-- `narrow` is `wide` without a redundant pair of parentheses, both being whole expressions. -/
def RedundantPair (wide narrow : List Token) : Prop :=
  ∃ e, DropsPair 1 e wide narrow

/-- Redundant pairs, put on or taken off, do not change the meaning. -/
theorem derives_iff_of_eqvGen {tokens tokens' : List Token}
    (h : Relation.EqvGen RedundantPair tokens tokens') (e : Expr) :
    Derives 1 tokens e ↔ Derives 1 tokens' e := by
  induction h with
  | rel wide narrow hpair =>
      obtain ⟨x, hdrop⟩ := hpair
      refine ⟨?_, ?_⟩
      · intro hwide
        rw [hwide.unique hdrop.wide]
        exact hdrop.narrow
      · intro hnarrow
        rw [hnarrow.unique hdrop.narrow]
        exact hdrop.wide
  | refl tokens => exact Iff.rfl
  | symm tokens tokens' _ ih => exact ih.symm
  | trans tokens tokens' tokens'' _ _ ih ih' => exact ih.trans ih'

theorem Derives.eqvGen_sparse {tokens : List Token} {e : Expr} (h : Derives 1 tokens e) :
    Relation.EqvGen RedundantPair tokens (e.sparse 1) :=
  Relation.EqvGen.mono (fun _ _ hdrop => ⟨e, hdrop⟩) _ _
    (Relation.EqvGen.reflTransGen_le_eqvGen _ _ _ (h.sheds_sparse (by omega)))

/-- **Two phrases mean one tree if and only if they differ in redundant pairs.** -/
theorem Derives.eq_iff_eqvGen {tokens tokens' : List Token} {e e' : Expr}
    (h : Derives 1 tokens e) (h' : Derives 1 tokens' e') :
    e = e' ↔ Relation.EqvGen RedundantPair tokens tokens' := by
  refine ⟨?_, ?_⟩
  · intro hsame
    subst hsame
    exact .trans _ _ _ h.eqvGen_sparse (.symm _ _ h'.eqvGen_sparse)
  · intro heqv
    exact ((derives_iff_of_eqvGen heqv e).mp h).unique h'

end Expr

/--
**The conversion refines the grammar.**  A phrase is brought into the postorder of
its tree, in either mode, whether it stands alone or a mark of the end follows it and
then anything.  So it has one tree only, and two phrases have the same postfix order
if and only if they have the same tree, which is if and only if they differ in
redundant parentheses.
-/
theorem ofTokens_refines_grammar (mode mode' : Mode) (rest : List Token)
    {tokens tokens' : List Token} {e e' : Expr} (h : Derives 1 tokens e)
    (h' : Derives 1 tokens' e') :
    Postfix.ofTokens mode tokens = .ok ⟨e.postorder⟩ ∧
      Postfix.ofTokens mode (tokens ++ .finish :: rest) = .ok ⟨e.postorder⟩ ∧
      (tokens = tokens' → e = e') ∧
      (Postfix.ofTokens mode tokens = Postfix.ofTokens mode' tokens' ↔ e = e') ∧
      (e = e' ↔ Relation.EqvGen Expr.RedundantPair tokens tokens') := by
  have halone := beforeFinish_eq_self h.finish_not_mem
  have hpost := Postfix.ofTokens_of_derives h halone mode
  have hpost' := Postfix.ofTokens_of_derives h' (beforeFinish_eq_self h'.finish_not_mem) mode'
  refine ⟨hpost, ?_, ?_, ?_, h.eq_iff_eqvGen h'⟩
  · exact Postfix.ofTokens_of_derives h (beforeFinish_append_finish h.finish_not_mem rest) mode
  · intro hsame
    subst hsame
    exact h.unique h'
  · rw [hpost, hpost', Except.ok.injEq, Postfix.mk.injEq]
    exact ⟨Expr.postorder_inj, congrArg Expr.postorder⟩

/-- `8-(4-2)*a` with and without a redundant pair, and a further sum behind its end. -/
theorem ofTokens_refines_grammar_difference :
    let bare : List Token := [.number 8, .operator .sub, .opening, .number 4, .operator .sub,
      .number 2, .closing, .operator .mul, .name "a"]
    let e : Expr := .operation .sub (.number 8)
      (.operation .mul (.operation .sub (.number 4) (.number 2)) (.name "a"))
    let wide := .opening :: bare ++ [.closing]
    (Derives 1 bare e ∧ Derives 1 wide e) ∧
      Postfix.ofTokens .strict (bare ++ [.finish, .operator .add, .number 1]) =
        .ok ⟨[.number 8, .number 4, .number 2, .operator .sub, .name "a", .operator .mul,
          .operator .sub]⟩ ∧
      Postfix.ofTokens .strict bare = Postfix.ofTokens .lenient wide ∧
      Relation.EqvGen Expr.RedundantPair bare wide := by
  intro bare e wide
  have hinner : Derives 1 [.number 4, .operator .sub, .number 2]
      (.operation .sub (.number 4) (.number 2)) :=
    .lower (by decide) (by decide : 1 ≤ 4) (.operation .sub
      (.lower (by decide) (by decide : 4 ≤ 6) (.number 4))
      (.lower (by decide) (by decide : 5 ≤ 6) (.number 2)))
  have hbare : Derives 1 bare e :=
    .lower (by decide) (by decide : 1 ≤ 4) (.operation .sub
      (.lower (by decide) (by decide : 4 ≤ 6) (.number 8))
      (.operation .mul (.lower (by decide) (by decide : 5 ≤ 6) (.group hinner)) (.name "a")))
  have hwide : Derives 1 wide e := .lower (by decide) (by decide : 1 ≤ 6) (.group hbare)
  obtain ⟨-, hrest, -, hsame, hpairs⟩ :=
    ofTokens_refines_grammar .strict .lenient [.operator .add, .number 1] hbare hwide
  exact ⟨⟨hbare, hwide⟩, hrest, hsame.mpr rfl, hpairs.mp rfl⟩

end Reckon
