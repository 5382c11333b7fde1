/-
What the strict mode accepts.

It is more than well-formed infix order.  The conversion only moves operators to where
reducing finds their operands, and reducing only counts operands, so neither sees on which
side of an operator its operands stood.  What the strict mode does see is that
parentheses are in order and that one operand is there in the end.

The latter makes the postfix order the postorder of a single tree.  The tree can be written
in infix order as well (`Expr.sparse`), which is well formed, has the same operands and
operators, and converts to the same.  So a text that the strict mode accepts is such a
writing with its operators and parentheses moved, and it is well formed itself just if its
tokens alternate.
-/
import Reckon.Proofs.Forest
import Reckon.Proofs.Modes
import Reckon.Proofs.Redundancy
import Reckon.Proofs.WellFormed

namespace Reckon

/-- What converts strictly converts to the same leniently. -/
theorem Postfix.ofTokens_of_strict {given : List Token} {p : Postfix}
    (h : Postfix.ofTokens .strict given = .ok p) (mode : Mode) :
    Postfix.ofTokens mode given = .ok p := by
  have hmodes := Postfix.conversions given
  rw [h] at hmodes
  cases mode with
  | strict => exact h
  | lenient =>
      generalize Postfix.ofTokens .lenient given = lenient at hmodes ⊢
      cases hmodes with
      | closed _ _ => rfl

/-- Strictly, a value is that of a single tree. -/
theorem exists_tree_of_strict {source : String} {tokens : List Token} {vars : Variables}
    {value : Int64} (hscan : tokenize source = .ok tokens)
    (h : evaluate .strict vars source = .ok value) :
    ∃ e : Expr, Postfix.ofTokens .strict tokens = .ok ⟨e.postorder⟩ ∧ e.value vars = .ok value := by
  obtain ⟨p, s, hp, hs, hresult⟩ := evaluate_eq_ok hscan h
  have hreduces : p.ReducesTo vars [value] :=
    ⟨s, hs, OperandStack.result_strict_eq_ok_iff.mp hresult⟩
  obtain ⟨forest, htokens, hworth⟩ := Postfix.reducesTo_iff_forest.mp hreduces
  obtain ⟨e, rest, hvalue, hrest, rfl⟩ := List.forall₂_cons_right_iff.mp hworth
  rw [List.forall₂_nil_right_iff] at hrest
  rw [hrest, List.flatMap_cons, List.flatMap_nil, List.append_nil] at htokens
  exact ⟨e, by rw [hp, ← htokens], hvalue⟩

/--
**What the strict mode accepts can be written in well-formed infix order.**  Let a text have
a strict value.  Then its parentheses are in order, and there is a well-formed writing of
one tree, with the same operands in the same order and with the same operators, each as
often.  In either mode the two convert to the postorder of the tree, and the value is that
of the tree.  The text is well formed itself if and only if its tokens alternate, which the
strict mode does not check.
-/
theorem strict_accepts_sameParts {source : String} {vars : Variables} {value : Int64}
    (h : evaluate .strict vars source = .ok value) :
    ∃ inner, tokenize source = .ok (inner ++ [.finish]) ∧ Balanced inner ∧
      (WellFormed inner ↔ alternates true inner = true) ∧
      ∃ (e : Expr) (phrase : List Token), e.value vars = .ok value ∧ WellFormed phrase ∧
        SameParts phrase inner ∧ ∀ mode,
          Postfix.ofTokens mode (inner ++ [.finish]) = .ok ⟨e.postorder⟩ ∧
          Postfix.ofTokens mode (phrase ++ [.finish]) = .ok ⟨e.postorder⟩ := by
  rcases hscan : tokenize source with error | tokens
  · rw [evaluate, Postfix.ofSource, hscan] at h
    cases h
  · obtain ⟨inner, rfl, hinner⟩ := exists_inner_of_tokenize hscan
    have hbefore : beforeFinish (inner ++ [.finish]) = inner := beforeFinish_append_finish hinner []
    obtain ⟨e, hp, hvalue⟩ := exists_tree_of_strict hscan h
    have hbalanced := Postfix.balanced_of_strict hp
    have hparts := Postfix.sameParts hp
    rw [hbefore] at hbalanced hparts
    -- The tree is written with as few parentheses as it takes.
    have hderives := e.derives_sparse (Nat.le_refl 1) (by decide)
    have hsparse : beforeFinish (e.sparse 1 ++ [.finish]) = e.sparse 1 :=
      beforeFinish_append_finish hderives.finish_not_mem []
    have hphrase : ∀ mode, Postfix.ofTokens mode (e.sparse 1 ++ [.finish]) = .ok ⟨e.postorder⟩ :=
      Postfix.ofTokens_of_derives hderives hsparse
    have hsame := Postfix.sameParts (hphrase .strict)
    rw [hsparse] at hsame
    refine ⟨inner, rfl, hbalanced, ?_, e, e.sparse 1, hvalue, hderives.wellFormed,
      hsame.symm.trans hparts, ?_⟩
    · rw [wellFormed_iff]
      exact and_iff_right hbalanced
    · intro mode
      exact ⟨Postfix.ofTokens_of_strict hp mode, hphrase mode⟩

/-- `2 (3 4 -) *` is accepted with its operators behind their operands, as `2*(3-4)` is. -/
theorem strict_accepts_sameParts_behind :
    let vars : Variables := fun _ => none
    let inner : List Token := [.number 2, .opening, .number 3, .number 4, .operator .sub, .closing,
      .operator .mul]
    (evaluate .strict vars "2 (3 4 -) *" = .ok (-2) ∧
      tokenize "2 (3 4 -) *" = .ok (inner ++ [.finish])) ∧
    Balanced inner ∧ ¬ WellFormed inner ∧
      ∃ (e : Expr) (phrase : List Token), e.value vars = .ok (-2) ∧ WellFormed phrase ∧
        SameParts phrase inner ∧
        Postfix.ofTokens .strict (phrase ++ [.finish]) = .ok ⟨e.postorder⟩ := by
  intro vars inner
  have hvalue : evaluate .strict vars "2 (3 4 -) *" = .ok (-2) := by decide +kernel
  have hscan : tokenize "2 (3 4 -) *" = .ok (inner ++ [.finish]) := by decide +kernel
  obtain ⟨found, hfound, hbalanced, hwellFormed, e, phrase, he, hphrase, hparts, hmodes⟩ :=
    strict_accepts_sameParts hvalue
  obtain rfl : inner = found :=
    List.append_cancel_right (Except.ok.inj (hscan.symm.trans hfound))
  refine ⟨⟨hvalue, hscan⟩, hbalanced, ?_, e, phrase, he, hphrase, hparts, (hmodes .strict).2⟩
  rw [hwellFormed]
  decide

/--
So the strict mode accepts more than well-formed infix order.  In `1 2 +` two operands stand
side by side, and the operator has none on its right.  In `()7` a group is empty.
-/
theorem strict_accepts_misplaced :
    let vars : Variables := fun _ => none
    (evaluate .strict vars "1 2 +" = .ok 3 ∧
      tokenize "1 2 +" = .ok ([.number 1, .number 2, .operator .add] ++ [.finish]) ∧
      ¬ WellFormed [.number 1, .number 2, .operator .add]) ∧
    evaluate .strict vars "()7" = .ok 7 ∧
      tokenize "()7" = .ok ([.opening, .closing, .number 7] ++ [.finish]) ∧
      ¬ WellFormed [.opening, .closing, .number 7] := by
  intro vars
  have hmisplaced : ∀ tokens, alternates true tokens = false → ¬ WellFormed tokens := by
    intro tokens hplace h
    rw [(wellFormed_iff.mp h).2] at hplace
    cases hplace
  have hoperator := hmisplaced [.number 1, .number 2, .operator .add] (by decide)
  have hempty := hmisplaced [.opening, .closing, .number 7] (by decide)
  exact ⟨⟨by decide +kernel, by decide +kernel, hoperator⟩, by decide +kernel, by decide +kernel,
    hempty⟩

end Reckon
