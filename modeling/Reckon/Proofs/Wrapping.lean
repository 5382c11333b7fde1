/-
Sums, differences and products wrap once, as far as their value can tell.

A text may wrap at any operator, and any number of times in one product.  Next to its value
goes an integer without bounds (`Expr.integer?`), which knows of no wrapping at all.  Cut
down to sixty-four bits, the integer of a tree is the value of the tree
(`Expr.value_of_integer?`), because cutting down goes through each of the three operators,
and nothing is asked of the integers in between.  Division and the comparisons are left
out, since they depend on more than the last sixty-four bits.

Which integer the text has is a matter of the grammar alone, and what the evaluation finds
is the one word that is congruent to it.
-/
import Reckon.Proofs.Forest
import Reckon.Proofs.Lockstep
import Reckon.Proofs.WellFormed
import Reckon.Proofs.Writing
import Mathlib.Data.Int.ModEq

namespace Reckon

/-! ### Integers without bounds -/

/-- What an operator makes of integers, if it adds, subtracts or multiplies. -/
def Operator.integer? : Operator → Int → Int → Option Int
  | add, x, y => some (x + y)
  | sub, x, y => some (x - y)
  | mul, x, y => some (x * y)
  | _, _, _ => none

/-- The integer that an expression is worth, if it has one. -/
def Expr.integer? (vars : Variables) : Expr → Option Int
  | number value => some value.toInt
  | name text => (vars text).map Int64.toInt
  | operation op left right => do
      let x ← left.integer? vars
      let y ← right.integer? vars
      op.integer? x y

theorem Operator.apply_of_integer? {op : Operator} {x y n : Int} (h : op.integer? x y = some n) :
    op.apply (Int64.ofInt x) (Int64.ofInt y) = .ok (Int64.ofInt n) := by
  rcases op <;> cases h
  · exact congrArg _ (Int64.ofInt_mul x y).symm
  · exact congrArg _ (Int64.ofInt_add x y).symm
  · exact congrArg _ (Int64.ofInt_sub x y).symm

namespace Expr

variable {vars : Variables}

/-- **The value of a tree is its integer, cut down once.** -/
theorem value_of_integer? {e : Expr} :
    ∀ {n : Int}, e.integer? vars = some n → e.value vars = .ok (Int64.ofInt n) := by
  induction e with
  | number value =>
      intro n h
      cases h
      rw [Int64.ofInt_toInt, Expr.value]
  | name text =>
      intro n h
      obtain ⟨word, hword, rfl⟩ := Option.map_eq_some_iff.mp h
      rw [value, hword, Int64.ofInt_toInt]
  | operation op left right ihl ihr =>
      intro n h
      obtain ⟨x, hx, h⟩ := Option.bind_eq_some_iff.mp h
      obtain ⟨y, hy, h⟩ := Option.bind_eq_some_iff.mp h
      rw [value, ihl hx, ihr hy]
      show (op.apply (Int64.ofInt x) (Int64.ofInt y)).mapError ReductionError.ofArithmetic = _
      rw [Operator.apply_of_integer? h]
      rfl

/-- A phrase has an integer if its names have values and no other operators are in it. -/
theorem Derives.exists_integer? {level : Nat} {tokens : List Token} {e : Expr}
    (h : Derives level tokens e) (hcover : vars.Cover tokens)
    (hops : ∀ op, .operator op ∈ tokens → op = .add ∨ op = .sub ∨ op = .mul) :
    ∃ n, e.integer? vars = some n := by
  induction h with
  | number value => exact ⟨value.toInt, rfl⟩
  | name text =>
      obtain ⟨word, hword⟩ := hcover text (List.mem_singleton_self _)
      exact ⟨word.toInt, by rw [integer?, hword, Option.map_some]⟩
  | group _ ih =>
      refine ih (hcover.subset ?_) ?_
      · intro name hname
        simp [hname]
      · intro op hop
        exact hops op (by simp [hop])
  | lift _ _ ih => exact ih hcover hops
  | operation op _ _ ihl ihr =>
      obtain ⟨x, hx⟩ := ihl (hcover.subset fun name hname => by simp [hname])
        fun op hop => hops op (by simp [hop])
      obtain ⟨y, hy⟩ := ihr (hcover.subset fun name hname => by simp [hname])
        fun op hop => hops op (by simp [hop])
      rw [integer?, hx, hy]
      rcases hops op (by simp) with rfl | rfl | rfl
      · exact ⟨x + y, rfl⟩
      · exact ⟨x - y, rfl⟩
      · exact ⟨x * y, rfl⟩

end Expr

/-- Among the words, one is congruent to an integer, and that is the integer cut down. -/
theorem toInt_modEq_iff {word : Int64} {n : Int} :
    word.toInt ≡ n [ZMOD 2 ^ 64] ↔ word = Int64.ofInt n := by
  constructor
  · intro h
    have hmod : word.toInt % (Int64.size : Int) = n % (Int64.size : Int) := h
    rw [← Int64.toInt_inj, Int64.toInt_ofInt, ← Int.emod_bmod, ← hmod, Int.emod_bmod]
    exact (Int64.toInt_bmod word).symm
  · rintro rfl
    rw [Int64.toInt_ofInt]
    exact Int.bmod_emod

/-! ### Phrases as texts -/

section

variable {level : Nat} {tokens : List Token} {source : String} {e : Expr}

theorem Postfix.ofSource_of_derives (h : Expr.Derives level tokens e)
    (hspelled : Spelled tokens source.toList) (mode : Mode) :
    Postfix.ofSource mode source = .ok ⟨e.postorder⟩ := by
  have hbefore : beforeFinish (tokens ++ [.finish]) = tokens :=
    beforeFinish_append_finish h.finish_not_mem []
  rw [Postfix.ofSource_of_tokenize (tokenize_of_spelled hspelled h.isChain_glues),
    Postfix.ofTokens_of_derives h hbefore]
  rfl

theorem evaluate_of_value {vars : Variables} {value : Int64} (h : Expr.Derives level tokens e)
    (hspelled : Spelled tokens source.toList) (hvalue : e.value vars = .ok value) (mode : Mode) :
    evaluate mode vars source = .ok value := by
  have hsource := Postfix.ofSource_of_derives h hspelled
  have hreduces : Postfix.ReducesTo ⟨e.postorder⟩ vars [value] :=
    Postfix.reducesTo_iff_forest.mpr ⟨[e], by simp, .cons hvalue .nil⟩
  cases mode with
  | strict => exact (evaluate_strict_eq_ok_iff (hsource .strict) value).mpr hreduces
  | lenient => exact (evaluate_lenient_eq_ok_iff (hsource .lenient) value).mpr ⟨[], hreduces⟩

end

/--
**Sums, differences and products are exact but for one wrapping in the end.**  Let a text
spell a well-formed expression with these three operators only, and let its names have
values.  Then the expression has an integer, and in either mode the value of the text is the
one word that is congruent to it.
-/
theorem evaluate_congruent {inner : List Token} {source : String} {vars : Variables}
    (hspelled : Spelled inner source.toList) (hwell : WellFormed inner)
    (hops : ∀ op, .operator op ∈ inner → op = .add ∨ op = .sub ∨ op = .mul)
    (hcover : vars.Cover inner) :
    ∃ e n value, Expr.Derives 1 inner e ∧ e.integer? vars = some n ∧
      (∀ mode, evaluate mode vars source = .ok value) ∧
      ∀ word : Int64, word.toInt ≡ n [ZMOD 2 ^ 64] ↔ word = value := by
  obtain ⟨e, he⟩ := wellFormed_iff_derives.mp hwell
  obtain ⟨n, hn⟩ := he.exists_integer? hcover hops
  exact ⟨e, n, Int64.ofInt n, he, hn, evaluate_of_value he hspelled (Expr.value_of_integer? hn),
    fun _ => toInt_modEq_iff⟩

/-- `x * (x-01)` where `x` is the least value: the difference wraps, and so does the product. -/
theorem evaluate_congruent_least :
    let vars : Variables := fun _ => some Int64.minValue
    let inner : List Token := [.name "x", .operator .mul, .opening, .name "x", .operator .sub,
      .number 1, .closing]
    (Spelled inner "x * (x-01)".toList ∧ WellFormed inner ∧
      (∀ op, .operator op ∈ inner → op = .add ∨ op = .sub ∨ op = .mul) ∧ vars.Cover inner) ∧
    ∃ e, Expr.Derives 1 inner e ∧
      e.integer? vars = some (9223372036854775808 * 9223372036854775809) ∧
      ∀ mode, evaluate mode vars "x * (x-01)" = .ok Int64.minValue := by
  intro vars inner
  have hx : (Token.name "x").Spells ['x'] :=
    ⟨⟨'x', [], rfl, by decide +kernel, by simp⟩, rfl⟩
  have hspace : ∀ c ∈ [' '], isWhiteSpace c = true := List.forall_mem_singleton.mpr rfl
  have hnone : ∀ c ∈ ([] : List Char), isWhiteSpace c = true := by simp
  have hspelled : Spelled inner "x * (x-01)".toList := by
    show Spelled inner ([] ++ ['x'] ++ ([' '] ++ ['*'] ++ ([' '] ++ ['('] ++ ([] ++ ['x'] ++
      ([] ++ ['-'] ++ ([] ++ ['0', '1'] ++ ([] ++ [')'] ++ [])))))))
    exact .cons hnone hx (.cons hspace rfl (.cons hspace rfl (.cons hnone hx (.cons hnone rfl
      (.cons hnone ⟨by decide, 1, rfl⟩ (.cons hnone rfl (.nil hnone)))))))
  have hdifference : WellFormed [.name "x", .operator .sub, .number 1] :=
    .operation .sub (.operand rfl) (.operand rfl)
  have hwell : WellFormed inner := .operation .mul (.operand rfl) (.group hdifference)
  have hops : ∀ op, .operator op ∈ inner → op = .add ∨ op = .sub ∨ op = .mul := by simp [inner]
  have hcover : vars.Cover inner := fun _ _ => ⟨_, rfl⟩
  obtain ⟨e, n, value, he, hn, hvalue, hword⟩ := evaluate_congruent hspelled hwell hops hcover
  -- The tree is known by its postorder, which is what the tokens convert to.
  let tree : Expr := .operation .mul (.name "x") (.operation .sub (.name "x") (.number 1))
  have hread : Postfix.ofTokens .strict inner = .ok ⟨tree.postorder⟩ := by decide +kernel
  have hpostorder := (Postfix.ofTokens_of_derives he rfl .strict).symm.trans hread
  obtain rfl : e = tree :=
    Expr.postorder_inj (congrArg Postfix.tokens (Except.ok.inj hpostorder))
  obtain rfl : 9223372036854775808 * 9223372036854775809 = n := Option.some.inj hn
  obtain rfl : Int64.minValue = value := (hword _).mp (by decide)
  exact ⟨⟨hspelled, hwell, hops, hcover⟩, _, he, hn, hvalue⟩

end Reckon
