/-
Tokens reduce if and only if they are a forest.

A list of trees, their postorders one behind the other, reduces to the values of the
trees (`foldlM_take_forest`), since each tree puts its value on top of those before it.
For the converse the tokens are read back into trees while they are reduced.  On the
two stacks the same places then hold a tree and its value, and one token keeps that
(`exists_take_assemble`): an operator that finds two operands finds their trees with
them.  What is read back is written by the tokens it was read from, so the trees are
the forest that was sought, and there is no other.

What `evaluate` makes of it is one look at the stack in the end.
-/
import Reckon.Proofs.Postorder
import Reckon.Proofs.Stack
import Mathlib.Data.List.Forall2

namespace Reckon

namespace Expr

/-- Each tree of a list has the value in the same place of another list. -/
def Worth (vars : Variables) : List Expr → List Int64 → Prop :=
  List.Forall₂ fun e value => e.value vars = .ok value

theorem postorder_assemble {trees trees' : List Expr} {token : Token}
    (h : assemble trees token = some trees') :
    trees'.reverse.flatMap postorder = trees.reverse.flatMap postorder ++ [token] := by
  rcases token with value | text | op | _ | _ | _
  · cases h
    simp [postorder]
  · cases h
    simp [postorder]
  · rcases trees with _ | ⟨right, _ | ⟨left, trees⟩⟩
    · cases h
    · cases h
    · cases h
      simp [postorder]
  · cases h
  · cases h
  · cases h

/-- **Trees that tokens are read back into write the tokens.** -/
theorem postorder_foldlM_assemble {tokens : List Token} :
    ∀ {trees trees' : List Expr}, tokens.foldlM assemble trees = some trees' →
      trees'.reverse.flatMap postorder = trees.reverse.flatMap postorder ++ tokens := by
  induction tokens with
  | nil =>
      intro trees trees' h
      cases h
      rw [List.append_nil]
  | cons token rest ih =>
      intro trees trees' h
      rw [List.foldlM_cons] at h
      obtain ⟨next, hnext, hrest⟩ := Option.bind_eq_some_iff.mp h
      rw [ih hrest, postorder_assemble hnext, List.append_assoc, List.singleton_append]

end Expr

namespace OperandStack

open Reckon.Expr (Worth assemble)

variable {vars : Variables}

/-! ### Reducing a forest -/

/-- **A forest puts the values of its trees on the stack**, whatever is there already. -/
theorem foldlM_take_forest {forest : List Expr} {values : List Int64}
    (h : Worth vars forest values) :
    ∀ s : OperandStack, (forest.flatMap Expr.postorder).foldlM (take vars) s =
      .ok ⟨values.reverse ++ s.topmostFirst⟩ := by
  induction h with
  | nil => intro s; rfl
  | @cons e value forest values hvalue _ ih =>
      intro s
      rw [List.flatMap_cons, List.foldlM_append, foldlM_take_postorder, hvalue]
      show (forest.flatMap Expr.postorder).foldlM (take vars) (s.push value) = _
      rw [ih, List.reverse_cons, List.append_assoc]
      rfl

/-! ### Reading back what reduces -/

/-- Next to the operands, their trees are read back as far as the operands are reduced. -/
theorem exists_take_assemble {trees : List Expr} {s s' : OperandStack} {token : Token}
    (hworth : Worth vars trees s.topmostFirst) (h : s.take vars token = .ok s') :
    ∃ trees', assemble trees token = some trees' ∧ Worth vars trees' s'.topmostFirst := by
  rcases token with value | name | op | _ | _ | _
  · cases h
    exact ⟨_, rfl, .cons rfl hworth⟩
  · rcases hv : vars name with _ | value
    · rw [take, hv] at h
      cases h
    · rw [take, hv] at h
      cases h
      refine ⟨_, rfl, .cons ?_ hworth⟩
      rw [Expr.value, hv]
  · obtain ⟨x, y, rest, value, rfl, happly, rfl⟩ := operate_eq_ok h
    -- The two topmost operands have trees, which become the sides of the new one.
    obtain ⟨right, _, hright, hbelow, rfl⟩ := List.forall₂_cons_right_iff.mp hworth
    obtain ⟨left, trees, hleft, hrest, rfl⟩ := List.forall₂_cons_right_iff.mp hbelow
    refine ⟨_, rfl, .cons ?_ hrest⟩
    show (left.value vars >>= fun x => right.value vars >>= fun y => _) = _
    rw [hleft, hright]
    show (op.apply x y).mapError ReductionError.ofArithmetic = _
    rw [happly]
    rfl
  · cases h
  · cases h
  · cases h

theorem exists_foldlM_assemble {tokens : List Token} :
    ∀ {trees : List Expr} {s s' : OperandStack}, Worth vars trees s.topmostFirst →
      tokens.foldlM (take vars) s = .ok s' →
      ∃ trees', tokens.foldlM assemble trees = some trees' ∧ Worth vars trees' s'.topmostFirst := by
  induction tokens with
  | nil =>
      intro trees s s' hworth h
      cases h
      exact ⟨trees, rfl, hworth⟩
  | cons token rest ih =>
      intro trees s s' hworth h
      rw [List.foldlM_cons] at h
      obtain ⟨next, htake, hrest⟩ := Except.bind_eq_ok h
      obtain ⟨trees', hassemble, hworth'⟩ := exists_take_assemble hworth htake
      obtain ⟨last, hlast, hworthLast⟩ := ih hworth' hrest
      refine ⟨last, ?_, hworthLast⟩
      rw [List.foldlM_cons, hassemble]
      exact hlast

/-! ### The operands in the end -/

theorem toList_eq_concat_iff {s : OperandStack} {below : List Int64} {value : Int64} :
    s.toList = below ++ [value] ↔ s.topmostFirst = value :: below.reverse := by
  rw [toList, List.reverse_eq_iff, List.reverse_append]
  rfl

theorem result_lenient_eq_ok_iff {s : OperandStack} {value : Int64} :
    s.result .lenient = .ok value ↔ ∃ below, s.toList = below ++ [value] := by
  simp only [toList_eq_concat_iff]
  rcases s with ⟨_ | ⟨top, rest⟩⟩
  · simp
  · rw [result_lenient_cons]
    refine ⟨?_, ?_⟩
    · intro h
      cases h
      exact ⟨rest.reverse, by rw [List.reverse_reverse]⟩
    · intro h
      obtain ⟨below, hbelow⟩ := h
      cases hbelow
      rfl

theorem result_strict_eq_ok_iff {s : OperandStack} {value : Int64} :
    s.result .strict = .ok value ↔ s.toList = [value] := by
  refine ⟨?_, ?_⟩
  · intro h
    rw [result_strict_eq_ok h]
    rfl
  · intro h
    rw [← List.nil_append [value], toList_eq_concat_iff] at h
    rw [show s = ⟨[value]⟩ from congrArg mk h, result_strict_singleton]

theorem result_strict_eq_leftover_iff {s : OperandStack} {count : Nat} :
    s.result .strict = .error (.leftover count) ↔ 2 ≤ s.size ∧ count = s.size - 1 := by
  rcases s with ⟨_ | ⟨top, _ | ⟨next, rest⟩⟩⟩
  · simp
  · simp
  · simp [eq_comm]

theorem result_eq_emptyResult_iff {s : OperandStack} (mode : Mode) :
    s.result mode = .error .emptyResult ↔ s.toList = [] := by
  rcases s with ⟨_ | ⟨top, _ | ⟨next, rest⟩⟩⟩ <;> rcases mode <;> simp

end OperandStack

/-! ### What a text comes to -/

namespace Postfix

variable {vars : Variables} {p : Postfix}

/-- Reducing succeeds, and these operands are there in the end, from the bottom to the top. -/
def ReducesTo (p : Postfix) (vars : Variables) (values : List Int64) : Prop :=
  ∃ s, p.reduce vars = .ok s ∧ s.toList = values

/-- **Tokens reduce to values if and only if they are a forest that has the values.** -/
theorem reducesTo_iff_forest {values : List Int64} :
    p.ReducesTo vars values ↔
      ∃ forest, p.tokens = forest.flatMap Expr.postorder ∧ Expr.Worth vars forest values := by
  refine ⟨?_, ?_⟩
  · intro h
    obtain ⟨s, hs, rfl⟩ := h
    obtain ⟨trees, htrees, hworth⟩ := OperandStack.exists_foldlM_assemble .nil hs
    refine ⟨trees.reverse, ?_, List.rel_reverse hworth⟩
    exact (Expr.postorder_foldlM_assemble htrees).symm
  · intro h
    obtain ⟨forest, htokens, hworth⟩ := h
    refine ⟨⟨values.reverse⟩, ?_, List.reverse_reverse values⟩
    rw [reduce, htokens, OperandStack.foldlM_take_forest hworth]
    exact congrArg (fun found => Except.ok (OperandStack.mk found)) (List.append_nil _)

/-- An outcome that no token is at fault for is decided by the operands in the end. -/
theorem value_eq_iff {mode : Mode} {outcome : Except ReductionError Int64}
    (h : ∀ error, outcome = .error error → ∀ token, ¬ OperandStack.Fault vars token error) :
    p.value mode vars = outcome ↔ ∃ s, p.reduce vars = .ok s ∧ s.result mode = outcome := by
  rcases hreduce : p.reduce vars with error | s
  · rw [value_of_reduce_error hreduce]
    obtain ⟨token, -, hfault⟩ := OperandStack.foldlM_take_eq_error hreduce
    refine ⟨?_, ?_⟩
    · intro houtcome
      exact absurd hfault (h error houtcome.symm token)
    · intro hboth
      obtain ⟨s, hs, -⟩ := hboth
      cases hs
  · rw [value_of_reduce_ok hreduce]
    refine ⟨fun houtcome => ⟨s, rfl, houtcome⟩, ?_⟩
    intro hboth
    obtain ⟨s', hs', houtcome⟩ := hboth
    cases hs'
    exact houtcome

end Postfix

section

variable {mode : Mode} {source : String} {p : Postfix} {vars : Variables}

theorem evaluate_eq_iff_result (hp : Postfix.ofSource mode source = .ok p)
    (outcome : Except ReductionError Int64)
    (h : ∀ error, outcome = .error error → ∀ token, ¬ OperandStack.Fault vars token error) :
    evaluate mode vars source = outcome.mapError .reduction ↔
      ∃ s, p.reduce vars = .ok s ∧ s.result mode = outcome := by
  rw [evaluate_of_ofSource hp, Except.mapError_eq_iff fun _ _ => Error.reduction.inj]
  exact Postfix.value_eq_iff h

theorem evaluate_lenient_eq_ok_iff (hp : Postfix.ofSource .lenient source = .ok p)
    (value : Int64) :
    evaluate .lenient vars source = .ok value ↔ ∃ below, p.ReducesTo vars (below ++ [value]) := by
  refine (evaluate_eq_iff_result hp (.ok value) nofun).trans ?_
  simp only [OperandStack.result_lenient_eq_ok_iff]
  refine ⟨?_, ?_⟩
  · intro h
    obtain ⟨s, hs, below, hbelow⟩ := h
    exact ⟨below, s, hs, hbelow⟩
  · intro h
    obtain ⟨below, s, hs, hbelow⟩ := h
    exact ⟨s, hs, below, hbelow⟩

theorem evaluate_strict_eq_ok_iff (hp : Postfix.ofSource .strict source = .ok p) (value : Int64) :
    evaluate .strict vars source = .ok value ↔ p.ReducesTo vars [value] := by
  refine (evaluate_eq_iff_result hp (.ok value) nofun).trans ?_
  simp only [OperandStack.result_strict_eq_ok_iff, Postfix.ReducesTo]

theorem evaluate_strict_eq_leftover_iff (hp : Postfix.ofSource .strict source = .ok p)
    (count : Nat) :
    evaluate .strict vars source = .error (.reduction (.leftover count)) ↔
      ∃ values, p.ReducesTo vars values ∧ 2 ≤ values.length ∧ count = values.length - 1 := by
  refine (evaluate_eq_iff_result hp (.error (.leftover count)) ?_).trans ?_
  · intro error herror token hfault
    cases herror
    cases hfault
  · simp only [OperandStack.result_strict_eq_leftover_iff, ← OperandStack.length_toList]
    refine ⟨?_, ?_⟩
    · intro h
      obtain ⟨s, hs, hcount⟩ := h
      exact ⟨s.toList, ⟨s, hs, rfl⟩, hcount⟩
    · intro h
      obtain ⟨_, ⟨s, hs, rfl⟩, hcount⟩ := h
      exact ⟨s, hs, hcount⟩

theorem evaluate_eq_emptyResult_iff (hp : Postfix.ofSource mode source = .ok p) :
    evaluate mode vars source = .error (.reduction .emptyResult) ↔ p.ReducesTo vars [] := by
  refine (evaluate_eq_iff_result hp (.error .emptyResult) ?_).trans ?_
  · intro error herror token hfault
    cases herror
    cases hfault
  · simp only [OperandStack.result_eq_emptyResult_iff, Postfix.ReducesTo]

end

/--
**Tokens reduce if and only if they are a forest.**  The operands in the end are the
values of its trees, from the bottom to the top, and there is one such forest only.  So
a text that converts has a lenient value if and only if an operand is there in the end,
and that is the topmost one.  Its strict value is the only operand; where there are
more, all but one are left over, and where there is none, the result is empty.
-/
theorem reduce_iff_forest (vars : Variables) (p : Postfix) :
    (∀ values, p.ReducesTo vars values ↔
      ∃ forest, p.tokens = forest.flatMap Expr.postorder ∧ Expr.Worth vars forest values) ∧
    (∀ forest forest' : List Expr, p.tokens = forest.flatMap Expr.postorder →
      p.tokens = forest'.flatMap Expr.postorder → forest = forest') ∧
    (∀ source, Postfix.ofSource .lenient source = .ok p → ∀ value,
      evaluate .lenient vars source = .ok value ↔ ∃ below, p.ReducesTo vars (below ++ [value])) ∧
    ∀ source, Postfix.ofSource .strict source = .ok p →
      (∀ value, evaluate .strict vars source = .ok value ↔ p.ReducesTo vars [value]) ∧
      (∀ count, evaluate .strict vars source = .error (.reduction (.leftover count)) ↔
        ∃ values, p.ReducesTo vars values ∧ 2 ≤ values.length ∧ count = values.length - 1) ∧
      (evaluate .strict vars source = .error (.reduction .emptyResult) ↔
        p.ReducesTo vars []) := by
  refine ⟨fun values => Postfix.reducesTo_iff_forest, ?_, ?_, ?_⟩
  · intro forest forest' hforest hforest'
    exact Expr.forest_eq_of_postorder (hforest.symm.trans hforest')
  · intro source hp value
    exact evaluate_lenient_eq_ok_iff hp value
  · intro source hp
    exact ⟨evaluate_strict_eq_ok_iff hp, evaluate_strict_eq_leftover_iff hp,
      evaluate_eq_emptyResult_iff hp⟩

/-- `7 x*(2-5)` with 4 for `x` is two trees, of values 7 and -12, so one operand is left over. -/
theorem reduce_iff_forest_two :
    let vars : Variables := fun name => if name = "x" then some 4 else none
    let p : Postfix := ⟨[.number 7, .name "x", .number 2, .number 5, .operator .sub,
      .operator .mul]⟩
    let forest : List Expr := [.number 7,
      .operation .mul (.name "x") (.operation .sub (.number 2) (.number 5))]
    (p.tokens = forest.flatMap Expr.postorder ∧ Expr.Worth vars forest [7, -12] ∧
      Postfix.ofSource .lenient "7 x*(2-5)" = .ok p ∧
      Postfix.ofSource .strict "7 x*(2-5)" = .ok p) ∧
    p.ReducesTo vars [7, -12] ∧
      (∀ forest' : List Expr, p.tokens = forest'.flatMap Expr.postorder → forest' = forest) ∧
      evaluate .lenient vars "7 x*(2-5)" = .ok (-12) ∧
      evaluate .strict vars "7 x*(2-5)" = .error (.reduction (.leftover 1)) := by
  intro vars p forest
  have htokens : p.tokens = forest.flatMap Expr.postorder := by decide
  have hworth : Expr.Worth vars forest [7, -12] :=
    .cons rfl (.cons (by decide +kernel) .nil)
  have hlenient : Postfix.ofSource .lenient "7 x*(2-5)" = .ok p := by decide +kernel
  have hstrict : Postfix.ofSource .strict "7 x*(2-5)" = .ok p := by decide +kernel
  obtain ⟨hiff, hunique, hvalue, hoperands⟩ := reduce_iff_forest vars p
  have hreduces : p.ReducesTo vars [7, -12] := (hiff _).mpr ⟨forest, htokens, hworth⟩
  obtain ⟨-, hleftover, -⟩ := hoperands _ hstrict
  exact ⟨⟨htokens, hworth, hlenient, hstrict⟩, hreduces,
    fun forest' hforest' => hunique forest' forest hforest' htokens,
    (hvalue _ hlenient (-12)).mpr ⟨[7], hreduces⟩,
    (hleftover 1).mpr ⟨[7, -12], hreduces, by decide, rfl⟩⟩

end Reckon
