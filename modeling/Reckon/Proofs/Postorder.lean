/-
Postfix order can be read in one way only.

Reading it back into trees goes like reducing it, with trees on the stack in place
of values.  `assemble` is one step of that.  Reading the postorder of a tree puts
just that tree on top of whatever is there (`assemble_postorder`), so a list of
tokens is the postorder of one list of trees at most.
-/
import Reckon.Expr

namespace Reckon.Expr

/-- Takes a token of postfix order onto some trees, the latest first. -/
def assemble : List Expr → Token → Option (List Expr)
  | trees, .number value => some (.number value :: trees)
  | trees, .name text => some (.name text :: trees)
  | right :: left :: trees, .operator op => some (.operation op left right :: trees)
  | _, _ => none

theorem assemble_postorder (e : Expr) :
    ∀ trees : List Expr, e.postorder.foldlM assemble trees = some (e :: trees) := by
  induction e with
  | number value => intro trees; rfl
  | name text => intro trees; rfl
  | operation op left right ihl ihr =>
      intro trees
      rw [postorder, List.append_assoc, List.foldlM_append, ihl]
      show (right.postorder ++ [Token.operator op]).foldlM assemble (left :: trees) = _
      rw [List.foldlM_append, ihr]
      rfl

theorem assemble_forest (forest : List Expr) :
    ∀ trees : List Expr,
      (forest.flatMap postorder).foldlM assemble trees = some (forest.reverse ++ trees) := by
  induction forest with
  | nil => intro trees; rfl
  | cons e rest ih =>
      intro trees
      rw [List.flatMap_cons, List.foldlM_append, assemble_postorder]
      show (rest.flatMap postorder).foldlM assemble (e :: trees) = _
      rw [ih, List.reverse_cons, List.append_assoc]
      rfl

/-- **Tokens are the postorder of one list of trees at most.** -/
theorem forest_eq_of_postorder {forest forest' : List Expr}
    (h : forest.flatMap postorder = forest'.flatMap postorder) : forest = forest' := by
  have hread := assemble_forest forest []
  rw [h, assemble_forest forest' [], Option.some.injEq, List.append_nil, List.append_nil] at hread
  exact (List.reverse_inj.mp hread).symm

theorem postorder_inj {e e' : Expr} (h : e.postorder = e'.postorder) : e = e' := by
  have hforest : [e].flatMap postorder = [e'].flatMap postorder := by simpa using h
  exact List.singleton_inj.mp (forest_eq_of_postorder hforest)

end Reckon.Expr
