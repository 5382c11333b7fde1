/-
A group in parentheses stands for one operand.

What is in the parentheses neither sees what waits outside nor leaves anything of its own
there, so the group sends something out and leaves what waits as it is.  A single operand
does just that.  Such blocks are interchangeable (`Passes`): what comes of the tokens on
both sides of a block is settled without it (`around`), and what the block sends out is put
in between (`ofTokens_of_passes`).

Nothing is assumed of what stands around, and of the group no more than that its
parentheses are in order.
-/
import Reckon.Proofs.Conservation

namespace Reckon

namespace Pending

/-- A block that leaves what waits as it is, and sends the same out whatever waits. -/
def Passes (block out : List Token) : Prop :=
  ∀ waiting, run waiting block = .ok (out, waiting)

theorem passes_operand {token : Token} (h : token.isOperand = true) : Passes [token] [token] := by
  intro waiting
  exact (run_singleton waiting token).trans (step_eq_ok_iff.mpr (.operand h))

/-- A group is such a block, and what goes out is what its tokens alone convert to. -/
theorem passes_group {inner : List Token} {q : Postfix} (hinner : .finish ∉ inner)
    (hq : Postfix.ofTokens .strict inner = .ok q) :
    Passes (.opening :: inner ++ [.closing]) q.tokens := by
  obtain ⟨out, held, rest, hrun, hdrain, rfl⟩ := Postfix.ofTokens_eq_ok hq
  rw [beforeFinish_eq_self hinner] at hrun
  exact run_group hrun hdrain

/-- What comes of the tokens on both sides does not depend on the block. -/
theorem run_of_passes {block out : List Token} (h : Passes block out) (pre post : List Token)
    (waiting : List Pending) :
    run waiting (pre ++ block ++ post) =
      (run waiting pre >>= fun now =>
        (run now.2 post).map fun later => (now.1 ++ out ++ later.1, later.2)) := by
  rw [List.append_assoc, run_append]
  rcases run waiting pre with error | now
  · rfl
  · show (run now.2 (block ++ post)).map _ = (run now.2 post).map _
    rw [run_append, h now.2]
    show ((run now.2 post).map _).map _ = (run now.2 post).map _
    rcases run now.2 post with error | later
    · rfl
    · simp only [Except.map, List.append_assoc]

end Pending

namespace Postfix

/--
What comes of the tokens on both sides of a block: what stands before the block in postfix
order, and what stands behind it.
-/
def around (mode : Mode) (pre post : List Token) :
    Except ParenthesisError (List Token × List Token) := do
  let now ← Pending.run [] pre
  let later ← Pending.run now.2 (beforeFinish post)
  let rest ← Pending.drain mode later.2
  return (now.1, later.1 ++ rest)

/-- **A block is put between what comes of its two sides.** -/
theorem ofTokens_of_passes {pre block out : List Token} (h : Pending.Passes block out)
    (hpre : .finish ∉ pre) (hblock : .finish ∉ block) (mode : Mode) (post : List Token) :
    ofTokens mode (pre ++ block ++ post) =
      (around mode pre post).map fun sides => ⟨sides.1 ++ out ++ sides.2⟩ := by
  have hfinish : .finish ∉ pre ++ block := by simp [hpre, hblock]
  rw [ofTokens_eq, beforeFinish_append hfinish, Pending.run_of_passes h, around]
  rcases Pending.run [] pre with error | now
  · rfl
  · show ((Pending.run now.2 (beforeFinish post)).map _ >>= _) =
      (Pending.run now.2 (beforeFinish post) >>= _).map _
    rcases Pending.run now.2 (beforeFinish post) with error | later
    · rfl
    · show (Pending.drain mode later.2).map _ = (Pending.drain mode later.2 >>= _).map _
      rcases Pending.drain mode later.2 with error | rest
      · rfl
      · simp [Except.map, bind, Except.bind, pure, Except.pure]

/-- The operands before a block are those of the tokens before it. -/
theorem operands_of_around {mode : Mode} {pre post : List Token} {sides : List Token × List Token}
    (h : around mode pre post = .ok sides) :
    sides.1.filter Token.isOperand = pre.filter Token.isOperand := by
  obtain ⟨now, hrun, h⟩ := Except.bind_eq_ok h
  obtain ⟨later, -, h⟩ := Except.bind_eq_ok h
  obtain ⟨rest, -, h⟩ := Except.bind_eq_ok h
  cases h
  exact (Pending.run_keeps hrun).operands

end Postfix

/--
**A group in parentheses stands for one operand.**  Let the tokens of a group convert in
strict mode, whatever else may be wrong with them.  Put the group in the place of an operand
`a`, between any tokens.  Then both conversions fail, and for the same reason, or the two
differ in one place only: where `a` goes out in the one, what the group converts to goes out
as a whole in the other.  The place is that of `a` and of no other operand, since as many
operands come before it in postfix order as come before `a`, and they are the same ones.
-/
theorem ofTokens_group_as_operand {pre inner : List Token} {a : Token} {q : Postfix}
    (hpre : .finish ∉ pre) (hinner : .finish ∉ inner) (ha : a.isOperand = true)
    (hq : Postfix.ofTokens .strict inner = .ok q) (mode : Mode) (post : List Token) :
    (∃ error, Postfix.ofTokens mode (pre ++ [a] ++ post) = .error error ∧
      Postfix.ofTokens mode (pre ++ (.opening :: inner ++ [.closing]) ++ post) = .error error) ∨
    ∃ front back, front.filter Token.isOperand = pre.filter Token.isOperand ∧
      Postfix.ofTokens mode (pre ++ [a] ++ post) = .ok ⟨front ++ [a] ++ back⟩ ∧
      Postfix.ofTokens mode (pre ++ (.opening :: inner ++ [.closing]) ++ post) =
        .ok ⟨front ++ q.tokens ++ back⟩ := by
  have hfinish : .finish ∉ [a] := by
    intro hmem
    rw [← List.mem_singleton.mp hmem] at ha
    cases ha
  have hgroup : .finish ∉ Token.opening :: inner ++ [.closing] := by simp [hinner]
  rw [Postfix.ofTokens_of_passes (Pending.passes_operand ha) hpre hfinish,
    Postfix.ofTokens_of_passes (Pending.passes_group hinner hq) hpre hgroup]
  rcases hsides : Postfix.around mode pre post with error | sides
  · exact Or.inl ⟨error, rfl, rfl⟩
  · exact Or.inr ⟨sides.1, sides.2, Postfix.operands_of_around hsides, rfl, rfl⟩

/--
In `(x*7+1` the 7 is replaced by `(+5 6-)`, where one operator stands before its operands and
one behind them.  The parenthesis left open outside stays where it is.
-/
theorem ofTokens_group_as_operand_malformed :
    let pre : List Token := [.opening, .name "x", .operator .mul]
    let inner : List Token := [.operator .add, .number 5, .number 6, .operator .sub]
    let post : List Token := [.operator .add, .number 1, .finish, .closing]
    let q : Postfix := ⟨[.number 5, .number 6, .operator .add, .operator .sub]⟩
    let behind : List Token := [.operator .mul, .number 1, .operator .add, .opening]
    (.finish ∉ pre ∧ .finish ∉ inner ∧ (Token.number 7).isOperand = true ∧
      Postfix.ofTokens .strict inner = .ok q ∧
      Postfix.ofTokens .lenient (pre ++ [.number 7] ++ post) =
        .ok ⟨.name "x" :: .number 7 :: behind⟩) ∧
    Postfix.ofTokens .lenient (pre ++ (.opening :: inner ++ [.closing]) ++ post) =
      .ok ⟨.name "x" :: q.tokens ++ behind⟩ := by
  intro pre inner post q behind
  have hpre : .finish ∉ pre := by decide
  have hinner : .finish ∉ inner := by decide
  have hq : Postfix.ofTokens .strict inner = .ok q := by decide
  have hoperand : Postfix.ofTokens .lenient (pre ++ [.number 7] ++ post) =
      .ok ⟨.name "x" :: .number 7 :: behind⟩ := by decide
  refine ⟨⟨hpre, hinner, rfl, hq, hoperand⟩, ?_⟩
  rcases ofTokens_group_as_operand hpre hinner (a := .number 7) rfl hq .lenient post with
    ⟨error, hfails, -⟩ | ⟨front, back, hfront, hconverts, hgroup⟩
  · rw [hoperand] at hfails
    cases hfails
  · -- Only `x` comes before the 7 that is replaced.
    have hsame := Postfix.mk.inj (Except.ok.inj (hoperand.symm.trans hconverts))
    rcases front with _ | ⟨first, _ | ⟨second, front⟩⟩
    · cases hfront
    · obtain ⟨rfl, rfl⟩ : Token.name "x" = first ∧ behind = back := by simpa using hsame
      exact hgroup
    · obtain ⟨rfl, rfl, -⟩ : Token.name "x" = first ∧ Token.number 7 = second ∧ _ := by
        simpa using hsame
      cases hfront

end Reckon
