/-
Postfix order agrees with the grammar.

The grammar is recursive, has a level for each precedence and recurses on the left;
the conversion goes through the tokens once and keeps a stack.  What ties the two
together is `run_derives`: a phrase of a level, read on top of entries that bind
more loosely than the level, leaves its postorder in two parts.  One part has gone
out, and the other waits in operators of at least that level, which the next
operator or the next closing parenthesis will release.

That the grammar gives tokens one meaning only then comes for free, since the
conversion is a function and postorder can be read in one way only.
-/
import Reckon.Expr
import Reckon.Proofs.Postorder
import Reckon.Proofs.Waiting
import Mathlib.Logic.Relation

namespace Reckon

open Reckon.Expr (Derives)

/-! ### Phrases -/

namespace Expr.Derives

theorem lower {level : Nat} {tokens : List Token} {e : Expr} (positive : 1 ≤ level) :
    ∀ {above : Nat}, level ≤ above → Derives above tokens e → Derives level tokens e := by
  intro above hle
  induction hle with
  | refl => intro h; exact h
  | step hle ih => intro h; exact ih (.lift (Nat.le_trans positive hle) h)

theorem level_le_six {level : Nat} {tokens : List Token} {e : Expr}
    (h : Derives level tokens e) : level ≤ 6 := by
  induction h with
  | number value => exact Nat.le_refl 6
  | name text => exact Nat.le_refl 6
  | group _ _ => exact Nat.le_refl 6
  | lift _ _ ih => exact Nat.le_of_succ_le ih
  | operation op _ _ _ _ => exact Nat.le_succ_of_le op.precedence_le_five

theorem finish_not_mem {level : Nat} {tokens : List Token} {e : Expr}
    (h : Derives level tokens e) : .finish ∉ tokens := by
  induction h with
  | number value => simp
  | name text => simp
  | group _ ih => simpa using ih
  | lift _ _ ih => exact ih
  | operation op _ _ ihl ihr => simpa using ⟨ihl, ihr⟩

end Expr.Derives

/-! ### Reading a phrase -/

namespace Pending

/-- **A phrase leaves its postorder, partly out and partly waiting.** -/
theorem run_derives {level : Nat} {tokens : List Token} {e : Expr}
    (h : Derives level tokens e) :
    ∀ waiting, Looser level waiting → ∃ out held,
      run waiting tokens = .ok (out, held ++ waiting) ∧ Tighter level held ∧
        out ++ held.map token = e.postorder := by
  induction h with
  | number value =>
      intro waiting _
      exact ⟨[.number value], [], rfl, by simp [Tighter], rfl⟩
  | name text =>
      intro waiting _
      exact ⟨[.name text], [], rfl, by simp [Tighter], rfl⟩
  | @group tokens e _ ih =>
      intro waiting _
      obtain ⟨out, held, hrun, hheld, hout⟩ :=
        ih (.opening :: waiting) (by intro op hop; simp at hop)
      have hopen : run waiting (.opening :: tokens) =
          .ok ([] ++ out, held ++ .opening :: waiting) :=
        run_cons_ok rfl hrun
      refine ⟨out ++ held.map token, [], ?_, by simp [Tighter], by simpa using hout⟩
      exact run_append_ok hopen ((run_singleton _ _).trans (step_closing hheld waiting))
  | lift _ _ ih =>
      intro waiting hwaiting
      obtain ⟨out, held, hrun, hheld, hout⟩ := ih waiting (hwaiting.mono (Nat.le_succ _))
      exact ⟨out, held, hrun, hheld.mono (Nat.le_succ _), hout⟩
  | operation op _ _ ihl ihr =>
      intro waiting hwaiting
      obtain ⟨outl, heldl, hrunl, hheldl, houtl⟩ := ihl waiting hwaiting
      -- The left side's operators go out with `op`, which then waits below the right side's.
      obtain ⟨outr, heldr, hrunr, hheldr, houtr⟩ :=
        ihr (.operator op :: waiting) (by intro top htop; cases htop; exact Nat.lt_succ_self _)
      refine ⟨outl ++ (heldl.map token ++ outr), heldr ++ [.operator op], ?_, ?_, ?_⟩
      · rw [List.append_assoc]
        exact run_append_ok hrunl (run_cons_ok (step_operator hheldl hwaiting) hrunr)
      · intro entry hentry
        rcases List.mem_append.mp hentry with hr | hop
        · exact hheldr.mono (Nat.le_succ _) entry hr
        · exact ⟨op, List.mem_singleton.mp hop, Nat.le_refl _⟩
      · rw [Expr.postorder, ← houtl, ← houtr, List.map_append]
        simp only [List.map_cons, List.map_nil, token, List.append_assoc]

end Pending

/-- The postfix order of a phrase, whatever follows the mark of its end. -/
theorem Postfix.ofTokens_of_derives {level : Nat} {tokens given : List Token} {e : Expr}
    (h : Derives level tokens e) (hgiven : beforeFinish given = tokens) (mode : Mode) :
    Postfix.ofTokens mode given = .ok ⟨e.postorder⟩ := by
  obtain ⟨out, held, hrun, hheld, hout⟩ :=
    Pending.run_derives h [] (by intro op hop; simp at hop)
  rw [Postfix.ofTokens_eq, hgiven, hrun, List.append_nil]
  show (Pending.drain mode held).map _ = _
  rw [Pending.drain_of_tighter hheld, ← hout]
  rfl

theorem Expr.Derives.unique {level level' : Nat} {tokens : List Token} {e e' : Expr}
    (h : Derives level tokens e) (h' : Derives level' tokens e') : e = e' := by
  have heq : beforeFinish tokens = tokens := beforeFinish_eq_self h.finish_not_mem
  have hpost := Postfix.ofTokens_of_derives h heq .lenient
  rw [Postfix.ofTokens_of_derives h' heq .lenient] at hpost
  simp only [Except.ok.injEq, Postfix.mk.injEq] at hpost
  exact (Expr.postorder_inj hpost).symm

end Reckon
