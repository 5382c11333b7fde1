/-
A name may be replaced by an expression that has its value.

The expression is put in parentheses, so the conversion treats it as it treats the
name: it sends something out and leaves what waits alone.  So the postfix order with
the expression in place is the postfix order with the name, in which every such name
has been replaced by the expression's own postfix order (`run_flatMap`).  Reducing
that puts on the stack the one value that the name stands for.

Nothing is assumed of the text around the name.  What fails there fails in the same
way on both sides.
-/
import Reckon.Proofs.Stack
import Reckon.Proofs.Waiting
import Mathlib.Logic.Function.Basic

namespace Reckon

/-! ### Blocks in the place of tokens -/

section Blocks

variable {block image : Token → List Token}

/-- If each block does what its token does, but for what goes out, so do all of them. -/
theorem Pending.run_flatMap
    (h : ∀ waiting token, run waiting (block token) =
      (step waiting token).map fun now => (now.1.flatMap image, now.2)) (tokens : List Token) :
    ∀ waiting, run waiting (tokens.flatMap block) =
      (run waiting tokens).map fun now => (now.1.flatMap image, now.2) := by
  induction tokens with
  | nil => intro waiting; rfl
  | cons token rest ih =>
      intro waiting
      rw [List.flatMap_cons, run_append, h, run_cons]
      rcases step waiting token with error | now
      · rfl
      · show (run now.2 (rest.flatMap block)).map _ = ((run now.2 rest).map _).map _
        rw [ih]
        rcases run now.2 rest with error | later
        · rfl
        · simp only [Except.map, List.flatMap_append]

theorem beforeFinish_flatMap (hfinish : block .finish = [.finish])
    (hother : ∀ token, token ≠ .finish → .finish ∉ block token) (tokens : List Token) :
    beforeFinish (tokens.flatMap block) = (beforeFinish tokens).flatMap block := by
  induction tokens with
  | nil => rfl
  | cons token rest ih =>
      unfold beforeFinish at ih ⊢
      by_cases ht : token = .finish
      · subst ht
        rw [List.flatMap_cons, hfinish, List.singleton_append,
          List.takeWhile_cons_of_neg (by simp), List.takeWhile_cons_of_neg (by simp),
          List.flatMap_nil]
      · have hall : ∀ found ∈ block token, decide (found ≠ .finish) = true := by
          intro found hfound
          simpa using fun hc : found = .finish => hother token ht (hc ▸ hfound)
        rw [List.flatMap_cons, List.takeWhile_append_of_pos hall, ih,
          List.takeWhile_cons_of_pos (by simpa using ht), List.flatMap_cons]

/-- If each image does to a stack what its token does under other variables, so do all of them. -/
theorem OperandStack.foldlM_take_flatMap {vars vars' : Variables}
    (h : ∀ s token, (image token).foldlM (take vars) s = take vars' s token)
    (tokens : List Token) :
    ∀ s, (tokens.flatMap image).foldlM (take vars) s = tokens.foldlM (take vars') s := by
  induction tokens with
  | nil => intro s; rfl
  | cons token rest ih =>
      intro s
      rw [List.flatMap_cons, List.foldlM_append, h, List.foldlM_cons]
      rcases take vars' s token with error | next
      · rfl
      · exact ih next

end Blocks

/-! ### A name and what stands for it -/

namespace Token

/-- Some tokens in parentheses in the place of a name. -/
def substitute (name : String) (inner : List Token) : Token → List Token
  | .name text => if text = name then .opening :: inner ++ [.closing] else [.name text]
  | token => [token]

/-- Some tokens of postfix order in the place of a name. -/
def splice (name : String) (tokens : List Token) : Token → List Token
  | .name text => if text = name then tokens else [.name text]
  | token => [token]

theorem flatMap_splice_waiting (name : String) (tokens : List Token) (waiting : List Pending) :
    (waiting.map Pending.token).flatMap (splice name tokens) = waiting.map Pending.token := by
  induction waiting with
  | nil => rfl
  | cons entry rest ih =>
      rw [List.map_cons, List.flatMap_cons, ih]
      rcases entry with op | _ <;> rfl

end Token

section

variable {name : String} {inner out rest : List Token} {held : List Pending}

/-- In parentheses, an expression does what the name does, but for what goes out. -/
theorem Pending.run_substitute (hrun : run [] inner = .ok (out, held))
    (hdrain : drain .strict held = .ok rest) (waiting : List Pending) (token : Token) :
    run waiting (token.substitute name inner) =
      (step waiting token).map fun now =>
        (now.1.flatMap (Token.splice name (out ++ rest)), now.2) := by
  rcases token with value | text | op | _ | _ | _
  · rfl
  · by_cases ht : text = name
    · rw [Token.substitute, if_pos ht, run_group hrun hdrain]
      simp [step, Except.map, Token.splice, ht]
    · rw [Token.substitute, if_neg ht]
      simp [run, step, Except.map, Token.splice, ht, bind, Except.bind, pure, Except.pure]
  · rw [Token.substitute, run_singleton]
    · simp only [step, Except.map, Token.flatMap_splice_waiting]
    · simp
  · rfl
  · rw [Token.substitute, run_singleton]
    · simp only [step]
      rcases waiting.dropWhile isOperator with _ | ⟨entry, below⟩
      · rfl
      · simp only [Except.map, Token.flatMap_splice_waiting]
    · simp
  · rfl

/-- The conversion carries the replacement over to postfix order, in either mode. -/
theorem Postfix.ofTokens_substitute (hrun : Pending.run [] inner = .ok (out, held))
    (hdrain : Pending.drain .strict held = .ok rest) (hinner : .finish ∉ inner) (mode : Mode)
    (tokens : List Token) :
    Postfix.ofTokens mode (tokens.flatMap (Token.substitute name inner)) =
      (Postfix.ofTokens mode tokens).map fun p =>
        ⟨p.tokens.flatMap (Token.splice name (out ++ rest))⟩ := by
  have hblock : ∀ token : Token, token ≠ .finish → .finish ∉ token.substitute name inner := by
    intro token hne
    rcases token with value | text | op | _ | _ | _
    · simp [Token.substitute]
    · by_cases ht : text = name
      · simpa [Token.substitute, ht] using hinner
      · simp [Token.substitute, ht]
    · simp [Token.substitute]
    · simp [Token.substitute]
    · simp [Token.substitute]
    · exact absurd rfl hne
  rw [Postfix.ofTokens_eq, Postfix.ofTokens_eq, beforeFinish_flatMap rfl hblock,
    Pending.run_flatMap (Pending.run_substitute hrun hdrain)]
  rcases Pending.run [] (beforeFinish tokens) with error | now
  · rfl
  · show (Pending.drain mode now.2).map _ = ((Pending.drain mode now.2).map _).map _
    unfold Pending.drain
    by_cases hopen : mode = .strict ∧ Pending.opening ∈ now.2
    · rw [if_pos hopen]
      rfl
    · rw [if_neg hopen]
      simp only [Except.map, List.flatMap_append, Token.flatMap_splice_waiting]

end

theorem OperandStack.take_splice {name : String} {tokens : List Token} {vars : Variables}
    {value : Int64} (h : tokens.foldlM (take vars) .empty = .ok ⟨[value]⟩) (s : OperandStack)
    (token : Token) :
    (token.splice name tokens).foldlM (take vars) s =
      take (Function.update vars name (some value)) s token := by
  have hsingle : ∀ token : Token, [token].foldlM (take vars) s = take vars s token := by
    intro token
    rw [List.foldlM_cons]
    rcases take vars s token with error | next <;> rfl
  rcases token with number | text | op | _ | _ | _
  · rfl
  · by_cases ht : text = name
    · subst ht
      rw [Token.splice, if_pos rfl, take, Function.update_self]
      exact foldlM_take_above h s.topmostFirst
    · rw [Token.splice, if_neg ht, hsingle, take, take, Function.update_of_ne ht]
  · rw [Token.splice, hsingle]
    · rfl
    · simp
  · rfl
  · rfl
  · rfl

/--
**A name may be replaced by an expression that has its value.**  Let `inner` be the
tokens of a text that strictly has a value, and let `s'` be a text whose tokens are
those of `s` with `inner` in parentheses for each occurrence of the name.  Then `s'`
comes to what `s` comes to when the name has that value, be it a value or an error,
and in either mode.
-/
theorem evaluate_substitute {s e s' name : String} {tokens inner : List Token}
    {vars : Variables} {value : Int64} (hs : tokenize s = .ok tokens)
    (he : tokenize e = .ok (inner ++ [.finish]))
    (hs' : tokenize s' = .ok (tokens.flatMap (Token.substitute name inner)))
    (hvalue : evaluate .strict vars e = .ok value) (mode : Mode) :
    evaluate mode vars s' = evaluate mode (Function.update vars name (some value)) s := by
  -- What `e` has gone through as in strict mode: no parenthesis open, one operand left.
  obtain ⟨p, stack, hp, hreduce, hresult⟩ := evaluate_eq_ok he hvalue
  obtain ⟨out, held, rest, hrun, hdrain, rfl⟩ := Postfix.ofTokens_eq_ok hp
  have hinner := finish_not_mem_of_tokenize he
  rw [beforeFinish_append_finish hinner] at hrun
  rw [OperandStack.result_strict_eq_ok hresult] at hreduce
  rw [evaluate_of_tokenize hs', evaluate_of_tokenize hs,
    Postfix.ofTokens_substitute hrun hdrain hinner]
  rcases Postfix.ofTokens mode tokens with error | q
  · rfl
  · have hsame : Postfix.reduce vars ⟨q.tokens.flatMap (Token.splice name (out ++ rest))⟩ =
        q.reduce (Function.update vars name (some value)) :=
      OperandStack.foldlM_take_flatMap (OperandStack.take_splice hreduce) q.tokens .empty
    show (Postfix.value mode vars ⟨_⟩).mapError _ = (q.value mode _).mapError _
    unfold Postfix.value
    rw [hsame]

/-- `2*x-(x` with `1 +2` for `x`: the parenthesis left open is misplaced on both sides. -/
theorem evaluate_substitute_unclosed :
    let vars : Variables := fun _ => none
    let tokens : List Token := [.number 2, .operator .mul, .name "x", .operator .sub, .opening,
      .name "x", .finish]
    let inner : List Token := [.number 1, .operator .add, .number 2]
    (tokenize "2*x-(x" = .ok tokens ∧ tokenize "1 +2" = .ok (inner ++ [.finish]) ∧
      tokenize "2*(1+2)-((1+2)" = .ok (tokens.flatMap (Token.substitute "x" inner)) ∧
      evaluate .strict vars "1 +2" = .ok 3) ∧
    evaluate .lenient vars "2*(1+2)-((1+2)" =
      evaluate .lenient (Function.update vars "x" (some 3)) "2*x-(x" := by
  intro vars tokens inner
  have hs : tokenize "2*x-(x" = .ok tokens := by decide +kernel
  have he : tokenize "1 +2" = .ok (inner ++ [.finish]) := by decide +kernel
  have hs' : tokenize "2*(1+2)-((1+2)" = .ok (tokens.flatMap (Token.substitute "x" inner)) := by
    decide +kernel
  have hvalue : evaluate .strict vars "1 +2" = .ok 3 := by decide +kernel
  exact ⟨⟨hs, he, hs', hvalue⟩, evaluate_substitute hs he hs' hvalue .lenient⟩

end Reckon
