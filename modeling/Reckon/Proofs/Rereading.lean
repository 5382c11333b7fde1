/-
Postfix order can be printed and read back.

A text in postfix order has a space between any two tokens, so no two of them glue when it
is scanned again.  What is left to see is that each token has a text that is read as the
token at all.  Negative numbers have none, and neither has the mark of the end; but the
operands in postfix order come from a text, and what else there is are operators and
parentheses.

So a line that shows the postfix order of an expression says all there is to its value.
-/
import Reckon.Cli.Run
import Reckon.Proofs.Conservation
import Reckon.Proofs.Printing

namespace Reckon

/-! ### A space between any two tokens -/

namespace Gap

/-- No gap at all. -/
def nothing : Gap :=
  ⟨"", by simp⟩

/-- A space. -/
def blank : Gap :=
  ⟨" ", by simp only [String.reduceToList, List.forall_mem_singleton]; decide⟩

/-- The end of a line. -/
def newline : Gap :=
  ⟨"\n", by simp only [String.reduceToList, List.forall_mem_singleton]; decide⟩

end Gap

/-- Tokens that can be read, with a space before each. -/
def blankBefore (tokens : List Token) (h : ∀ token ∈ tokens, token.Readable) : List Piece :=
  tokens.pmap (fun token htoken => ⟨.blank, token, htoken⟩) h

theorem map_token_blankBefore {tokens : List Token} (h : ∀ token ∈ tokens, token.Readable) :
    (blankBefore tokens h).map Piece.token = tokens := by
  simp [blankBefore, List.map_pmap]

theorem blankBefore_cons {token : Token} {tokens : List Token}
    (h : ∀ found ∈ token :: tokens, found.Readable) :
    blankBefore (token :: tokens) h =
      ⟨.blank, token, h token (List.mem_cons_self ..)⟩ ::
        blankBefore tokens fun found hfound => h found (List.mem_cons_of_mem _ hfound) := rfl

theorem print_cons (piece : Piece) (pieces : List Piece) (last : Gap) :
    print (piece :: pieces) last = piece.gap.text ++ piece.token.text ++ print pieces last := rfl

/-- Without a space before the first of them, there is one between any two. -/
theorem print_blankBefore (last : Gap) {tokens : List Token}
    (h : ∀ token ∈ tokens, token.Readable) :
    ∀ {first : Token} (hfirst : first.Readable),
      print (⟨.nothing, first, hfirst⟩ :: blankBefore tokens h) last =
        " ".intercalate ((first :: tokens).map Token.text) ++ last.text := by
  induction tokens with
  | nil =>
      intro first hfirst
      simp [blankBefore, print, Gap.nothing]
  | cons second rest ih =>
      intro first hfirst
      have hrest := ih (fun token htoken => h token (List.mem_cons_of_mem _ htoken))
        (h second (List.mem_cons_self ..))
      simp only [print_cons, Gap.nothing, String.empty_append] at hrest
      rw [blankBefore_cons, print_cons, print_cons, List.map_cons, List.map_cons,
        String.intercalate_cons_cons, ← List.map_cons]
      simp only [Gap.nothing, Gap.blank, String.empty_append, String.append_assoc]
      rw [hrest]

theorem isChain_blankBefore {tokens : List Token} (h : ∀ token ∈ tokens, token.Readable) :
    ∀ first : Piece, (first :: blankBefore tokens h).IsChain fun piece next =>
      piece.token.glues next.token = true → next.gap.text ≠ "" := by
  induction tokens with
  | nil =>
      intro first
      exact List.IsChain.singleton _
  | cons second rest ih =>
      intro first
      rw [blankBefore_cons]
      refine List.isChain_cons_cons.mpr ⟨?_, ih _ _⟩
      simp [Gap.blank]

/-- If all tokens can be read, their text is read back, whatever gap is behind it. -/
theorem tokenize_text {p : Postfix} (h : ∀ token ∈ p.tokens, token.Readable) (last : Gap) :
    tokenize (p.text ++ last.text) = .ok (p.tokens ++ [.finish]) := by
  rw [tokenize_eq_ok_iff, Postfix.text]
  rcases p with ⟨_ | ⟨first, rest⟩⟩
  · have hread := (tokens_print_iff [] last 0).mpr List.IsChain.nil
    simpa [print] using hread
  · obtain ⟨hfirst, hrest⟩ := List.forall_mem_cons.mp h
    have hread :=
      (tokens_print_iff _ last 0).mpr (isChain_blankBefore hrest ⟨.nothing, first, hfirst⟩)
    rw [print_blankBefore, List.map_cons (f := Piece.token), map_token_blankBefore] at hread
    exact hread

/-! ### Postfix order of a text -/

theorem Postfix.readable_of_ofSource {mode : Mode} {source : String} {p : Postfix}
    (h : Postfix.ofSource mode source = .ok p) : ∀ token ∈ p.tokens, token.Readable := by
  obtain ⟨tokens, hscan, hp⟩ := Postfix.ofSource_eq_ok h
  obtain ⟨inner, rfl, -⟩ := exists_inner_of_tokenize hscan
  have hinner := Lexeme.readable_of_mem (tokenize_eq_ok_iff.mp hscan)
  intro token hmem
  rcases Postfix.plain hp token hmem with rfl | hoperand | hoperator
  · exact trivial
  · rcases List.mem_append.mp (Postfix.mem_of_isOperand hp hmem hoperand) with hin | hfinish
    · exact hinner token hin
    · rw [List.mem_singleton.mp hfinish] at hoperand
      cases hoperand
  · cases token with
    | operator op => exact trivial
    | number _ | name _ | opening | closing | finish => cases hoperator

/-- The value of a text that is in postfix order already: its tokens are reduced as they stand. -/
def evaluatePrinted (mode : Mode) (vars : Variables) (text : String) : Except Error Int64 := do
  let tokens ← (tokenize text).mapError .lexical
  (Postfix.value mode vars ⟨beforeFinish tokens⟩).mapError .reduction

theorem evaluatePrinted_of_ofSource {mode : Mode} {source : String} {p : Postfix}
    (h : Postfix.ofSource mode source = .ok p) (last : Gap) (vars : Variables) :
    evaluatePrinted mode vars (p.text ++ last.text) = evaluate mode vars source := by
  have hreadable := Postfix.readable_of_ofSource h
  have hfinish : .finish ∉ p.tokens := fun hmem => hreadable _ hmem
  unfold evaluatePrinted evaluate
  rw [tokenize_text hreadable, h]
  show (Postfix.value mode vars ⟨beforeFinish (p.tokens ++ .finish :: [])⟩).mapError _ = _
  rw [beforeFinish_append_finish hfinish]
  rfl

/--
**Postfix order that is printed says all there is to the value.**  The text of the postfix
order of a source is read as just its tokens.  Reduced as they stand, these come to what
the source comes to, value or error, under any variables and in the same mode.  The line
that a run shows in place of the value is such a text.
-/
theorem postfix_text_rereads {mode : Mode} {source : String} {p : Postfix}
    (h : Postfix.ofSource mode source = .ok p) :
    tokenize p.text = .ok (p.tokens ++ [.finish]) ∧
    (∀ vars, evaluatePrinted mode vars p.text = evaluate mode vars source) ∧
    ∀ config : Cli.Config, config.expression = source → Mode.ofStrict config.strict = mode →
      config.postfixOnly = true →
      ∃ line, config.run = .ok line ∧ tokenize line = .ok (p.tokens ++ [.finish]) ∧
        ∀ vars, evaluatePrinted mode vars line = evaluate mode vars source := by
  have hreadable := Postfix.readable_of_ofSource h
  refine ⟨?_, ?_, ?_⟩
  · simpa [Gap.nothing] using tokenize_text hreadable .nothing
  · intro vars
    simpa [Gap.nothing] using evaluatePrinted_of_ofSource h .nothing vars
  · intro config hexpression hmode honly
    refine ⟨p.text ++ Gap.newline.text, ?_, tokenize_text hreadable .newline,
      evaluatePrinted_of_ofSource h .newline⟩
    unfold Cli.Config.run
    rw [hmode, hexpression, if_pos honly, h]
    rfl

/-- `(x==(1<2)` is printed as `x 1 2 < == (`, where `<` and `==` would glue without the space. -/
theorem postfix_text_rereads_unclosed :
    let source := "(x==(1<2)"
    let p : Postfix := ⟨[.name "x", .number 1, .number 2, .operator .lt, .operator .eq, .opening]⟩
    let config : Cli.Config :=
      { expression := source, bindings := ∅, strict := false, postfixOnly := true, verbose := false }
    (Postfix.ofSource .lenient source = .ok p ∧ config.expression = source ∧
      Mode.ofStrict config.strict = .lenient ∧ config.postfixOnly = true) ∧
    tokenize p.text = .ok (p.tokens ++ [.finish]) ∧
      ∃ line, config.run = .ok line ∧
        ∀ vars, evaluatePrinted .lenient vars line = evaluate .lenient vars source := by
  intro source p config
  have hp : Postfix.ofSource .lenient source = .ok p := by decide +kernel
  obtain ⟨hread, -, hrun⟩ := postfix_text_rereads hp
  obtain ⟨line, hline, -, hvalue⟩ := hrun config rfl rfl rfl
  exact ⟨⟨hp, rfl, rfl, rfl⟩, hread, line, hline, hvalue⟩

end Reckon
