/-
What the log of an evaluation says of it.

Tokens are noted in order, from the first one on, and each before it is taken.  So the notes
go as far as tokens are taken, and the last one is of the token that fails if one does
(`takeLogged_of_eq_error`).  The depth in a note needs no stack to be told: it is the surplus
of operands over operators in what stands before the token (`Notes`), which one token that is
taken keeps up (`Notes.cons`), and so do all (`notes_takeLogged`).

Around the notes there are the postfix order in front and the outcome behind, and nothing else.
-/
import Reckon.Proofs.Conservation
import Reckon.Trace

namespace Reckon

/-! ### Notes of tokens -/

/-- Events are notes of the first tokens in order, each with as many operands as there are by
then if there are `size` in the beginning. -/
def Notes (size : Int) (tokens : List Token) (events : List Event) : Prop :=
  ∀ index event, events[index]? = some event →
    ∃ (token : Token) (depth : Nat), tokens[index]? = some token ∧
      (depth : Int) = size + surplus (tokens.take index) ∧ event = .taking token depth

theorem Notes.nil (size : Int) (tokens : List Token) : Notes size tokens [] := by
  intro index event h
  simp at h

theorem Notes.cons {size : Nat} {token : Token} {rest : List Token} {events : List Event}
    (h : Notes (size + surplus [token]) rest events) :
    Notes size (token :: rest) (.taking token size :: events) := by
  intro index event hevent
  cases index with
  | zero =>
      obtain rfl := Option.some.inj hevent
      exact ⟨token, size, rfl, (Int.add_zero _).symm, rfl⟩
  | succ index =>
      obtain ⟨found, depth, hfound, hdepth, rfl⟩ := h index event hevent
      refine ⟨found, depth, hfound, ?_, rfl⟩
      rw [List.take_succ_cons, surplus_cons, hdepth, Int.add_assoc]

namespace OperandStack

variable {vars : Variables} {s s' : OperandStack} {token : Token} {tokens : List Token}
  {error : ReductionError}

theorem takeLogged_cons_error (h : s.take vars token = .error error) (rest : List Token) :
    s.takeLogged vars (token :: rest) = ([.taking token s.size], .error error) := by
  rw [takeLogged, h]

theorem takeLogged_cons_ok (h : s.take vars token = .ok s') (rest : List Token) :
    (s.takeLogged vars (token :: rest)).1 =
      .taking token s.size :: (s'.takeLogged vars rest).1 := by
  rw [takeLogged, h]

/-- **Each note tells the surplus of what stands before its token.** -/
theorem notes_takeLogged (vars : Variables) (tokens : List Token) :
    ∀ s : OperandStack, Notes s.size tokens (s.takeLogged vars tokens).1 := by
  induction tokens with
  | nil =>
      intro s
      exact Notes.nil _ _
  | cons token rest ih =>
      intro s
      rcases htake : s.take vars token with error | next
      · rw [takeLogged_cons_error htake]
        exact (Notes.nil _ rest).cons
      · have hnext := ih next
        rw [size_of_take htake] at hnext
        rw [takeLogged_cons_ok htake]
        exact hnext.cons

theorem length_takeLogged_of_eq_ok :
    ∀ {s s' : OperandStack}, tokens.foldlM (take vars) s = .ok s' →
      (s.takeLogged vars tokens).1.length = tokens.length := by
  induction tokens with
  | nil =>
      intro s s' _
      rfl
  | cons token rest ih =>
      intro s s' h
      rw [List.foldlM_cons] at h
      obtain ⟨next, htake, hrest⟩ := Except.bind_eq_ok h
      rw [takeLogged_cons_ok htake, List.length_cons, ih hrest, List.length_cons]

/-- Where a token fails, it is the last one that is noted. -/
theorem takeLogged_of_eq_error :
    ∀ {s : OperandStack}, tokens.foldlM (take vars) s = .error error →
      ∃ index token s', (s.takeLogged vars tokens).1.length = index + 1 ∧
        tokens[index]? = some token ∧ (tokens.take index).foldlM (take vars) s = .ok s' ∧
        s'.take vars token = .error error := by
  induction tokens with
  | nil =>
      intro s h
      cases h
  | cons token rest ih =>
      intro s h
      rw [List.foldlM_cons] at h
      rcases Except.bind_eq_error h with htake | ⟨next, htake, hrest⟩
      · rw [takeLogged_cons_error htake]
        exact ⟨0, token, s, rfl, rfl, rfl, htake⟩
      · obtain ⟨index, found, s', hlength, hfound, hbefore, hfails⟩ := ih hrest
        refine ⟨index + 1, found, s', ?_, hfound, ?_, hfails⟩
        · rw [takeLogged_cons_ok htake, List.length_cons, hlength]
        · rw [List.take_succ_cons, List.foldlM_cons, htake]
          exact hbefore

end OperandStack

/-! ### The whole log -/

section Log

variable {mode : Mode} {source : String}

theorem evaluateLogged_of_ofSource_error {error : Error}
    (h : Postfix.ofSource mode source = .error error) (vars : Variables) :
    evaluateLogged mode vars source = ([.failed source error], .error error) := by
  rw [evaluateLogged, h]

theorem evaluateLogged_of_ofSource {p : Postfix} (h : Postfix.ofSource mode source = .ok p)
    (vars : Variables) :
    (evaluateLogged mode vars source).1 =
      .converted p :: (OperandStack.empty.takeLogged vars p.tokens).1 ++
        [.ofOutcome source (evaluate mode vars source)] := by
  rw [← evaluateLogged_snd, evaluateLogged, h]

end Log

/--
**A log is exact.**  A text that does not scan or convert leaves one event, which is that it has
no value and why.  Any other leaves its postfix order, then notes of its tokens in order, then its
value or why it has none.  The depth in a note is the surplus of operands over operators in what
stands before the token.  All tokens are noted if all can be taken, whatever becomes of the
operands that are there in the end.  Otherwise the last note is of the token that cannot be taken,
and the error that ends the log is what is wrong with it.
-/
theorem evaluateLogged_events (mode : Mode) (vars : Variables) (source : String) :
    (∀ error, Postfix.ofSource mode source = .error error →
      evaluateLogged mode vars source = ([.failed source error], .error error) ∧
      (Event.failed source error).fields =
        [("message", "evaluation failed"), ("expression", source), ("err", error.message)]) ∧
    ∀ p, Postfix.ofSource mode source = .ok p →
      ∃ taken last, (evaluateLogged mode vars source).1 = .converted p :: taken ++ [last] ∧
        (Event.converted p).fields =
          [("message", "converted to postfix"), ("postfix", p.text)] ∧
        (∀ index event, taken[index]? = some event →
          ∃ (token : Token) (depth : Nat), p.tokens[index]? = some token ∧
            (depth : Int) = surplus (p.tokens.take index) ∧ event = .taking token depth ∧
            event.fields =
              [("message", "eval"), ("token", token.text), ("depth", Decimal.countText depth)]) ∧
        (∀ s, p.reduce vars = .ok s → taken.length = p.length) ∧
        (∀ error, p.reduce vars = .error error →
          evaluate mode vars source = .error (.reduction error) ∧
          ∃ index token s, taken.length = index + 1 ∧ p.tokens[index]? = some token ∧
            (p.tokens.take index).foldlM (OperandStack.take vars) .empty = .ok s ∧
            s.take vars token = .error error) ∧
        (∀ value, evaluate mode vars source = .ok value →
          last = .evaluated source value ∧
          last.fields =
            [("message", "evaluated"), ("expression", source), ("value", Decimal.text value)]) ∧
        ∀ error, evaluate mode vars source = .error error →
          last = .failed source error ∧
          last.fields =
            [("message", "evaluation failed"), ("expression", source),
              ("err", error.message)] := by
  refine ⟨fun error herror => ⟨evaluateLogged_of_ofSource_error herror vars, rfl⟩, ?_⟩
  intro p hp
  refine ⟨_, _, evaluateLogged_of_ofSource hp vars, rfl, ?_, ?_, ?_, ?_, ?_⟩
  · intro index event hevent
    obtain ⟨token, depth, htoken, hdepth, rfl⟩ :=
      OperandStack.notes_takeLogged vars p.tokens .empty index event hevent
    exact ⟨token, depth, htoken, hdepth.trans (Int.zero_add _), rfl, rfl⟩
  · intro s hs
    exact OperandStack.length_takeLogged_of_eq_ok hs
  · intro error herror
    refine ⟨?_, OperandStack.takeLogged_of_eq_error herror⟩
    rw [evaluate_of_ofSource hp, Postfix.value_of_reduce_error herror]
    rfl
  · intro value hvalue
    rw [hvalue]
    exact ⟨rfl, rfl⟩
  · intro error herror
    rw [herror]
    exact ⟨rfl, rfl⟩

/--
A parenthesis that is never opened leaves one event.  In `1/0+2` notes stop where a token fails,
in `1 2` both are taken although the strict mode minds what is left over, and in `1+2` all goes
well: its operator is noted with two operands there, and then its value.
-/
theorem evaluateLogged_events_outcomes :
    let vars : Variables := fun _ => none
    let failing : Postfix := ⟨[.number 1, .number 0, .operator .div, .number 2, .operator .add]⟩
    let twoLeft : Postfix := ⟨[.number 1, .number 2]⟩
    let sum : Postfix := ⟨[.number 1, .number 2, .operator .add]⟩
    (Postfix.ofSource .lenient ")" = .error (.parenthesis .unopened) ∧
      Postfix.ofSource .lenient "1/0+2" = .ok failing ∧
      failing.reduce vars = .error .divisionByZero ∧
      Postfix.ofSource .strict "1 2" = .ok twoLeft ∧ twoLeft.reduce vars = .ok ⟨[2, 1]⟩ ∧
      evaluate .strict vars "1 2" = .error (.reduction (.leftover 1)) ∧
      Postfix.ofSource .strict "1+2" = .ok sum ∧ sum.reduce vars = .ok ⟨[3]⟩ ∧
      evaluate .strict vars "1+2" = .ok 3) ∧
    (evaluateLogged .lenient vars ")").1 = [.failed ")" (.parenthesis .unopened)] ∧
    (∃ taken index token, ∃ s : OperandStack, (evaluateLogged .lenient vars "1/0+2").1 =
        .converted failing :: taken ++ [.failed "1/0+2" (.reduction .divisionByZero)] ∧
      taken.length = index + 1 ∧ failing.tokens[index]? = some token ∧
      s.take vars token = .error .divisionByZero) ∧
    (∃ taken, (evaluateLogged .strict vars "1 2").1 =
        .converted twoLeft :: taken ++ [.failed "1 2" (.reduction (.leftover 1))] ∧
      taken.length = 2) ∧
    ∃ taken, (evaluateLogged .strict vars "1+2").1 =
        .converted sum :: taken ++ [.evaluated "1+2" 3] ∧
      taken.length = 3 ∧ taken[2]? = some (.taking (.operator .add) 2) := by
  intro vars failing twoLeft sum
  have hunopened : Postfix.ofSource .lenient ")" = .error (.parenthesis .unopened) := by
    decide +kernel
  have hfailing : Postfix.ofSource .lenient "1/0+2" = .ok failing := by decide +kernel
  have hzero : failing.reduce vars = .error .divisionByZero := by decide +kernel
  have htwoLeft : Postfix.ofSource .strict "1 2" = .ok twoLeft := by decide +kernel
  have htwo : twoLeft.reduce vars = .ok ⟨[2, 1]⟩ := by decide +kernel
  have hleftover : evaluate .strict vars "1 2" = .error (.reduction (.leftover 1)) := by
    decide +kernel
  have hsum : Postfix.ofSource .strict "1+2" = .ok sum := by decide +kernel
  have hone : sum.reduce vars = .ok ⟨[3]⟩ := by decide +kernel
  have hthree : evaluate .strict vars "1+2" = .ok 3 := by decide +kernel
  refine ⟨⟨hunopened, hfailing, hzero, htwoLeft, htwo, hleftover, hsum, hone, hthree⟩,
    ?_, ?_, ?_, ?_⟩
  · rw [((evaluateLogged_events .lenient vars ")").1 _ hunopened).1]
  · obtain ⟨taken, last, hlog, -, -, -, hfails, -, hfailed⟩ :=
      (evaluateLogged_events .lenient vars "1/0+2").2 failing hfailing
    obtain ⟨herror, index, token, s, hlength, htoken, -, htake⟩ := hfails _ hzero
    obtain ⟨rfl, -⟩ := hfailed _ herror
    exact ⟨taken, index, token, s, hlog, hlength, htoken, htake⟩
  · obtain ⟨taken, last, hlog, -, -, hall, -, -, hfailed⟩ :=
      (evaluateLogged_events .strict vars "1 2").2 twoLeft htwoLeft
    obtain ⟨rfl, -⟩ := hfailed _ hleftover
    exact ⟨taken, hlog, hall _ htwo⟩
  · obtain ⟨taken, last, hlog, -, hnotes, hall, -, hvalue, -⟩ :=
      (evaluateLogged_events .strict vars "1+2").2 sum hsum
    obtain ⟨rfl, -⟩ := hvalue _ hthree
    have hlength : taken.length = 3 := hall _ hone
    obtain ⟨event, hevent⟩ : ∃ event, taken[2]? = some event :=
      ⟨_, List.getElem?_eq_getElem (by omega)⟩
    obtain ⟨token, depth, htoken, hdepth, rfl, -⟩ := hnotes 2 event hevent
    have hsurplus : surplus (sum.tokens.take 2) = 2 := by decide
    have hadd : token = .operator .add := (Option.some.inj htoken).symm
    have hdeep : depth = 2 := by omega
    exact ⟨taken, hlog, hlength, by rw [hevent, hadd, hdeep]⟩

end Reckon
