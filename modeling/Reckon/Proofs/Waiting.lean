/-
What a stretch of tokens does to the entries that wait.

`Postfix.ofTokens` folds over all tokens and collects what goes out.  Here the same
is said of any stretch, from any waiting entries on: `Pending.run` gives what goes
out on the way and what waits behind it, and `ofTokens_eq` brings the whole back to
it.

A stretch never looks below an opening parenthesis that waits.  `run_above` says so,
and it is what makes a group independent of all around it.

What one token can do at all is listed once (`Steps`), so that whatever a stretch keeps
is seen from these ways, and not from how entries are taken off and put back.
-/
import Reckon.Postfix
import Reckon.Proofs.Outcome
import Mathlib.Data.List.TakeWhile

namespace Reckon

namespace Pending

/-- What goes out while a stretch of tokens is read, and what waits behind it. -/
def run (waiting : List Pending) :
    List Token → Except ParenthesisError (List Token × List Pending)
  | [] => .ok ([], waiting)
  | token :: rest => do
      let now ← step waiting token
      let later ← run now.2 rest
      return (now.1 ++ later.1, later.2)

@[simp] theorem run_nil (waiting : List Pending) : run waiting [] = .ok ([], waiting) := rfl

theorem run_cons (waiting : List Pending) (token : Token) (rest : List Token) :
    run waiting (token :: rest) =
      (step waiting token >>= fun now =>
        (run now.2 rest).map fun later => (now.1 ++ later.1, later.2)) := by
  rw [run]
  rcases step waiting token with error | now
  · rfl
  · show (run now.2 rest >>= _) = (run now.2 rest).map _
    rcases run now.2 rest with error | later <;> rfl

theorem run_cons_ok {waiting waiting' waiting'' : List Pending} {token : Token}
    {rest out more : List Token} (h : step waiting token = .ok (out, waiting'))
    (hrest : run waiting' rest = .ok (more, waiting'')) :
    run waiting (token :: rest) = .ok (out ++ more, waiting'') := by
  rw [run_cons, h]
  show (run waiting' rest).map _ = _
  rw [hrest]
  rfl

theorem run_cons_eq_ok {waiting waiting' : List Pending} {token : Token}
    {rest out : List Token} (h : run waiting (token :: rest) = .ok (out, waiting')) :
    ∃ now middle later, step waiting token = .ok (now, middle) ∧
      run middle rest = .ok (later, waiting') ∧ out = now ++ later := by
  rw [run_cons] at h
  obtain ⟨⟨now, middle⟩, hstep, h⟩ := Except.bind_eq_ok h
  obtain ⟨⟨later, last⟩, hrest, h⟩ := Except.map_eq_ok h
  cases h
  exact ⟨now, middle, later, hstep, hrest, rfl⟩

@[simp] theorem run_singleton (waiting : List Pending) (token : Token) :
    run waiting [token] = step waiting token := by
  rw [run_cons]
  rcases step waiting token with error | now
  · rfl
  · simp [Except.map, bind, Except.bind]

theorem run_append (first second : List Token) :
    ∀ waiting : List Pending,
      run waiting (first ++ second) =
        (run waiting first >>= fun now =>
          (run now.2 second).map fun later => (now.1 ++ later.1, later.2)) := by
  induction first with
  | nil =>
      intro waiting
      show run waiting second = (run waiting second).map _
      rcases run waiting second with error | later <;> rfl
  | cons token rest ih =>
      intro waiting
      rw [List.cons_append, run_cons, run_cons]
      rcases step waiting token with error | now
      · rfl
      · show (run now.2 (rest ++ second)).map _ = ((run now.2 rest).map _ >>= _)
        rw [ih]
        rcases run now.2 rest with error | later
        · rfl
        · show ((run later.2 second).map _).map _ = (run later.2 second).map _
          rcases run later.2 second with error | last
          · rfl
          · simp only [Except.map, List.append_assoc]

theorem run_append_ok {waiting waiting' waiting'' : List Pending}
    {first second out more : List Token} (h : run waiting first = .ok (out, waiting'))
    (hsecond : run waiting' second = .ok (more, waiting'')) :
    run waiting (first ++ second) = .ok (out ++ more, waiting'') := by
  rw [run_append, h]
  show (run waiting' second).map _ = _
  rw [hsecond]
  rfl

/-! ### Operators that wait on top -/

/-- On top there is no operator that binds as tightly as `level`. -/
def Looser (level : Nat) (waiting : List Pending) : Prop :=
  ∀ op, waiting.head? = some (.operator op) → op.precedence < level

/-- All entries are operators that bind at least as tightly as `level`. -/
def Tighter (level : Nat) (held : List Pending) : Prop :=
  ∀ entry ∈ held, ∃ op, entry = .operator op ∧ level ≤ op.precedence

theorem Looser.mono {level level' : Nat} {waiting : List Pending}
    (h : Looser level waiting) (hle : level ≤ level') : Looser level' waiting :=
  fun op hop => Nat.lt_of_lt_of_le (h op hop) hle

theorem Tighter.mono {level level' : Nat} {held : List Pending} (h : Tighter level' held)
    (hle : level ≤ level') : Tighter level held := by
  intro entry hentry
  obtain ⟨op, heq, hop⟩ := h entry hentry
  exact ⟨op, heq, Nat.le_trans hle hop⟩

theorem Looser.dropWhile_yieldsTo {op : Operator} {waiting : List Pending}
    (h : Looser op.precedence waiting) :
    waiting.takeWhile (yieldsTo op) = [] ∧ waiting.dropWhile (yieldsTo op) = waiting := by
  rcases waiting with _ | ⟨top | _, rest⟩
  · exact ⟨rfl, rfl⟩
  · have htop : ¬ yieldsTo op (.operator top) = true := by
      have := h top rfl
      simp only [yieldsTo, decide_eq_true_eq]
      omega
    exact ⟨List.takeWhile_cons_of_neg htop, List.dropWhile_cons_of_neg htop⟩
  · exact ⟨List.takeWhile_cons_of_neg (by simp),
      List.dropWhile_cons_of_neg (by simp)⟩

/-- An operator releases what binds as tightly, and then waits on top of the rest. -/
theorem step_operator {op : Operator} {held waiting : List Pending}
    (hheld : Tighter op.precedence held) (hwaiting : Looser op.precedence waiting) :
    step (held ++ waiting) (.operator op) =
      .ok (held.map token, .operator op :: waiting) := by
  have hall : ∀ entry ∈ held, yieldsTo op entry = true := by
    intro entry hentry
    obtain ⟨top, rfl, htop⟩ := hheld entry hentry
    simpa using htop
  obtain ⟨htake, hdrop⟩ := hwaiting.dropWhile_yieldsTo
  simp only [step, List.takeWhile_append_of_pos hall, List.dropWhile_append_of_pos hall, htake,
    hdrop, List.append_nil]

/-- A closing parenthesis releases all operators of its group. -/
theorem step_closing {level : Nat} {held : List Pending} (hheld : Tighter level held)
    (below : List Pending) :
    step (held ++ .opening :: below) .closing = .ok (held.map token, below) := by
  have hall : ∀ entry ∈ held, isOperator entry = true := by
    intro entry hentry
    obtain ⟨top, rfl, -⟩ := hheld entry hentry
    rfl
  have htake : (Pending.opening :: below).takeWhile isOperator = [] :=
    List.takeWhile_cons_of_neg (by simp)
  have hdrop : (Pending.opening :: below).dropWhile isOperator = .opening :: below :=
    List.dropWhile_cons_of_neg (by simp)
  simp only [step, List.takeWhile_append_of_pos hall, List.dropWhile_append_of_pos hall, htake,
    hdrop, List.append_nil]

theorem Tighter.opening_not_mem {level : Nat} {held : List Pending} (h : Tighter level held) :
    .opening ∉ held := by
  intro hmem
  obtain ⟨op, hop, -⟩ := h _ hmem
  cases hop

/-- If nothing open waits behind a stretch, all that waits are operators. -/
theorem tighter_of_not_mem {waiting : List Pending} (h : .opening ∉ waiting) :
    Tighter 0 waiting := by
  intro entry hentry
  rcases entry with op | _
  · exact ⟨op, rfl, Nat.zero_le _⟩
  · exact absurd hentry h

/-! ### Where the entries are cut -/

theorem eq_false_of_dropWhile {p : Pending → Bool} {waiting below : List Pending} {entry : Pending}
    (h : waiting.dropWhile p = entry :: below) : p entry = false := by
  have hhead := List.head?_dropWhile_not p waiting
  rw [h] at hhead
  simpa using hhead

theorem tighter_takeWhile_yieldsTo (op : Operator) (waiting : List Pending) :
    Tighter op.precedence (waiting.takeWhile (yieldsTo op)) := by
  intro entry hentry
  have hyields := List.mem_takeWhile_imp hentry
  cases entry with
  | operator top => exact ⟨top, rfl, by simpa using hyields⟩
  | opening => simp at hyields

theorem looser_dropWhile_yieldsTo (op : Operator) (waiting : List Pending) :
    Looser op.precedence (waiting.dropWhile (yieldsTo op)) := by
  intro top htop
  obtain ⟨below, hbelow⟩ := List.head?_eq_some_iff.mp htop
  simpa using eq_false_of_dropWhile hbelow

theorem tighter_takeWhile_isOperator (waiting : List Pending) :
    Tighter 0 (waiting.takeWhile isOperator) := by
  refine tighter_of_not_mem fun hmem => ?_
  simpa using List.mem_takeWhile_imp hmem

theorem eq_opening_of_dropWhile {waiting below : List Pending} {entry : Pending}
    (h : waiting.dropWhile isOperator = entry :: below) : entry = .opening := by
  have hfalse := eq_false_of_dropWhile h
  cases entry with
  | operator op => simp at hfalse
  | opening => rfl

/-! ### All that one token can do -/

/-- What one token does, told from where it cuts the entries that wait. -/
inductive Steps : List Pending → Token → List Token → List Pending → Prop
  /-- An operand goes out at once. -/
  | operand {waiting : List Pending} {found : Token} (operand : found.isOperand = true) :
      Steps waiting found [found] waiting
  /-- An operator waits on top, once all has gone out there that binds as tightly. -/
  | operator {op : Operator} {held waiting : List Pending} (tighter : Tighter op.precedence held)
      (looser : Looser op.precedence waiting) :
      Steps (held ++ waiting) (.operator op) (held.map token) (.operator op :: waiting)
  /-- An opening parenthesis waits on top. -/
  | opening {waiting : List Pending} : Steps waiting .opening [] (.opening :: waiting)
  /-- A closing one takes the topmost group away, once its operators have gone out. -/
  | closing {held waiting : List Pending} (operators : Tighter 0 held) :
      Steps (held ++ .opening :: waiting) .closing (held.map token) waiting
  /-- The mark of the end does nothing. -/
  | finish {waiting : List Pending} : Steps waiting .finish [] waiting

theorem steps_of_step {waiting waiting' : List Pending} {found : Token} {out : List Token}
    (h : step waiting found = .ok (out, waiting')) : Steps waiting found out waiting' := by
  cases found with
  | number _ | name _ =>
      cases h
      exact .operand rfl
  | operator op =>
      cases h
      have hsteps := Steps.operator (tighter_takeWhile_yieldsTo op waiting)
        (looser_dropWhile_yieldsTo op waiting)
      rw [List.takeWhile_append_dropWhile] at hsteps
      exact hsteps
  | opening =>
      cases h
      exact .opening
  | closing =>
      rw [step] at h
      rcases hdrop : waiting.dropWhile isOperator with _ | ⟨entry, below⟩
      · rw [hdrop] at h
        cases h
      · rw [hdrop] at h
        cases h
        have hsteps : Steps _ _ _ waiting' := .closing (tighter_takeWhile_isOperator waiting)
        rw [← eq_opening_of_dropWhile hdrop, ← hdrop, List.takeWhile_append_dropWhile] at hsteps
        exact hsteps
  | finish =>
      cases h
      exact .finish

/-- **One token does what `Steps` says, and nothing else.** -/
theorem step_eq_ok_iff {waiting waiting' : List Pending} {found : Token} {out : List Token} :
    step waiting found = .ok (out, waiting') ↔ Steps waiting found out waiting' := by
  refine ⟨steps_of_step, ?_⟩
  intro h
  cases h with
  | operand operand =>
      cases found with
      | number _ | name _ => rfl
      | operator _ | opening | closing | finish => simp [Token.isOperand] at operand
  | operator tighter looser => exact step_operator tighter looser
  | opening => rfl
  | closing operators => exact step_closing operators _
  | finish => rfl

/-- Only a closing parenthesis can fail, and it does where no opening one waits. -/
theorem step_eq_error {waiting : List Pending} {found : Token} {error : ParenthesisError}
    (h : step waiting found = .error error) :
    found = .closing ∧ error = .unopened ∧ .opening ∉ waiting := by
  cases found with
  | closing =>
      rw [step] at h
      rcases hdrop : waiting.dropWhile isOperator with _ | ⟨entry, below⟩
      · rw [hdrop] at h
        cases h
        refine ⟨rfl, rfl, fun hmem => ?_⟩
        simpa using List.dropWhile_eq_nil_iff.mp hdrop _ hmem
      · rw [hdrop] at h
        cases h
  | number _ | name _ | operator _ | opening | finish => cases h

/-! ### A group does not see what is below it -/

theorem Looser.above {level : Nat} {waiting : List Pending} (h : Looser level waiting)
    (below : List Pending) : Looser level (waiting ++ .opening :: below) := by
  intro op hop
  cases waiting with
  | nil => simp at hop
  | cons top rest => exact h op hop

theorem step_above {waiting waiting' : List Pending} {found : Token} {out : List Token}
    (h : step waiting found = .ok (out, waiting')) (below : List Pending) :
    step (waiting ++ .opening :: below) found = .ok (out, waiting' ++ .opening :: below) := by
  rw [step_eq_ok_iff] at h ⊢
  cases h with
  | operand operand => exact .operand operand
  | operator tighter looser =>
      rw [List.append_assoc]
      exact .operator tighter (looser.above below)
  | opening => exact .opening
  | closing operators =>
      rw [List.append_assoc]
      exact .closing operators
  | finish => exact .finish

/-- **What waits below an opening parenthesis is out of reach.** -/
theorem run_above {tokens : List Token} :
    ∀ {waiting waiting' : List Pending} {out : List Token},
      run waiting tokens = .ok (out, waiting') → ∀ below : List Pending,
        run (waiting ++ .opening :: below) tokens = .ok (out, waiting' ++ .opening :: below) := by
  induction tokens with
  | nil =>
      intro waiting waiting' out h below
      cases h
      rfl
  | cons token rest ih =>
      intro waiting waiting' out h below
      obtain ⟨now, middle, later, hs, hr, rfl⟩ := run_cons_eq_ok h
      exact run_cons_ok (step_above hs below) (ih hr below)

/-! ### What is drained -/

theorem drain_of_tighter {level : Nat} {held : List Pending} (h : Tighter level held)
    (mode : Mode) : drain mode held = .ok (held.map token) :=
  if_neg fun hopen => h.opening_not_mem hopen.2

theorem drain_eq_ok {mode : Mode} {waiting : List Pending} {rest : List Token}
    (h : drain mode waiting = .ok rest) :
    rest = waiting.map token ∧ ¬ (mode = .strict ∧ .opening ∈ waiting) := by
  unfold drain at h
  by_cases hopen : mode = .strict ∧ Pending.opening ∈ waiting
  · rw [if_pos hopen] at h
    cases h
  · rw [if_neg hopen] at h
    exact ⟨(Except.ok.inj h).symm, hopen⟩

/-- What a stretch in strict mode goes through as is all that comes of it in parentheses. -/
theorem run_group {tokens out rest : List Token} {held : List Pending}
    (h : run [] tokens = .ok (out, held)) (hdrain : drain .strict held = .ok rest)
    (waiting : List Pending) :
    run waiting (.opening :: tokens ++ [.closing]) = .ok (out ++ rest, waiting) := by
  obtain ⟨rfl, hclosed⟩ := drain_eq_ok hdrain
  have htighter := tighter_of_not_mem fun hmem => hclosed ⟨rfl, hmem⟩
  have hopened : run waiting (.opening :: tokens) = .ok ([] ++ out, held ++ .opening :: waiting) :=
    run_cons_ok rfl (run_above h waiting)
  exact run_append_ok hopened ((run_singleton _ _).trans (step_closing htighter waiting))

end Pending

/-! ### The whole conversion -/

theorem Reordering.foldlM_step (tokens : List Token) :
    ∀ r : Reordering, tokens.foldlM Reordering.step r =
      (Pending.run r.waiting tokens).map fun p => ⟨r.output.appendList p.1, p.2⟩ := by
  induction tokens with
  | nil => intro r; rfl
  | cons token rest ih =>
      intro r
      rw [List.foldlM_cons, Pending.run_cons, Reordering.step]
      rcases Pending.step r.waiting token with error | now
      · rfl
      · show rest.foldlM Reordering.step _ = ((Pending.run now.2 rest).map _).map _
        rw [ih]
        rcases Pending.run now.2 rest with error | later
        · rfl
        · have h : (r.output.appendList now.1).appendList later.1 =
              r.output.appendList (now.1 ++ later.1) :=
            Array.toList_inj.mp (by simp)
          simp only [Except.map, h]

/-- The tokens that count: those before the first mark of the end. -/
def beforeFinish (tokens : List Token) : List Token :=
  tokens.takeWhile (· ≠ .finish)

theorem beforeFinish_eq_self {tokens : List Token} (h : .finish ∉ tokens) :
    beforeFinish tokens = tokens := by
  refine List.takeWhile_eq_self_iff.mpr ?_
  intro token htoken
  simpa using fun hc : token = .finish => h (hc ▸ htoken)

/-- Tokens without a mark of the end all count, and what follows them counts as far as it does
alone. -/
theorem beforeFinish_append {tokens : List Token} (h : .finish ∉ tokens) (rest : List Token) :
    beforeFinish (tokens ++ rest) = tokens ++ beforeFinish rest := by
  refine List.takeWhile_append_of_pos ?_
  intro token htoken
  simpa using fun hc : token = .finish => h (hc ▸ htoken)

theorem beforeFinish_append_finish {tokens : List Token} (h : .finish ∉ tokens)
    (rest : List Token) : beforeFinish (tokens ++ .finish :: rest) = tokens := by
  have hall : ∀ token ∈ tokens, decide (token ≠ .finish) = true := by
    intro token htoken
    simpa using fun hc : token = .finish => h (hc ▸ htoken)
  unfold beforeFinish
  rw [List.takeWhile_append_of_pos hall, List.takeWhile_cons_of_neg (by simp), List.append_nil]

/-- **Postfix order is what goes out on the way and what is drained in the end.** -/
theorem Postfix.ofTokens_eq (mode : Mode) (tokens : List Token) :
    Postfix.ofTokens mode tokens =
      (Pending.run [] (beforeFinish tokens) >>= fun p =>
        (Pending.drain mode p.2).map fun rest => ⟨p.1 ++ rest⟩) := by
  unfold Postfix.ofTokens
  rw [Reordering.foldlM_step]
  show ((Pending.run [] (beforeFinish tokens)).map _ >>= _) = _
  rcases Pending.run [] (beforeFinish tokens) with error | p
  · rfl
  · show (Pending.drain mode p.2 >>= _) = (Pending.drain mode p.2).map _
    rcases Pending.drain mode p.2 with error | rest
    · rfl
    · simp [Except.map, bind, Except.bind, pure, Except.pure, Reordering.start]

theorem Postfix.ofTokens_eq_ok {mode : Mode} {tokens : List Token} {p : Postfix}
    (h : Postfix.ofTokens mode tokens = .ok p) :
    ∃ out held rest, Pending.run [] (beforeFinish tokens) = .ok (out, held) ∧
      Pending.drain mode held = .ok rest ∧ p = ⟨out ++ rest⟩ := by
  rw [Postfix.ofTokens_eq] at h
  obtain ⟨⟨out, held⟩, hrun, h⟩ := Except.bind_eq_ok h
  obtain ⟨rest, hdrain, h⟩ := Except.map_eq_ok h
  exact ⟨out, held, rest, hrun, hdrain, h.symm⟩

end Reckon
