/-
How tokens are spelled, and that scanning undoes it.

A token may be spelled in more than one way: a number may have zeros in front, and
white space may stand on either side of any token.  What is read back is the same
(`tokenize_of_spelled`), provided that no token takes up the beginning of the next one
because nothing stands between them (`glues`).

The scan takes the longest lexeme at each place.  That it ends where the spelling ends
comes from the next character alone, which is either white space or the first one of
the next token.
-/
import Reckon.Proofs.Characters
import Reckon.Token.Stream
import Mathlib.Data.List.Chain

namespace Reckon

/-! ### Numbers -/

namespace Decimal

theorem value_zeros (zeros : Nat) (text : List Char) :
    value (List.replicate zeros '0' ++ text) = value text := by
  unfold value
  rw [Nat.ofDigitChars_append, Nat.ofDigitChars_replicate_zero, Nat.mul_zero]

theorem chars_of_nonneg {i : Int} (h : 0 ≤ i) : chars i = digits i.natAbs := by
  rw [chars, if_neg (Int.not_lt.mpr h)]

theorem natAbs_lt_limit {v : Int64} (h : 0 ≤ v.toInt) : v.toInt.natAbs < limit := by
  have hlt : v.toInt < 2 ^ 63 := v.toInt_lt
  have hlimit : limit = 2 ^ 63 := rfl
  omega

theorem ofNat_natAbs {v : Int64} (h : 0 ≤ v.toInt) : Int64.ofNat v.toInt.natAbs = v := by
  rw [← Int64.ofInt_eq_ofNat, Int.natAbs_of_nonneg h, Int64.ofInt_toInt]

end Decimal

namespace Token

/-! ### The spellings of a token -/

/--
The spellings of a token.  A number may have any number of zeros in front, and a name
is what the pattern of names allows.  Negative numbers have no spelling, and the mark
of the end has none.
-/
def Spells : Token → List Char → Prop
  | number value, text =>
      0 ≤ value.toInt ∧ ∃ zeros, text = List.replicate zeros '0' ++ Decimal.chars value.toInt
  | name found, text => Lexeme.Kind.Matches .name text ∧ found = String.ofList text
  | operator op, text => text = op.symbol.toList
  | opening, text => text = ['(']
  | closing, text => text = [')']
  | finish, _ => False

theorem isDigit_of_spells_number {value : Int64} {text : List Char}
    (h : (number value).Spells text) : ∀ c ∈ text, c.isDigit = true := by
  obtain ⟨hnonneg, zeros, rfl⟩ := h
  intro c hc
  rcases List.mem_append.mp hc with hzero | hdigit
  · rw [List.eq_of_mem_replicate hzero]
    rfl
  · rw [Decimal.chars_of_nonneg hnonneg] at hdigit
    exact Decimal.isDigit_of_mem_digits hdigit

theorem mem_signs_of_mem_symbol (op : Operator) : ∀ c ∈ op.symbol.toList, c ∈ signs := by
  rcases op <;> simp [Operator.symbol, signs]

theorem exists_symbol (op : Operator) : ∃ c more, op.symbol.toList = c :: more := by
  rcases op <;> exact ⟨_, _, rfl⟩

theorem Spells.exists_first {token : Token} {text : List Char} (h : token.Spells text) :
    ∃ c more, text = c :: more ∧ isWhiteSpace c = false := by
  rcases token with value | found | op | _ | _ | _
  · rcases text with _ | ⟨c, more⟩
    · obtain ⟨hnonneg, zeros, hempty⟩ := h
      rw [Decimal.chars_of_nonneg hnonneg] at hempty
      exact absurd (List.append_eq_nil_iff.mp hempty.symm).2 Nat.toDigits_ne_nil
    · have hdigit := isDigit_of_spells_number h c (List.mem_cons_self ..)
      exact ⟨c, more, rfl, isWhiteSpace_eq_false_of_isNamePart (isNamePart_of_isDigit hdigit)⟩
  · obtain ⟨⟨c, more, rfl, hstart, -⟩, -⟩ := h
    exact ⟨c, more, rfl, isWhiteSpace_eq_false_of_isNamePart (isNamePart_of_isNameStart hstart)⟩
  · obtain ⟨c, more, hsymbol⟩ := exists_symbol op
    have hsign : c ∈ signs := mem_signs_of_mem_symbol op c (by simp [hsymbol])
    exact ⟨c, more, h.trans hsymbol, isWhiteSpace_eq_false_of_mem_signs hsign⟩
  · exact ⟨'(', [], h, by decide⟩
  · exact ⟨')', [], h, by decide⟩
  · cases h

/-! ### Where a token ends -/

/-- Whether a token goes on with a character behind it. -/
def goesOn : Token → Char → Bool
  | number _, c => c.isDigit
  | name _, c => isNamePart c
  | operator .lt, c | operator .gt, c => c == '='
  | _, _ => false

/-- Whether a token takes up the beginning of another one if nothing stands between them. -/
def glues : Token → Token → Bool
  | number _, number _ | name _, number _ | name _, name _ => true
  | operator .lt, operator .eq | operator .gt, operator .eq => true
  | _, _ => false

/-- An operator goes on in two cases only: `<` and `>` with an equals sign. -/
theorem goesOn_operator {op : Operator} {c : Char} (h : c = '=' → op ≠ .lt ∧ op ≠ .gt) :
    (operator op).goesOn c = false := by
  by_cases hc : c = '='
  · obtain ⟨hlt, hgt⟩ := h hc
    rcases op <;> first | rfl | exact absurd rfl hlt | exact absurd rfl hgt
  · rcases op <;> first | rfl | exact beq_false_of_ne hc

theorem goesOn_whiteSpace (token : Token) {c : Char} (h : isWhiteSpace c = true) :
    token.goesOn c = false := by
  rcases token with value | found | op | _ | _ | _
  · exact isDigit_eq_false_of_isWhiteSpace h
  · exact isNamePart_eq_false_of_isWhiteSpace h
  · exact goesOn_operator fun hc => absurd hc (ne_of_holds h rfl)
  · rfl
  · rfl
  · rfl

theorem goesOn_sign {token : Token} {c : Char} (hc : c ∈ signs)
    (hequals : c = '=' → token ≠ .operator .lt ∧ token ≠ .operator .gt) :
    token.goesOn c = false := by
  rcases token with value | found | op | _ | _ | _
  · exact isDigit_eq_false_of_mem_signs hc
  · exact isNamePart_eq_false_of_mem_signs hc
  · refine goesOn_operator fun h => ⟨?_, ?_⟩
    · intro hop
      exact (hequals h).1 (by rw [hop])
    · intro hop
      exact (hequals h).2 (by rw [hop])
  · rfl
  · rfl
  · rfl

theorem goesOn_digit {token : Token} {c : Char} (hc : c.isDigit = true) {value : Int64}
    (h : token.glues (number value) = false) : token.goesOn c = false := by
  rcases token with value | found | op | _ | _ | _
  · cases h
  · cases h
  · exact goesOn_operator fun heq => absurd heq (ne_of_holds hc rfl)
  · rfl
  · rfl
  · rfl

theorem goesOn_nameStart {token : Token} {c : Char} (hc : isNameStart c = true) {text : String}
    (h : token.glues (name text) = false) : token.goesOn c = false := by
  rcases token with value | found | op | _ | _ | _
  · exact isDigit_eq_false_of_isNameStart hc
  · cases h
  · have hequals : isNameStart '=' = false := isNameStart_eq_false_of_mem_signs (by simp [signs])
    exact goesOn_operator fun heq => absurd heq (ne_of_holds hc hequals)
  · rfl
  · rfl
  · rfl

theorem goesOn_of_glues {token next : Token} {c : Char} {more : List Char}
    (hnext : next.Spells (c :: more)) (h : token.glues next = false) : token.goesOn c = false := by
  rcases next with value | found | op | _ | _ | _
  · exact goesOn_digit (isDigit_of_spells_number hnext c (List.mem_cons_self ..)) h
  · obtain ⟨⟨_, _, heq, hstart, -⟩, -⟩ := hnext
    cases heq
    exact goesOn_nameStart hstart h
  · replace hnext : c :: more = op.symbol.toList := hnext
    refine goesOn_sign (mem_signs_of_mem_symbol op c (by simp [← hnext])) ?_
    intro hc
    subst hc
    -- Of all operators, only `==` begins with an equals sign.
    have hop : op = .eq := by
      rcases op <;> simp [Operator.symbol] at hnext ⊢
    subst hop
    refine ⟨?_, ?_⟩
    · intro htoken
      subst htoken
      cases h
    · intro htoken
      subst htoken
      cases h
  · cases hnext
    exact goesOn_sign (by simp [signs]) (by simp)
  · cases hnext
    exact goesOn_sign (by simp [signs]) (by simp)
  · cases hnext

theorem eq_of_glues_operator {op : Operator} {next : Token} (h : (operator op).glues next = true) :
    (op = .lt ∨ op = .gt) ∧ next = operator .eq := by
  rcases next with value | found | op' | _ | _ | _
  · rcases op <;> cases h
  · rcases op <;> cases h
  · rcases op <;> rcases op' <;> first | exact ⟨.inl rfl, rfl⟩ | exact ⟨.inr rfl, rfl⟩ | cases h
  · rcases op <;> cases h
  · rcases op <;> cases h
  · rcases op <;> cases h

theorem goesOn_of_glues_eq_true {token next : Token} {c : Char} {more : List Char}
    (hnext : next.Spells (c :: more)) (h : token.glues next = true) : token.goesOn c = true := by
  rcases token with value | found | op | _ | _ | _
  · rcases next with value' | found' | op' | _ | _ | _ <;> try cases h
    exact isDigit_of_spells_number hnext c (List.mem_cons_self ..)
  · rcases next with value' | found' | op' | _ | _ | _ <;> try cases h
    · exact isNamePart_of_isDigit (isDigit_of_spells_number hnext c (List.mem_cons_self ..))
    · obtain ⟨⟨_, _, heq, hstart, -⟩, -⟩ := hnext
      cases heq
      exact isNamePart_of_isNameStart hstart
  · obtain ⟨hop, rfl⟩ := eq_of_glues_operator h
    obtain ⟨rfl, -⟩ : c = '=' ∧ more = ['='] := List.cons.inj hnext
    rcases hop with rfl | rfl <;> rfl
  · cases h
  · cases h
  · cases h

/-- A token goes on with the first character of the next one just if they glue. -/
theorem goesOn_first {token next : Token} {c : Char} {more : List Char}
    (hnext : next.Spells (c :: more)) : token.goesOn c = token.glues next := by
  cases hglues : token.glues next
  · exact goesOn_of_glues hnext hglues
  · exact goesOn_of_glues_eq_true hnext hglues

end Token

/-! ### Scanning a spelling -/

theorem takeWhile_of_head {p : Char → Bool} {run rest : List Char} (hrun : ∀ c ∈ run, p c = true)
    (hrest : ∀ c ∈ rest.head?, p c = false) : (run ++ rest).takeWhile p = run := by
  rw [List.takeWhile_append_of_pos hrun]
  rcases rest with _ | ⟨c, rest⟩
  · rw [List.takeWhile_nil, List.append_nil]
  · rw [List.takeWhile_cons_of_neg (by simp [hrest c rfl]), List.append_nil]

theorem dropWhile_of_head {p : Char → Bool} {run rest : List Char} (hrun : ∀ c ∈ run, p c = true)
    (hrest : ∀ c ∈ rest.head?, p c = false) : (run ++ rest).dropWhile p = rest := by
  rw [List.dropWhile_append_of_pos hrun]
  rcases rest with _ | ⟨c, rest⟩
  · rw [List.dropWhile_nil]
  · rw [List.dropWhile_cons_of_neg (by simp [hrest c rfl])]

namespace Lexeme

theorem longest_of_isDigit {c : Char} (h : c.isDigit = true) (rest : List Char) :
    longest c rest = (.number, (rest.takeWhile Char.isDigit).length) := by
  rw [longest, if_pos h]

theorem longest_of_isNameStart {c : Char} (h : isNameStart c = true) (rest : List Char) :
    longest c rest = (.name, (rest.takeWhile isNamePart).length) := by
  rw [longest, if_neg (by simp [isDigit_eq_false_of_isNameStart h]), if_pos h]

theorem longest_of_pair {c : Char} (h : c ∈ signs) {rest : List Char} {op : Operator}
    (hpair : rest.head?.bind (pairOperator? c) = some op) :
    longest c rest = (.operator op, 1) := by
  rw [longest, if_neg (by simp [isDigit_eq_false_of_mem_signs h]),
    if_neg (by simp [isNameStart_eq_false_of_mem_signs h]), hpair]

theorem longest_of_single {c : Char} (h : c ∈ signs) {rest : List Char}
    (hpair : ∀ d ∈ rest.head?, pairOperator? c d = none) :
    longest c rest = (singleKind c, 0) := by
  have hnone : rest.head?.bind (pairOperator? c) = none := by
    rcases rest with _ | ⟨d, rest⟩
    · rfl
    · exact hpair d rfl
  rw [longest, if_neg (by simp [isDigit_eq_false_of_mem_signs h]),
    if_neg (by simp [isNameStart_eq_false_of_mem_signs h]), hnone]

theorem pairOperator?_of_ne {d : Char} (h : d ≠ '=') :
    pairOperator? '<' d = none ∧ pairOperator? '>' d = none := by
  refine ⟨?_, ?_⟩ <;> simp [pairOperator?, h]

/-- A symbol is one character, or two that are looked up as a pair. -/
theorem symbol_cases (op : Operator) :
    (∃ c, op.symbol.toList = [c] ∧ singleKind c = .operator op ∧
      ∀ d, (Token.operator op).goesOn d = false → pairOperator? c d = none) ∨
    ∃ c d, op.symbol.toList = [c, d] ∧ pairOperator? c d = some op := by
  rcases op
  · exact .inl ⟨'*', rfl, rfl, fun d _ => rfl⟩
  · exact .inl ⟨'/', rfl, rfl, fun d _ => rfl⟩
  · exact .inl ⟨'%', rfl, rfl, fun d _ => rfl⟩
  · exact .inl ⟨'+', rfl, rfl, fun d _ => rfl⟩
  · exact .inl ⟨'-', rfl, rfl, fun d _ => rfl⟩
  · exact .inl ⟨'<', rfl, rfl, fun d hd => (pairOperator?_of_ne (ne_of_beq_false hd)).1⟩
  · exact .inl ⟨'>', rfl, rfl, fun d hd => (pairOperator?_of_ne (ne_of_beq_false hd)).2⟩
  · exact .inr ⟨'<', '=', rfl, rfl⟩
  · exact .inr ⟨'>', '=', rfl, rfl⟩
  · exact .inr ⟨'=', '=', rfl, rfl⟩
  · exact .inr ⟨'!', '=', rfl, rfl⟩
  · exact .inr ⟨'&', '&', rfl, rfl⟩
  · exact .inr ⟨'|', '|', rfl, rfl⟩

theorem longest_of_symbol {op : Operator} {c : Char} {more rest : List Char}
    (h : c :: more = op.symbol.toList)
    (hrest : ∀ d ∈ rest.head?, (Token.operator op).goesOn d = false) :
    longest c (more ++ rest) = (.operator op, more.length) := by
  have hsign : c ∈ signs := Token.mem_signs_of_mem_symbol op c (by simp [← h])
  rcases symbol_cases op with ⟨_, hsymbol, hsingle, hpair⟩ | ⟨_, d, hsymbol, hpair⟩
  · rw [hsymbol] at h
    cases h
    rw [List.nil_append, longest_of_single hsign fun d hd => hpair d (hrest d hd), hsingle]
    rfl
  · rw [hsymbol] at h
    cases h
    exact longest_of_pair hsign hpair

/-- A spelling of a number is in range, so it is read as the number. -/
theorem token_number {value : Int64} {c : Char} {more : List Char}
    (h : (Token.number value).Spells (c :: more)) (start : Nat) :
    Lexeme.token ⟨.number, start, c, more⟩ = .ok (.number value) := by
  obtain ⟨hnonneg, zeros, htext⟩ := h
  have hvalue : Decimal.value (c :: more) = value.toInt.natAbs := by
    rw [htext, Decimal.value_zeros, Decimal.chars_of_nonneg hnonneg, Decimal.value_digits]
  have hlimit : Decimal.value (c :: more) < Decimal.limit := by
    rw [hvalue]
    exact Decimal.natAbs_lt_limit hnonneg
  show (if Decimal.value (c :: more) < Decimal.limit then
    Except.ok (Token.number (Int64.ofNat (Decimal.value (c :: more)))) else _) = _
  rw [if_pos hlimit, hvalue, Decimal.ofNat_natAbs hnonneg]

/-- The longest lexeme at a spelling is the spelling, and it stands for the token. -/
theorem longest_of_spells {token : Token} {c : Char} {more rest : List Char}
    (h : token.Spells (c :: more)) (hrest : ∀ d ∈ rest.head?, token.goesOn d = false) :
    ∃ kind, longest c (more ++ rest) = (kind, more.length) ∧
      ∀ start, Lexeme.token ⟨kind, start, c, more⟩ = .ok token := by
  rcases token with value | found | op | _ | _ | _
  · have hdigits := Token.isDigit_of_spells_number h
    refine ⟨.number, ?_, token_number h⟩
    rw [longest_of_isDigit (hdigits c (List.mem_cons_self ..)),
      takeWhile_of_head (fun d hd => hdigits d (List.mem_cons_of_mem _ hd)) hrest]
  · obtain ⟨⟨_, _, heq, hstart, hparts⟩, rfl⟩ := h
    cases heq
    refine ⟨.name, ?_, fun start => rfl⟩
    rw [longest_of_isNameStart hstart, takeWhile_of_head hparts hrest]
  · exact ⟨.operator op, longest_of_symbol h hrest, fun start => rfl⟩
  · cases h
    exact ⟨.opening, longest_of_single (by simp [signs]) fun d _ => rfl, fun start => rfl⟩
  · cases h
    exact ⟨.closing, longest_of_single (by simp [signs]) fun d _ => rfl, fun start => rfl⟩
  · cases h

theorem scanFrom_gap {gap : List Char} (h : ∀ c ∈ gap, isWhiteSpace c = true) (rest : List Char) :
    ∀ start, scanFrom start (gap ++ rest) = scanFrom (start + byteLength gap) rest := by
  induction gap with
  | nil => intro start; rfl
  | cons c gap ih =>
      intro start
      rw [List.cons_append, scanFrom_whiteSpace (h c (List.mem_cons_self ..)),
        ih (fun d hd => h d (List.mem_cons_of_mem _ hd)), byteLength_cons, Nat.add_assoc]

/-- The scan takes a spelling off the front of a text and goes on behind it. -/
theorem scanFrom_of_spells {token : Token} {text rest : List Char} (h : token.Spells text)
    (hrest : ∀ d ∈ rest.head?, token.goesOn d = false) (start : Nat) :
    ∃ lexeme, scanFrom start (text ++ rest) = lexeme :: scanFrom lexeme.stop rest ∧
      lexeme.token = .ok token := by
  obtain ⟨c, more, rfl, hspace⟩ := h.exists_first
  obtain ⟨kind, hlongest, htoken⟩ := longest_of_spells h hrest
  refine ⟨⟨kind, start, c, more⟩, ?_, htoken start⟩
  rw [List.cons_append, scanFrom_lexeme hspace, longestAt, hlongest]
  simp only [List.take_left, List.drop_left]

end Lexeme

/-! ### Texts that spell tokens -/

/-- A text that is the spellings of some tokens, with or without white space around each. -/
inductive Spelled : List Token → List Char → Prop
  | nil {gap : List Char} (space : ∀ c ∈ gap, isWhiteSpace c = true) : Spelled [] gap
  | cons {token : Token} {tokens : List Token} {gap text rest : List Char}
      (space : ∀ c ∈ gap, isWhiteSpace c = true) (first : token.Spells text)
      (others : Spelled tokens rest) : Spelled (token :: tokens) (gap ++ text ++ rest)

/-- A token goes on with nothing that a text of other tokens may begin with. -/
theorem Spelled.goesOn_head {token : Token} {tokens : List Token} {text : List Char}
    (h : Spelled tokens text) (hglues : ∀ next ∈ tokens.head?, token.glues next = false) :
    ∀ d ∈ text.head?, token.goesOn d = false := by
  intro d hd
  cases h with
  | nil space => exact Token.goesOn_whiteSpace token (space d (List.mem_of_head? hd))
  | @cons next tokens gap text rest space first others =>
      -- Without white space in between, the next character is the first one of the next token.
      rcases gap with _ | ⟨c, gap⟩
      · obtain ⟨c, more, rfl, -⟩ := first.exists_first
        cases hd
        exact Token.goesOn_of_glues first (hglues next rfl)
      · cases hd
        exact Token.goesOn_whiteSpace token (space d (List.mem_cons_self ..))

theorem scanFrom_of_spelled {tokens : List Token} {text : List Char} (h : Spelled tokens text)
    (hglues : tokens.IsChain fun token next => token.glues next = false) :
    ∀ start, (Lexeme.scanFrom start text).mapM Lexeme.token = .ok tokens := by
  induction h with
  | @nil gap space =>
      intro start
      rw [← List.append_nil gap, Lexeme.scanFrom_gap space, Lexeme.scanFrom_nil]
      rfl
  | @cons token tokens gap text rest space first others ih =>
      intro start
      obtain ⟨hhead, htail⟩ := List.isChain_cons.mp hglues
      obtain ⟨lexeme, hscan, htoken⟩ :=
        Lexeme.scanFrom_of_spells first (others.goesOn_head hhead) (start + byteLength gap)
      rw [List.append_assoc, Lexeme.scanFrom_gap space, hscan, List.mapM_cons, htoken,
        ih htail]
      rfl

/-- **Scanning a text that spells tokens gives the tokens, unless two of them glue.** -/
theorem tokenize_of_spelled {tokens : List Token} {source : String}
    (h : Spelled tokens source.toList)
    (hglues : tokens.IsChain fun token next => token.glues next = false) :
    tokenize source = .ok (tokens ++ [.finish]) := by
  unfold tokenize Lexeme.scan
  rw [scanFrom_of_spelled h hglues]
  rfl

end Reckon
