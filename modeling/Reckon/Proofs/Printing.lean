/-
When a printed list of tokens is read back as it was.

Tokens are printed one after the other, each with a gap before it: some white space, or
nothing.  What is printed is read back if and only if two tokens that glue have a gap
between them (`tokenize_print_iff`).

That a gap is enough follows along the print, because each token then ends where its text
does.  That it is needed does not: two zeros without a gap are read as one zero, so the
first token alone does not tell that anything went wrong.  It is a matter of length.  A
token has no shorter spelling than its text (`length_text_le`), so the tokens that are
read from a text are no longer, between them, than what is not white space in it
(`length_le_ink`).  A printed text holds just enough, and where the first token takes up
a part of the second, too little is left.
-/
import Reckon.Proofs.Segmentation
import Reckon.Proofs.Outcome
import Mathlib.Algebra.GroupWithZero.Nat

namespace Reckon

/-! ### What is not white space -/

/-- How many characters of a text are not white space. -/
def ink (text : List Char) : Nat :=
  text.countP fun c => !isWhiteSpace c

theorem ink_append (front rest : List Char) : ink (front ++ rest) = ink front + ink rest :=
  List.countP_append ..

theorem ink_le_length (text : List Char) : ink text ≤ text.length :=
  List.countP_le_length

theorem ink_eq_zero {gap : List Char} (h : ∀ c ∈ gap, isWhiteSpace c = true) : ink gap = 0 := by
  rw [ink, List.countP_eq_zero]
  intro c hc
  simp [h c hc]

theorem ink_eq_length {text : List Char} (h : ∀ c ∈ text, isWhiteSpace c = false) :
    ink text = text.length := by
  rw [ink, List.countP_eq_length]
  intro c hc
  simp [h c hc]

theorem ink_drop_lt {front : List Char} {d : Char} {n : Nat} (hd : isWhiteSpace d = false)
    (h : front.length < n) (rest : List Char) :
    ink ((front ++ d :: rest).drop n) < ink (d :: rest) := by
  obtain ⟨k, rfl⟩ := Nat.exists_eq_add_of_lt h
  have hle : ink (rest.drop k) ≤ ink rest := (List.drop_sublist k rest).countP_le
  have hcons : ink (d :: rest) = ink rest + 1 := List.countP_cons_of_pos (by simp [hd])
  rw [Nat.add_assoc, List.drop_length_add_append, List.drop_succ_cons]
  omega

/-! ### No spelling is shorter than the text of the token -/

namespace Decimal

theorem digitValue_lt {c : Char} (h : c.isDigit = true) : c.toNat - '0'.toNat < 10 := by
  have hrange := toNat_of_isDigit h
  have hzero : '0'.toNat = 0x30 := rfl
  omega

theorem value_lt {text : List Char} (h : ∀ c ∈ text, c.isDigit = true) :
    value text < 10 ^ text.length := by
  induction text with
  | nil => exact Nat.one_pos
  | cons c text ih =>
      obtain ⟨hc, htext⟩ := List.forall_mem_cons.mp h
      have hlt := ih htext
      have hdigit : c.toNat - '0'.toNat ≤ 9 := Nat.le_of_lt_succ (digitValue_lt hc)
      unfold value at hlt ⊢
      rw [Nat.ofDigitChars_cons, Nat.ofDigitChars_eq_ofDigitChars_zero, Nat.mul_zero, Nat.zero_add,
        List.length_cons, Nat.pow_succ]
      have := Nat.mul_le_mul_left (10 ^ text.length) hdigit
      omega

/-- A number has no shorter spelling than the one without zeros in front. -/
theorem length_digits_value_le {text : List Char} (hne : text ≠ [])
    (h : ∀ c ∈ text, c.isDigit = true) : (digits (value text)).length ≤ text.length :=
  (Nat.length_toDigits_le_iff (by decide) (List.length_pos_iff.mpr hne)).mpr (value_lt h)

end Decimal

namespace Lexeme

theorem eq_number_of_token {start : Nat} {c : Char} {more : List Char} {token : Token}
    (h : Lexeme.token ⟨.number, start, c, more⟩ = .ok token) :
    ∃ value : Int64, token = .number value ∧ value.toInt = Decimal.value (c :: more) := by
  simp only [Lexeme.token] at h
  split at h
  · rename_i hlimit
    exact ⟨_, (Except.ok.inj h).symm, Int64.toInt_ofNat_of_lt hlimit⟩
  · cases h

theorem length_text_le {l : Lexeme} {token : Token} (hmatches : l.kind.Matches l.chars)
    (h : l.token = .ok token) : token.text.toList.length ≤ l.chars.length := by
  rcases l with ⟨kind, start, c, more⟩
  rcases kind with _ | _ | op | _ | _ | _
  · obtain ⟨value, rfl, hvalue⟩ := eq_number_of_token h
    rw [Token.text, Decimal.toList_text, hvalue, Decimal.chars_of_nonneg (Int.natCast_nonneg _),
      Int.natAbs_natCast]
    exact Decimal.length_digits_value_le hmatches.1 hmatches.2
  · cases h
    rw [Token.text, text, String.toList_ofList]
  · cases h
    exact (congrArg List.length hmatches).ge
  · cases h
    exact (congrArg List.length hmatches).ge
  · cases h
    exact (congrArg List.length hmatches).ge
  · cases h

theorem token_ne_ok_of_stray {l : Lexeme} (h : l.kind = .stray) (token : Token) :
    l.token ≠ .ok token := by
  unfold Lexeme.token
  rw [h]
  exact nofun

/-- A token that the scan takes leaves less of a text, by its own text at least. -/
theorem length_add_ink_le {start : Nat} {c : Char} {rest : List Char} {token : Token}
    (h : (longestAt start c rest).token = .ok token) :
    token.text.toList.length + ink (rest.drop (longest c rest).2) ≤ ink (c :: rest) := by
  have hmatches : (longestAt start c rest).kind.Matches (longestAt start c rest).chars :=
    longest_matches fun hstray => token_ne_ok_of_stray hstray token h
  rw [← @chars_longestAt_append start, ink_append,
    ink_eq_length (isWhiteSpace_eq_false_of_matches hmatches)]
  exact Nat.add_le_add_right (length_text_le hmatches h) _

/-- **The tokens of a text are no longer, between them, than what is not white space in it.** -/
theorem length_le_ink (start : Nat) (text : List Char) (tokens : List Token) :
    (scanFrom start text).mapM Lexeme.token = .ok tokens →
      (tokens.map fun token => token.text.toList.length).sum ≤ ink text := by
  induction start, text using scanFrom.induct generalizing tokens with
  | case1 start =>
      intro h
      rw [scanFrom_nil] at h
      cases h
      exact Nat.le_refl 0
  | case2 start c rest hspace ih =>
      intro h
      rw [scanFrom_whiteSpace hspace] at h
      rw [← List.singleton_append, ink_append]
      exact Nat.le_add_left_of_le (ih tokens h)
  | case3 start c rest hspace lexeme ih =>
      intro h
      rw [scanFrom_lexeme (Bool.eq_false_iff.mpr hspace)] at h
      obtain ⟨token, others, htoken, hothers, rfl⟩ := Except.mapM_cons_eq_ok.mp h
      have hothers := ih others hothers
      have hstep := length_add_ink_le htoken
      rw [List.map_cons, List.sum_cons]
      omega

end Lexeme

/-! ### Tokens that go on -/

namespace Token

theorem isWhiteSpace_eq_false_of_goesOn {token : Token} {c : Char} (h : token.goesOn c = true) :
    isWhiteSpace c = false :=
  eq_false_of_excludes token.goesOn_whiteSpace h

theorem exists_matches_of_goesOn {token : Token} {text : List Char} {d : Char}
    (h : token.Spells text) (hgoes : token.goesOn d = true) :
    ∃ kind : Lexeme.Kind, kind.Matches (text ++ [d]) := by
  rcases token with value | found | op | _ | _ | _
  · have hdigits := List.forall_mem_append.mpr
      ⟨isDigit_of_spells_number h, List.forall_mem_singleton.mpr hgoes⟩
    exact ⟨.number, by simp, hdigits⟩
  · obtain ⟨⟨first, more, rfl, hfirst, hmore⟩, -⟩ := h
    have hparts := List.forall_mem_append.mpr ⟨hmore, List.forall_mem_singleton.mpr hgoes⟩
    exact ⟨.name, first, more ++ [d], rfl, hfirst, hparts⟩
  · replace h : text = op.symbol.toList := h
    rcases op <;> try cases hgoes
    · obtain rfl : d = '=' := eq_of_beq hgoes
      exact ⟨.operator .le, by rw [h]; rfl⟩
    · obtain rfl : d = '=' := eq_of_beq hgoes
      exact ⟨.operator .ge, by rw [h]; rfl⟩
  · cases hgoes
  · cases hgoes
  · cases hgoes

end Token

namespace Lexeme

/-- In front of a character that it goes on with, a token is not the longest lexeme. -/
theorem lt_longest_of_goesOn {token : Token} {c d : Char} {more : List Char}
    (h : token.Spells (c :: more)) (hgoes : token.goesOn d = true) (rest : List Char) :
    more.length < (longest c (more ++ d :: rest)).2 := by
  obtain ⟨kind, hmatches⟩ := Token.exists_matches_of_goesOn h hgoes
  have hfront : more ++ [d] <+: more ++ d :: rest :=
    (List.prefix_append_right_inj more).mpr ⟨rest, rfl⟩
  have hle : (more ++ [d]).length ≤ _ := (le_longest_of_matches hmatches hfront).2
  rw [List.length_append, List.length_singleton] at hle
  exact hle

end Lexeme

/-! ### Tokens that can be read -/

/--
Whether a token can be read: numbers that are not negative, names that match the pattern
of names, operators and parentheses.
-/
def Token.Readable : Token → Prop
  | number value => 0 ≤ value.toInt
  | name text => Lexeme.Kind.Matches .name text.toList
  | operator _ | opening | closing => True
  | finish => False

theorem Token.Readable.spells_text {token : Token} (h : token.Readable) :
    token.Spells token.text.toList := by
  rcases token with value | found | op | _ | _ | _
  · exact ⟨h, 0, Decimal.toList_text value⟩
  · exact ⟨h, String.ofList_toList.symm⟩
  · rfl
  · rfl
  · rfl
  · cases h

namespace Lexeme

theorem readable_of_token {l : Lexeme} {token : Token} (hmatches : l.kind.Matches l.chars)
    (h : l.token = .ok token) : token.Readable := by
  rcases l with ⟨kind, start, c, more⟩
  rcases kind with _ | _ | op | _ | _ | _
  · obtain ⟨value, rfl, hvalue⟩ := eq_number_of_token h
    show 0 ≤ value.toInt
    rw [hvalue]
    exact Int.natCast_nonneg _
  · cases h
    rw [Token.Readable, text, String.toList_ofList]
    exact hmatches
  · cases h
    exact trivial
  · cases h
    exact trivial
  · cases h
    exact trivial
  · cases h

theorem readable_of_mem {start : Nat} {text : List Char} {tokens : List Token}
    (h : (scanFrom start text).mapM Lexeme.token = .ok tokens) :
    ∀ token ∈ tokens, token.Readable := by
  intro token hmem
  obtain ⟨l, hl, htoken⟩ := Except.exists_of_mapM_eq_ok h token hmem
  obtain ⟨rest, -, hlongest⟩ := ((segments_iff_scanFrom start text _).mpr rfl).placed l hl
  cases hlongest with
  | lexeme hmatches _ => exact readable_of_token hmatches htoken
  | stray hstray _ _ _ => exact absurd htoken (token_ne_ok_of_stray hstray token)

end Lexeme

/-! ### Printing -/

/-- Some white space, or nothing. -/
structure Gap where
  text : String
  space : ∀ c ∈ text.toList, isWhiteSpace c = true

/-- A token to be printed, and the gap before it. -/
structure Piece where
  gap : Gap
  token : Token
  readable : token.Readable

/-- Pieces as one text, with a last gap at the end. -/
def print (pieces : List Piece) (last : Gap) : String :=
  pieces.foldr (fun piece rest => piece.gap.text ++ piece.token.text ++ rest) last.text

section Print

variable (piece : Piece) (pieces : List Piece) (last : Gap)

theorem toList_print_cons : (print (piece :: pieces) last).toList =
    piece.gap.text.toList ++ (piece.token.text.toList ++ (print pieces last).toList) := by
  rw [print, List.foldr_cons, String.toList_append, String.toList_append, List.append_assoc]
  rfl

theorem ink_print_le : ink (print pieces last).toList ≤
    ((pieces.map Piece.token).map fun token => token.text.toList.length).sum := by
  induction pieces with
  | nil => exact (ink_eq_zero last.space).le
  | cons piece pieces ih =>
      have hle := ink_le_length piece.token.text.toList
      rw [toList_print_cons, ink_append, ink_append, ink_eq_zero piece.gap.space, List.map_cons,
        List.map_cons, List.sum_cons]
      omega

variable {piece pieces last}

/-- A token ends in front of a print just if it does not glue, or there is a gap. -/
theorem goesOn_print_iff {token : Token} :
    (∀ d ∈ (print pieces last).toList.head?, token.goesOn d = false) ↔
      ∀ next ∈ pieces.head?, token.glues next.token = true → next.gap.text ≠ "" := by
  rcases pieces with _ | ⟨next, pieces⟩
  · refine iff_of_true ?_ (by simp)
    intro d hd
    exact token.goesOn_whiteSpace (last.space d (List.mem_of_head? hd))
  · rw [toList_print_cons]
    simp only [List.head?_cons, Option.mem_some_iff, forall_eq']
    by_cases hgap : next.gap.text = ""
    · obtain ⟨c, more, htext, -⟩ := next.readable.spells_text.exists_first
      have hfirst : token.goesOn c = token.glues next.token :=
        Token.goesOn_first (htext ▸ next.readable.spells_text)
      simp [hgap, htext, hfirst]
    · refine iff_of_true ?_ (fun _ => hgap)
      intro d hd
      have hne : next.gap.text.toList ≠ [] := fun h => hgap (String.toList_eq_nil_iff.mp h)
      rw [List.head?_append_of_ne_nil _ hne] at hd
      exact token.goesOn_whiteSpace (next.gap.space d (List.mem_of_head? hd))

/-- Where a token goes on into the next one, not all tokens are read back. -/
theorem tokens_ne_of_goesOn {start : Nat}
    (h : ¬ ∀ d ∈ (print pieces last).toList.head?, piece.token.goesOn d = false) :
    (Lexeme.scanFrom start (piece.token.text.toList ++ (print pieces last).toList)).mapM
      Lexeme.token ≠ .ok (piece.token :: pieces.map Piece.token) := by
  intro hread
  obtain ⟨d, hd, hgoes⟩ : ∃ d ∈ (print pieces last).toList.head?, piece.token.goesOn d = true := by
    simpa using h
  obtain ⟨rest, hrest⟩ := List.head?_eq_some_iff.mp hd
  obtain ⟨c, more, htext, hspace⟩ := piece.readable.spells_text.exists_first
  have hspells : piece.token.Spells (c :: more) := htext ▸ piece.readable.spells_text
  rw [htext, hrest, List.cons_append, Lexeme.scanFrom_lexeme hspace] at hread
  obtain ⟨token, others, -, hothers, heq⟩ := Except.mapM_cons_eq_ok.mp hread
  obtain ⟨-, rfl⟩ := List.cons.inj heq
  -- The others need all that is behind the token, and the token has taken some of it.
  have hneed := Lexeme.length_le_ink _ _ _ hothers
  have hlost := ink_drop_lt (Token.isWhiteSpace_eq_false_of_goesOn hgoes)
    (Lexeme.lt_longest_of_goesOn hspells hgoes rest) rest
  have hprint := ink_print_le pieces last
  rw [hrest] at hprint
  omega

theorem tokens_print_iff (pieces : List Piece) (last : Gap) :
    ∀ start, (Lexeme.scanFrom start (print pieces last).toList).mapM Lexeme.token =
        .ok (pieces.map Piece.token) ↔
      pieces.IsChain fun piece next =>
        piece.token.glues next.token = true → next.gap.text ≠ "" := by
  induction pieces with
  | nil =>
      intro start
      refine iff_of_true ?_ List.IsChain.nil
      rw [print, List.foldr_nil, ← List.append_nil last.text.toList, Lexeme.scanFrom_gap last.space,
        Lexeme.scanFrom_nil]
      rfl
  | cons piece pieces ih =>
      intro start
      rw [toList_print_cons, Lexeme.scanFrom_gap piece.gap.space, List.map_cons, List.isChain_cons,
        ← goesOn_print_iff]
      by_cases hends : ∀ d ∈ (print pieces last).toList.head?, piece.token.goesOn d = false
      · obtain ⟨lexeme, hscan, htoken⟩ :=
          Lexeme.scanFrom_of_spells piece.readable.spells_text hends
            (start + byteLength piece.gap.text.toList)
        rw [hscan, Except.mapM_cons_eq_ok]
        constructor
        · rintro ⟨token, others, -, hothers, heq⟩
          obtain ⟨-, rfl⟩ := List.cons.inj heq
          exact ⟨hends, (ih _).mp hothers⟩
        · rintro ⟨-, hchain⟩
          exact ⟨_, _, htoken, (ih _).mpr hchain, rfl⟩
      · exact iff_of_false (tokens_ne_of_goesOn hends) fun h => hends h.1

end Print

theorem tokenize_eq_ok_iff {source : String} {tokens : List Token} :
    tokenize source = .ok (tokens ++ [.finish]) ↔
      (Lexeme.scanFrom 0 source.toList).mapM Lexeme.token = .ok tokens := by
  unfold tokenize Lexeme.scan
  constructor
  · intro h
    obtain ⟨found, hfound, h⟩ := Except.bind_eq_ok h
    rw [hfound, List.append_cancel_right (Except.ok.inj h)]
  · intro h
    rw [h]
    rfl

/-- The tokens that can be read are those that make up some text. -/
theorem Token.readable_iff {token : Token} :
    token.Readable ↔ ∃ source, tokenize source = .ok [token, .finish] := by
  constructor
  · intro h
    let nothing : Gap := ⟨"", by simp⟩
    have hread := (tokens_print_iff [⟨nothing, token, h⟩] nothing 0).mpr (List.IsChain.singleton _)
    exact ⟨_, tokenize_eq_ok_iff.mpr hread⟩
  · rintro ⟨source, h⟩
    have htokens : tokenize source = .ok ([token] ++ [.finish]) := h
    exact Lexeme.readable_of_mem (tokenize_eq_ok_iff.mp htokens) token
      (List.mem_singleton_self token)

/-- **A print is read back if and only if there is a gap between any two tokens that glue.** -/
theorem tokenize_print_iff (pieces : List Piece) (last : Gap) :
    tokenize (print pieces last) = .ok (pieces.map Piece.token ++ [.finish]) ↔
      pieces.IsChain fun piece next =>
        piece.token.glues next.token = true → next.gap.text ≠ "" := by
  rw [tokenize_eq_ok_iff]
  exact tokens_print_iff pieces last 0

example : tokenize "00" = .ok [.number 0, .finish] := by decide +kernel

end Reckon
