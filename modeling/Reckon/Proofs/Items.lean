/-
What a token stream hands out, call after call.

A stream keeps no more than the lexemes still to come, so what its calls hand out is a
list: one item for each lexeme, then the mark of the end, then nothing (`item_reading`).
`tokenize` collects the items of the lexemes, and so the first error among them, if there
is one, is all that it gives.

What the item of a lexeme is follows from the lexeme being the longest one at its place
(`IsLongest.readAs`).  Where its kind has a pattern, its characters match it, and then only
a number above the range is an error; where it has none, it is a single character.  A run
of digits is zeros and the digits of its value (`exists_zeros`), so that the range is a
matter of the value and not of the length.
-/
import Reckon.Proofs.Printing
import Reckon.Proofs.Stack

namespace Reckon

/-! ### Runs of digits -/

namespace Decimal

theorem digits_of_isDigit {c : Char} (h : c.isDigit = true) :
    digits (c.toNat - '0'.toNat) = [c] := by
  have hlt := digitValue_lt h
  have hchar : (c.toNat - '0'.toNat).digitChar = c := by
    rw [← Char.toNat_inj, Nat.toNat_digitChar_of_lt_ten hlt]
    exact Nat.add_sub_cancel' (toNat_of_isDigit h).1
  rw [digits, Nat.toDigits_of_lt_base hlt, hchar]

/-- A run of digits is the digits of its value, with zeros in front. -/
theorem exists_zeros {text : List Char} (hne : text ≠ []) (h : ∀ c ∈ text, c.isDigit = true) :
    ∃ zeros, text = List.replicate zeros '0' ++ digits (value text) := by
  induction text using List.reverseRecOn with
  | nil => exact absurd rfl hne
  | append_singleton front c ih =>
      obtain ⟨hfront, hc⟩ := List.forall_mem_append.mp h
      replace hc := List.forall_mem_singleton.mp hc
      have hvalue : value (front ++ [c]) = 10 * value front + (c.toNat - '0'.toNat) := by
        simp [value, Nat.ofDigitChars_append, Nat.ofDigitChars_cons]
      have hlast := digits_of_isDigit hc
      by_cases hempty : front = []
      · subst hempty
        have hnone : value [] = 0 := rfl
        exact ⟨0, by rw [hvalue, hnone, Nat.mul_zero, Nat.zero_add, hlast]; rfl⟩
      obtain ⟨zeros, hzeros⟩ := ih hempty hfront
      rcases Nat.eq_zero_or_pos (value front) with hzero | hpos
      · -- All of them are zeros so far, and none of them is a digit of the value.
        refine ⟨zeros + 1, ?_⟩
        rw [hzero, show digits 0 = ['0'] from rfl, ← List.replicate_succ'] at hzeros
        rw [hvalue, hzero, Nat.mul_zero, Nat.zero_add, hlast, ← hzeros]
      · have happend := Nat.toDigits_append_toDigits (by decide) hpos (digitValue_lt hc)
        refine ⟨zeros, ?_⟩
        rw [hvalue, digits, ← happend, ← List.append_assoc]
        exact congrArg₂ _ hzeros hlast.symm

end Decimal

/-! ### What a lexeme is read as -/

namespace Lexeme

/-- What there is to read in a lexeme: a token, or what is wrong. -/
inductive ReadAs (l : Lexeme) : Except LexicalError Token → Prop
  /-- A run of digits has its value, whatever zeros are in front. -/
  | number {zeros n : Nat} {value : Int64} (kind : l.kind = .number)
      (run : l.chars = List.replicate zeros '0' ++ Decimal.digits n) (exact : value.toInt = n) :
      ReadAs l (.ok (.number value))
  /-- Above the greatest value it has none, and the error names the whole run. -/
  | outOfRange {zeros n : Nat} (kind : l.kind = .number)
      (run : l.chars = List.replicate zeros '0' ++ Decimal.digits n)
      (above : Int64.maxValue.toInt < n) :
      ReadAs l (.error (.outOfRange l.span))
  /-- A stray is one character, and the error names its bytes. -/
  | stray {c : Char} (kind : l.kind = .stray) (single : l.chars = [c]) :
      ReadAs l (.error (.unexpected c ⟨l.start, c.utf8Size⟩))
  /-- Any other lexeme is the text of a token. -/
  | text {token : Token} (number : l.kind ≠ .number) (stray : l.kind ≠ .stray)
      (readable : token.Readable) (same : token.text = l.text) :
      ReadAs l (.ok token)

theorem readAs_number {l : Lexeme} (hkind : l.kind = .number)
    (hdigits : ∀ c ∈ l.chars, c.isDigit = true) : l.ReadAs l.token := by
  have hne : l.chars ≠ [] := List.cons_ne_nil _ _
  obtain ⟨zeros, hrun⟩ := Decimal.exists_zeros hne hdigits
  have htoken : l.token = if Decimal.value l.chars < Decimal.limit then
      .ok (.number (Int64.ofNat (Decimal.value l.chars))) else .error (.outOfRange l.span) := by
    rw [Lexeme.token, hkind]
  rw [htoken]
  split
  · rename_i hlt
    exact .number hkind hrun (Int64.toInt_ofNat_of_lt hlt)
  · rename_i hge
    refine .outOfRange hkind hrun ?_
    have hmax : Int64.maxValue.toInt + 1 = Decimal.limit := rfl
    omega

theorem readAs_text {l : Lexeme} (hmatches : l.kind.Matches l.chars) (hkind : l.kind ≠ .number) :
    l.ReadAs l.token := by
  have hstray : l.kind ≠ .stray := fun h => by
    rw [h] at hmatches
    exact hmatches
  suffices ∃ token : Token, l.token = .ok token ∧ token.text = l.text by
    obtain ⟨token, htoken, hsame⟩ := this
    rw [htoken]
    exact .text hkind hstray (readable_of_token hmatches htoken) hsame
  have hsign {symbol : String} (h : l.chars = symbol.toList) : symbol = l.text := by
    rw [text, h, String.ofList_toList]
  rcases hl : l.kind with _ | _ | op | _ | _ | _
  · exact absurd hl hkind
  · exact ⟨.name l.text, by rw [Lexeme.token, hl], rfl⟩
  · rw [hl] at hmatches
    exact ⟨.operator op, by rw [Lexeme.token, hl], hsign hmatches⟩
  · rw [hl] at hmatches
    exact ⟨.opening, by rw [Lexeme.token, hl], hsign hmatches⟩
  · rw [hl] at hmatches
    exact ⟨.closing, by rw [Lexeme.token, hl], hsign hmatches⟩
  · exact absurd hl hstray

theorem readAs_stray {l : Lexeme} (hkind : l.kind = .stray) (hsingle : l.more = []) :
    l.ReadAs l.token := by
  have hchars : l.chars = [l.first] := by rw [chars, hsingle]
  have htoken : l.token = .error (.unexpected l.first ⟨l.start, l.first.utf8Size⟩) := by
    simp only [Lexeme.token, hkind, span, length, hchars, byteLength_cons, byteLength_nil,
      Nat.add_zero]
  rw [htoken]
  exact .stray hkind hchars

theorem IsLongest.readAs {l : Lexeme} {rest : List Char} (h : l.IsLongest rest) :
    l.ReadAs l.token := by
  rcases h with ⟨hmatches, -⟩ | ⟨hstray, hsingle, -, -⟩
  · by_cases hkind : l.kind = .number
    · rw [hkind] at hmatches
      exact readAs_number hkind hmatches.2
    · exact readAs_text hmatches hkind
  · exact readAs_stray hstray hsingle

end Lexeme

/-! ### A stream as a list -/

namespace TokenStream

/-- What a stream hands out at the call that has so many calls before it. -/
def item (s : TokenStream) : Nat → Option (Except LexicalError Token)
  | 0 => s.next.1
  | n + 1 => s.next.2.item n

theorem item_ended (n : Nat) : ended.item n = none := by
  induction n with
  | zero => rfl
  | succ n ih => exact ih

theorem item_reading (lexemes : List Lexeme) :
    ∀ n, (reading lexemes).item n = (lexemes.map Lexeme.token ++ [.ok .finish])[n]? := by
  induction lexemes with
  | nil =>
      intro n
      cases n with
      | zero => rfl
      | succ n => exact item_ended n
  | cons l rest ih =>
      intro n
      cases n with
      | zero => rfl
      | succ n => exact ih n

end TokenStream

section Collect

variable {source : String}

/-- A text fails to scan with the first error that its stream hands out. -/
theorem tokenize_eq_error_iff {error : LexicalError} :
    tokenize source = .error error ↔
      ∃ (front : List Token) (back : _),
        (Lexeme.scan source).map Lexeme.token = front.map .ok ++ .error error :: back := by
  rw [← Except.mapM_id_eq_error_iff, List.mapM_map, Function.id_comp]
  constructor
  · intro h
    rcases Except.bind_eq_error h with h | ⟨tokens, -, h⟩
    · exact h
    · cases h
  · intro h
    rw [tokenize, h]
    rfl

theorem tokenize_eq_map_iff {inner : List Token} :
    tokenize source = .ok (inner ++ [.finish]) ↔
      (Lexeme.scan source).map Lexeme.token = inner.map .ok := by
  rw [tokenize_eq_ok_iff, ← Except.mapM_id_eq_ok_iff, List.mapM_map, Function.id_comp, Lexeme.scan]

end Collect

/--
**A stream hands out what each lexeme of the text is read as, in their order, then the mark of
the end once, then nothing; and all of it together is the first error, or the tokens.**
-/
theorem tokenStream_items (source : String) :
    ∃ (lexemes : List Lexeme) (items : List (Except LexicalError Token)),
      Lexeme.Segments 0 source.toList lexemes ∧ List.Forall₂ Lexeme.ReadAs lexemes items ∧
      (∀ n, (TokenStream.ofSource source).item n = (items ++ [.ok .finish])[n]?) ∧
      .ok .finish ∉ items ∧
      (∀ error, tokenize source = .error error ↔
        ∃ (front : List Token) (back : _), items = front.map .ok ++ .error error :: back) ∧
      (∀ tokens, tokenize source = .ok tokens ↔
        ∃ inner, tokens = inner ++ [.finish] ∧ .finish ∉ inner ∧ items = inner.map .ok) := by
  have hsegments := (Lexeme.segments_iff_scanFrom 0 source.toList _).mpr rfl
  refine ⟨Lexeme.scan source, (Lexeme.scan source).map Lexeme.token, hsegments, ?_,
    TokenStream.item_reading _, ?_, fun error => tokenize_eq_error_iff, ?_⟩
  · rw [List.forall₂_map_right_iff, List.forall₂_same]
    intro l hl
    obtain ⟨rest, -, hlongest⟩ := hsegments.placed l hl
    exact hlongest.readAs
  · intro hmem
    obtain ⟨l, -, hl⟩ := List.mem_map.mp hmem
    exact Lexeme.token_ne_finish hl rfl
  · intro tokens
    constructor
    · intro h
      obtain ⟨inner, rfl, hinner⟩ := exists_inner_of_tokenize h
      exact ⟨inner, rfl, hinner, tokenize_eq_map_iff.mp h⟩
    · rintro ⟨inner, rfl, -, hitems⟩
      exact tokenize_eq_map_iff.mpr hitems

-- Two errors and a zero in front. The stream reads on past the first error, and `tokenize` stops.
example : (List.range 6).map (TokenStream.ofSource "é€007 9223372036854775808").item =
    [some (.ok (.name "é")), some (.error (.unexpected '€' ⟨2, 3⟩)), some (.ok (.number 7)),
      some (.error (.outOfRange ⟨9, 19⟩)), some (.ok .finish), none] := by
  decide +kernel

end Reckon
