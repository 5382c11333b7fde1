/-
Which characters are apart from which.

A scan decides by the first character of a lexeme what kind it is, and by the next
character whether the lexeme goes on.  So white space must not go on with anything, a
digit must not begin a name, and what operators and parentheses are written with must
be neither.  The tables of letters, digits and white space are the standard's, and
that they are apart is computed from their ranges (`apart`).
-/
import Reckon.Lexeme.Scan

namespace Reckon

/-! ### Tables without common members -/

namespace CodeRanges

/-- Whether any two ranges of two tables are apart. -/
def apart (a b : CodeRanges) : Bool :=
  a.all fun r => b.all fun s => r.2 < s.1 || s.2 < r.1

theorem holds_eq_false_of_apart {a b : CodeRanges} (ha : a.ascending = true)
    (hb : b.ascending = true) (h : a.apart b = true) {n : Nat} (hn : holds n a = true) :
    holds n b = false := by
  obtain ⟨r, hr, hrn⟩ := (holds_iff ha n).mp hn
  apply Bool.eq_false_iff.mpr
  intro hcontra
  obtain ⟨s, hs, hsn⟩ := (holds_iff hb n).mp hcontra
  have hrs : r.2 < s.1 ∨ s.2 < r.1 := by
    simpa using List.all_eq_true.mp (List.all_eq_true.mp h r hr) s hs
  omega

end CodeRanges

theorem isLetter_eq_false_of_apart {ranges : CodeRanges} (hranges : ranges.ascending = true)
    (hbasic : ranges.apart letterRangesBasic = true)
    (hsupplementary : ranges.apart letterRangesSupplementary = true) {c : Char}
    (hc : CodeRanges.holds c.toNat ranges = true) : isLetter c = false := by
  unfold isLetter
  split
  · exact CodeRanges.holds_eq_false_of_apart hranges letterRangesBasic_ascending hbasic hc
  · exact CodeRanges.holds_eq_false_of_apart hranges letterRangesSupplementary_ascending
      hsupplementary hc

theorem isNamePart_of_isNameStart {c : Char} (h : isNameStart c = true) : isNamePart c = true := by
  rw [isNamePart, h, Bool.true_or]

theorem isNamePart_of_isDigit {c : Char} (h : c.isDigit = true) : isNamePart c = true := by
  rw [isNamePart, isDecimalDigit_of_isDigit h, Bool.or_true]

theorem eq_false_of_imp {a b : Bool} (h : a = true → b = true) (hb : b = false) : a = false := by
  apply Bool.eq_false_iff.mpr
  intro ha
  rw [h ha] at hb
  cases hb

theorem eq_false_of_excludes {a b : Bool} (h : a = true → b = false) (hb : b = true) :
    a = false := by
  apply Bool.eq_false_iff.mpr
  intro ha
  rw [h ha] at hb
  cases hb

theorem ne_of_holds {p : Char → Bool} {c d : Char} (hc : p c = true) (hd : p d = false) :
    c ≠ d := by
  intro heq
  rw [heq, hd] at hc
  cases hc

/-! ### White space -/

section WhiteSpace

variable {c : Char} (h : isWhiteSpace c = true)
include h

theorem isNamePart_eq_false_of_isWhiteSpace : isNamePart c = false := by
  have hunderscore : c ≠ '_' := ne_of_holds h (by decide)
  have hletter : isLetter c = false :=
    isLetter_eq_false_of_apart whiteSpaceRanges_ascending (by decide +kernel) (by decide +kernel) h
  have hdigit : isDecimalDigit c = false :=
    CodeRanges.holds_eq_false_of_apart whiteSpaceRanges_ascending decimalDigitRanges_ascending
      (by decide +kernel) h
  simp [isNamePart, isNameStart, hunderscore, hletter, hdigit]

theorem isDigit_eq_false_of_isWhiteSpace : c.isDigit = false :=
  eq_false_of_imp isNamePart_of_isDigit (isNamePart_eq_false_of_isWhiteSpace h)

end WhiteSpace

/-! ### Digits and names -/

theorem isNameStart_eq_false_of_isDigit {c : Char} (h : c.isDigit = true) :
    isNameStart c = false := by
  have hunderscore : c ≠ '_' := ne_of_holds h (by decide)
  have hrange : CodeRanges.holds c.toNat [(0x30, 0x39)] = true := by
    simpa [CodeRanges.holds] using toNat_of_isDigit h
  have hletter : isLetter c = false :=
    isLetter_eq_false_of_apart (by decide) (by decide +kernel) (by decide +kernel) hrange
  simp [isNameStart, hunderscore, hletter]

theorem isDigit_eq_false_of_isNameStart {c : Char} (h : isNameStart c = true) : c.isDigit = false :=
  eq_false_of_excludes isNameStart_eq_false_of_isDigit h

theorem isWhiteSpace_eq_false_of_isNamePart {c : Char} (h : isNamePart c = true) :
    isWhiteSpace c = false :=
  eq_false_of_excludes isNamePart_eq_false_of_isWhiteSpace h

/-! ### Operators and parentheses -/

/-- What operators and parentheses are written with. -/
def signs : List Char :=
  ['*', '/', '%', '+', '-', '<', '>', '=', '!', '&', '|', '(', ')']

theorem signs_apart :
    (signs.all fun c => !isNamePart c && !isWhiteSpace c) = true := by
  decide +kernel

section Signs

variable {c : Char} (h : c ∈ signs)
include h

theorem isNamePart_eq_false_of_mem_signs : isNamePart c = false := by
  have hapart := List.all_eq_true.mp signs_apart c h
  simp only [Bool.and_eq_true, Bool.not_eq_true'] at hapart
  exact hapart.1

theorem isWhiteSpace_eq_false_of_mem_signs : isWhiteSpace c = false := by
  have hapart := List.all_eq_true.mp signs_apart c h
  simp only [Bool.and_eq_true, Bool.not_eq_true'] at hapart
  exact hapart.2

theorem isNameStart_eq_false_of_mem_signs : isNameStart c = false :=
  eq_false_of_imp isNamePart_of_isNameStart (isNamePart_eq_false_of_mem_signs h)

theorem isDigit_eq_false_of_mem_signs : c.isDigit = false :=
  eq_false_of_imp isNamePart_of_isDigit (isNamePart_eq_false_of_mem_signs h)

end Signs

end Reckon
