/-
Cutting a text into lexemes.

White space is passed over.  At any other character the longest lexeme that
begins there is taken, and the text goes on behind it.  Where none begins, the one
character is taken as a stray, so the scan always reaches the end.

The kinds begin with different characters, apart from the operators of one and of
two characters, so the longest lexeme is found by looking at the first character
and at how far its kind goes on.
-/
import Reckon.Lexeme

namespace Reckon.Lexeme

/-- The operator that two characters write together. -/
def pairOperator? : Char → Char → Option Operator
  | '<', '=' => some .le
  | '>', '=' => some .ge
  | '=', '=' => some .eq
  | '!', '=' => some .ne
  | '&', '&' => some .and
  | '|', '|' => some .or
  | _, _ => none

/-- The kind of a character that makes a lexeme alone. -/
def singleKind : Char → Kind
  | '*' => .operator .mul
  | '/' => .operator .div
  | '%' => .operator .rem
  | '+' => .operator .add
  | '-' => .operator .sub
  | '<' => .operator .lt
  | '>' => .operator .gt
  | '(' => .opening
  | ')' => .closing
  | _ => .stray

/--
The longest lexeme that begins with `c` and goes on into `rest`: its kind, and how
many characters of `rest` belong to it.
-/
def longest (c : Char) (rest : List Char) : Kind × Nat :=
  if c.isDigit then (.number, (rest.takeWhile Char.isDigit).length)
  else if isNameStart c then (.name, (rest.takeWhile isNamePart).length)
  else
    match rest.head?.bind (pairOperator? c) with
    | some op => (.operator op, 1)
    | none => (singleKind c, 0)

/-- The longest lexeme at a place, with the characters that belong to it. -/
def longestAt (start : Nat) (c : Char) (rest : List Char) : Lexeme :=
  ⟨(longest c rest).1, start, c, rest.take (longest c rest).2⟩

/-- The lexemes of a text that has `start` bytes before it. -/
def scanFrom (start : Nat) : List Char → List Lexeme
  | [] => []
  | c :: rest =>
      if isWhiteSpace c then scanFrom (start + c.utf8Size) rest
      else
        let lexeme := longestAt start c rest
        lexeme :: scanFrom lexeme.stop (rest.drop (longest c rest).2)
termination_by text => text.length
decreasing_by
  all_goals simp only [List.length_cons, List.length_drop]; omega

@[simp] theorem scanFrom_nil (start : Nat) : scanFrom start [] = [] := by
  rw [scanFrom]

theorem scanFrom_whiteSpace {c : Char} (h : isWhiteSpace c = true) (start : Nat)
    (rest : List Char) : scanFrom start (c :: rest) = scanFrom (start + c.utf8Size) rest := by
  rw [scanFrom, if_pos h]

/-- Elsewhere the longest lexeme is taken, and the scan goes on where it stops. -/
theorem scanFrom_lexeme {c : Char} (h : isWhiteSpace c = false) (start : Nat)
    (rest : List Char) :
    scanFrom start (c :: rest) =
      longestAt start c rest ::
        scanFrom (longestAt start c rest).stop (rest.drop (longest c rest).2) := by
  rw [scanFrom, if_neg (Bool.not_eq_true _ ▸ h)]

/-- The lexemes of a text. -/
def scan (source : String) : List Lexeme :=
  scanFrom 0 source.toList

end Reckon.Lexeme
