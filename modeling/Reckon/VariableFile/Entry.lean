/-
Keys and values as a file of variables writes them.

A value is decimal with an optional sign, or it has no sign and names its radix:
`0x` for sixteen, `0o` for eight and `0b` for two.  Underscores may part the digits
into groups, so each stands alone between two digits.  Behind the name of a radix
zeros may lead, and in a decimal number they may not.

A key is bare, which takes letters and digits of ASCII, underscores and hyphens, or
it stands in quotes, which take any text.  Between double quotes a backslash begins
an escape.  Between single quotes all characters stand for themselves.
-/
import Reckon.Text.Decimal

namespace Reckon.Radix

/-- What a digit is worth; from ten on digits are letters of either case. -/
def digitValue? (c : Char) : Option Nat :=
  if c.isDigit then some (c.toNat - '0'.toNat)
  else if 'a' ≤ c ∧ c ≤ 'f' then some (c.toNat - 'a'.toNat + 10)
  else if 'A' ≤ c ∧ c ≤ 'F' then some (c.toNat - 'A'.toNat + 10)
  else none

/-- One more digit behind a number, if it is a digit of the radix. -/
def extend? (radix n : Nat) (c : Char) : Option Nat :=
  match digitValue? c with
  | some d => if d < radix then some (radix * n + d) else none
  | none => none

/-- The number that digits of a radix write; no digits write zero. -/
def value? (radix : Nat) (digits : List Char) : Option Nat :=
  digits.foldlM (extend? radix) 0

end Reckon.Radix

namespace Reckon.VariableFile

/-! ### Values -/

/--
The number that groups of digits write.  A group without digits is refused, so an
underscore neither begins nor ends the text nor follows another.
-/
def grouped? (radix : Nat) (text : List Char) : Option Nat :=
  let groups := text.splitOn '_'
  if groups.any List.isEmpty then none else Radix.value? radix groups.flatten

/-- A decimal number without its sign. Only zero itself begins with a zero. -/
def decimal? (text : List Char) : Option Nat :=
  if text.head? = some '0' ∧ 1 < text.length then none else grouped? 10 text

/-- A value that is not negative, if sixty-four bits hold it. -/
def positive? (n : Nat) : Option Int64 :=
  if n < Decimal.limit then some (Int64.ofNat n) else none

/-- The negative of a number, if sixty-four bits hold it. -/
def negative? (n : Nat) : Option Int64 :=
  if n ≤ Decimal.limit then some (Int64.ofInt (-(n : Int))) else none

/-- The value of a text. -/
def integer? (text : List Char) : Option Int64 :=
  match text with
  | '0' :: 'x' :: digits => grouped? 16 digits >>= positive?
  | '0' :: 'o' :: digits => grouped? 8 digits >>= positive?
  | '0' :: 'b' :: digits => grouped? 2 digits >>= positive?
  | '+' :: digits => decimal? digits >>= positive?
  | '-' :: digits => decimal? digits >>= negative?
  | _ => decimal? text >>= positive?

/-! ### Keys -/

/-- Characters that may stand in a comment: a tab, and whatever is no control character of ASCII. -/
def isPlain (c : Char) : Bool :=
  c == '\t' || (0x20 ≤ c.toNat && c.toNat ≠ 0x7F)

/-- Characters of a bare key. -/
def isBareKeyChar (c : Char) : Bool :=
  c.isAlphanum || c == '_' || c == '-'

/-- The character with a code point of just so many hexadecimal digits, at the head of a text. -/
def codePoint? (count : Nat) (text : List Char) : Option Char :=
  let digits := text.take count
  if digits.length = count then
    match Radix.value? 16 digits with
    | some n => if n.isValidChar then some (Char.ofNat n) else none
    | none => none
  else none

/--
The character that an escape stands for, given the letter behind the backslash and
what follows, and how many characters of that belong to the escape.
-/
def escape? (letter : Char) (text : List Char) : Option (Char × Nat) :=
  match letter with
  | 'b' => some ('\x08', 0)
  | 't' => some ('\t', 0)
  | 'n' => some ('\n', 0)
  | 'f' => some ('\x0c', 0)
  | 'r' => some ('\r', 0)
  | 'e' => some ('\x1b', 0)
  | '"' => some ('"', 0)
  | '\\' => some ('\\', 0)
  | 'x' => (codePoint? 2 text).map (·, 2)
  | 'u' => (codePoint? 4 text).map (·, 4)
  | 'U' => (codePoint? 8 text).map (·, 8)
  | _ => none

/-- The rest of a key in double quotes, and what follows the closing quote. -/
def doubleQuoted? : List Char → Option (List Char × List Char)
  | [] => none
  | '"' :: rest => some ([], rest)
  | '\\' :: letter :: rest =>
      match escape? letter rest with
      | some (c, count) => (doubleQuoted? (rest.drop count)).map fun (key, text) => (c :: key, text)
      | none => none
  | c :: rest =>
      if isPlain c && c ≠ '\\' then (doubleQuoted? rest).map fun (key, text) => (c :: key, text)
      else none
termination_by text => text.length
decreasing_by
  all_goals simp only [List.length_cons, List.length_drop]; omega

/-- The rest of a key in single quotes, and what follows the closing quote. -/
def singleQuoted? (text : List Char) : Option (List Char × List Char) :=
  let key := text.takeWhile (· ≠ '\'')
  match text.dropWhile (· ≠ '\'') with
  | [] => none
  | _ :: rest => if key.all isPlain then some (key, rest) else none

/-- The key at the head of a text, and what follows it. -/
def key? (text : List Char) : Option (String × List Char) :=
  match text with
  | '"' :: rest => (doubleQuoted? rest).map fun (key, text) => (String.ofList key, text)
  | '\'' :: rest => (singleQuoted? rest).map fun (key, text) => (String.ofList key, text)
  | _ =>
      let key := text.takeWhile isBareKeyChar
      if key.isEmpty then none else some (String.ofList key, text.dropWhile isBareKeyChar)

end Reckon.VariableFile
