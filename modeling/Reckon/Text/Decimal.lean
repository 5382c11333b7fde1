/-
Decimal numbers of sixty-four bits, as text.

Writing is `Decimal.text`: a sign for a negative value and the digits without
leading zeros.  Reading is `Decimal.read`, which takes an optional sign and any
number of leading zeros and says why a text is no number.

The digits themselves are core's: `Nat.toDigits 10` writes them and
`Nat.ofDigitChars 10` reads them, and core proves that the one undoes the other.
-/

namespace Reckon.Decimal

/-- The number that a run of digits writes; leading zeros do not count. -/
def value (digits : List Char) : Nat :=
  Nat.ofDigitChars 10 digits 0

/-- The digits of a number, without leading zeros. -/
def digits (n : Nat) : List Char :=
  Nat.toDigits 10 n

/-- The text of an integer: a minus sign if it is negative, then its digits. -/
def chars (i : Int) : List Char :=
  if i < 0 then '-' :: digits i.natAbs else digits i.natAbs

/-- The text of a value. -/
def text (v : Int64) : String :=
  String.ofList (chars v.toInt)

/-- The text of a count. -/
def countText (n : Nat) : String :=
  String.ofList (digits n)

@[simp] theorem value_digits (n : Nat) : value (digits n) = n := by
  simp [value, digits]

theorem isDigit_of_mem_digits {n : Nat} {c : Char} (h : c ∈ digits n) : c.isDigit = true :=
  Nat.isDigit_of_mem_toDigits (by decide) (by decide) h

@[simp] theorem toList_text (v : Int64) : (text v).toList = chars v.toInt := by
  simp [text]

/-- One more than the greatest value, and the magnitude of the least. -/
def limit : Nat :=
  Nat.pow 2 63

/-! ### Reading -/

/-- Why a text is not a number of sixty-four bits. -/
inductive Error
  /-- There is nothing to read. -/
  | empty
  /-- A character stands where a digit has to, or there is no digit at all. -/
  | invalidDigit
  /-- The number is above the greatest value. -/
  | tooLarge
  /-- The number is below the least value. -/
  | tooSmall
  deriving DecidableEq

namespace Error

/-- The error in words. -/
def message : Error → String
  | empty => "cannot parse integer from empty string"
  | invalidDigit => "invalid digit found in string"
  | tooLarge => "number too large to fit in target type"
  | tooSmall => "number too small to fit in target type"

end Error

/--
The value after the sign.  The digits count from left to right until one is
missing, and a number that leaves the range with the digits there are is reported
as such, whatever comes after them.
-/
def readUnsigned (negative : Bool) (text : List Char) : Except Error Int64 :=
  let run := text.takeWhile Char.isDigit
  let n := value run
  if negative && limit < n then .error .tooSmall
  else if !negative && limit ≤ n then .error .tooLarge
  else if run.isEmpty || run.length < text.length then .error .invalidDigit
  else .ok (Int64.ofInt (if negative then -(n : Int) else n))

/-- The value of a text: an optional sign, then digits and nothing else. -/
def read (text : List Char) : Except Error Int64 :=
  match text with
  | [] => .error .empty
  | '+' :: rest => readUnsigned false rest
  | '-' :: rest => readUnsigned true rest
  | _ => readUnsigned false text

end Reckon.Decimal
