/-
Lexemes: the pieces of a text that white space does not take.

A lexeme is a stretch of at least one character together with its kind and the
place where it begins.  Places are counted in bytes of UTF-8.  What a kind may
look like is `Kind.Matches`; a character at which no kind can begin is a lexeme of
its own, a stray.
-/
import Reckon.Operator
import Reckon.Text.CharacterClass

namespace Reckon

/-- How many bytes characters take in UTF-8. -/
def byteLength (text : List Char) : Nat :=
  text.foldr (fun c n => c.utf8Size + n) 0

@[simp] theorem byteLength_nil : byteLength [] = 0 := rfl

@[simp] theorem byteLength_cons (c : Char) (t : List Char) :
    byteLength (c :: t) = c.utf8Size + byteLength t := rfl

@[simp] theorem byteLength_append (s t : List Char) :
    byteLength (s ++ t) = byteLength s + byteLength t := by
  induction s with
  | nil => rw [List.nil_append, byteLength_nil, Nat.zero_add]
  | cons c s ih => rw [List.cons_append, byteLength_cons, byteLength_cons, ih, Nat.add_assoc]

/-- A stretch of a text: how many bytes come before it, and how many it takes. -/
structure Span where
  start : Nat
  length : Nat
  deriving DecidableEq

/-- A remark on a stretch of a text. -/
structure Label where
  span : Span
  text : String
  deriving DecidableEq

/-- The kinds of lexemes. -/
inductive Lexeme.Kind
  | number
  | name
  | operator (op : Operator)
  | opening
  | closing
  /-- A character that begins no lexeme of another kind. -/
  | stray
  deriving DecidableEq

/-- A stretch of a text. It holds a character by its form, so its span is never empty. -/
structure Lexeme where
  kind : Lexeme.Kind
  /-- How many bytes come before it. -/
  start : Nat
  first : Char
  more : List Char
  deriving DecidableEq

/-- A letter of any script or an underscore begins a name. -/
def isNameStart (c : Char) : Bool :=
  c == '_' || isLetter c

/-- A name goes on with letters, underscores and decimal digits of any script. -/
def isNamePart (c : Char) : Bool :=
  isNameStart c || isDecimalDigit c

namespace Lexeme

/-- The characters of a lexeme. -/
def chars (l : Lexeme) : List Char :=
  l.first :: l.more

/-- The text of a lexeme. -/
def text (l : Lexeme) : String :=
  String.ofList l.chars

/-- How many bytes a lexeme takes. -/
def length (l : Lexeme) : Nat :=
  byteLength l.chars

/-- How many bytes come before the end of a lexeme. -/
def stop (l : Lexeme) : Nat :=
  l.start + l.length

/-- The stretch that a lexeme takes. -/
def span (l : Lexeme) : Span :=
  ⟨l.start, l.length⟩

theorem start_lt_stop (l : Lexeme) : l.start < l.stop := by
  have := Char.utf8Size_pos l.first
  simp only [stop, length, chars, byteLength_cons]
  omega

/-- The texts that a kind allows. Numbers are written with the digits of ASCII alone. -/
def Kind.Matches : Kind → List Char → Prop
  | .number, text => text ≠ [] ∧ ∀ c ∈ text, c.isDigit = true
  | .name, text =>
      ∃ first more, text = first :: more ∧ isNameStart first = true ∧
        ∀ c ∈ more, isNamePart c = true
  | .operator op, text => text = op.symbol.toList
  | .opening, text => text = ['(']
  | .closing, text => text = [')']
  | .stray, _ => False

end Lexeme

end Reckon
