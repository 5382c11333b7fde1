/-
Tokens read from a text, and what is wrong with a lexeme that is none.

`TokenStream` hands out one token or error at a time.  An error does not end it: it
goes on with the next lexeme, marks the end of the text once, and then has nothing
more.  `tokenize` reads a whole text and stops at its first error.
-/
import Reckon.Lexeme.Scan
import Reckon.Token

namespace Reckon

/-- Why a lexeme is no token. -/
inductive LexicalError
  /-- No token begins with this character. -/
  | unexpected (found : Char) (span : Span)
  /-- The literal is above the greatest value. -/
  | outOfRange (span : Span)
  deriving DecidableEq

namespace LexicalError

/-- The error in words. -/
def message : LexicalError → String
  | unexpected found _ => "unexpected character '" ++ String.singleton found ++ "'"
  | outOfRange _ => "integer literal out of range"

/-- The place of the error, with a remark. -/
def label : LexicalError → Label
  | unexpected _ span => ⟨span, "not a number, name, operator or parenthesis"⟩
  | outOfRange span => ⟨span, "does not fit in 64 bits"⟩

end LexicalError

namespace Lexeme

/--
The token that a lexeme stands for.  A literal is out of range by its value, so
leading zeros are free.
-/
def token (l : Lexeme) : Except LexicalError Token :=
  match l.kind with
  | .number =>
      let n := Decimal.value l.chars
      if n < Decimal.limit then .ok (.number (Int64.ofNat n)) else .error (.outOfRange l.span)
  | .name => .ok (.name l.text)
  | .operator op => .ok (.operator op)
  | .opening => .ok .opening
  | .closing => .ok .closing
  | .stray => .error (.unexpected l.first l.span)

end Lexeme

/-- A text that is being read token by token. -/
inductive TokenStream
  /-- These lexemes are still to come, and then the end. -/
  | reading (rest : List Lexeme)
  /-- The end has been handed out. -/
  | ended
  deriving DecidableEq

namespace TokenStream

/-- A stream at the beginning of a text. -/
def ofSource (source : String) : TokenStream :=
  .reading (Lexeme.scan source)

/-- The next token or error, if there is one, and the stream behind it. -/
def next : TokenStream → Option (Except LexicalError Token) × TokenStream
  | reading (l :: rest) => (some l.token, .reading rest)
  | reading [] => (some (.ok .finish), .ended)
  | ended => (none, .ended)

end TokenStream

/-- All tokens of a text and the mark of its end, or its first error. -/
def tokenize (source : String) : Except LexicalError (List Token) := do
  let tokens ← (Lexeme.scan source).mapM Lexeme.token
  return tokens ++ [.finish]

end Reckon
