/-
Files of variables: TOML documents that are one flat table of integers.

A line binds a key to an integer, or it binds nothing.  A comment may end it.  All
else that TOML knows is refused here, because no other table and no other kind of
value is a variable: dotted keys, headers, strings, arrays, dates and the rest.
-/
import Reckon.Reduction
import Reckon.VariableFile.Entry

namespace Reckon.VariableFile

/-- Blanks may stand around keys and values. -/
def isBlank (c : Char) : Bool :=
  c == ' ' || c == '\t'

/-- A line without the carriage return at its end. -/
def withoutReturn (line : List Char) : List Char :=
  if line.getLast? = some '\r' then line.dropLast else line

/--
The lines of a text.  A line ends with a line feed, and a carriage return right
before that belongs to the ending.  What follows the last line feed is a line too,
but it has no ending.
-/
def lines (text : List Char) : List (List Char) :=
  let pieces := text.splitOn '\n'
  pieces.dropLast.map withoutReturn ++ pieces.getLast?.toList

/-- Whether nothing comes any more but a comment. -/
def isRemark (text : List Char) : Bool :=
  match text with
  | [] => true
  | '#' :: remark => remark.all isPlain
  | _ => false

/-- The key and the value that a text binds. -/
def binding? (text : List Char) : Option (String × Int64) := do
  let (key, text) ← key? text
  match text.dropWhile isBlank with
  | '=' :: text =>
      let text := text.dropWhile isBlank
      let value ← integer? (text.takeWhile fun c => !isBlank c && c ≠ '#')
      let text := text.dropWhile fun c => !isBlank c && c ≠ '#'
      if isRemark (text.dropWhile isBlank) then some (key, value) else none
  | _ => none

/-- The bindings with those of one more line. A key that is bound already may not be bound again. -/
def addLine (b : Bindings) (line : List Char) : Option Bindings :=
  let text := line.dropWhile isBlank
  if isRemark text then some b
  else
    match binding? text with
    | some (key, value) => if b.contains key then none else some (b.insert key value)
    | none => none

/-- The variables of a file, if it is one. A byte order mark may come first. -/
def parse? (text : String) : Option Bindings :=
  let text :=
    match text.toList with
    | '\uFEFF' :: rest => rest
    | all => all
  (lines text).foldlM addLine ∅

end Reckon.VariableFile
