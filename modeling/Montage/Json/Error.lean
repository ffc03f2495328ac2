import Montage.Text.Blank

/-!
Why a text is no JSON document, and where.
-/

namespace Montage.Json

inductive Problem where
  | value
  | comma
  | colon
  | name
  | unterminated
  | control
  | escape
  | hexEscape
  | extra
  | byteOrderMark
  deriving DecidableEq, Repr

def Problem.text : Problem → String
  | value => "Expecting value"
  | comma => "Expecting ',' delimiter"
  | colon => "Expecting ':' delimiter"
  | name => "Expecting property name enclosed in double quotes"
  | unterminated => "Unterminated string starting at"
  | control => "Invalid control character at"
  | escape => "Invalid \\escape"
  | hexEscape => "Invalid \\uXXXX escape"
  | extra => "Extra data"
  | byteOrderMark => "Unexpected UTF-8 BOM (decode using utf-8-sig)"

inductive Error where
  /-- a problem at the place from which on so many characters are left -/
  | malformed (problem : Problem) (left : Nat)
  /-- a whole number with too many digits -/
  | numberTooLong
  | tooDeep
  deriving DecidableEq, Repr

/-- A problem with its place in the document, by line, column and characters before it. -/
def describe (document : List Char) (problem : Problem) (left : Nat) : String :=
  let before := document.take (document.length - left)
  let line := before.count '\n' + 1
  let column := (before.reverse.takeWhile (· ≠ '\n')).length + 1
  s!"{problem.text}: line {line} column {column} (char {before.length})"

end Montage.Json
