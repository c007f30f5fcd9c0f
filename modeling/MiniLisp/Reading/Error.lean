import MiniLisp.Text.Integer
import MiniLisp.Text.Quoted

/-!
# Failures to read

The ways in which a text or a sequence of tokens fails to spell expressions.

## Main definitions

* `ReadError`: why reading failed
* `ReadError.position`: the offset to which the failure is put down
* `ReadError.message`: the failure in words
-/

namespace MiniLisp

/-- Why reading failed. -/
inductive ReadError where
  /-- A string has no closing quote; the offset is that of its opening one. -/
  | unterminatedString (pos : Nat)
  /-- A list has no closing parenthesis; the offset is that of the innermost one left open. -/
  | unterminatedList (pos : Int)
  /-- A closing parenthesis stands where no list is open. -/
  | unmatchedClosing (pos : Int)
  /-- A token is of no kind that spells anything. -/
  | unknownToken (kind value : String) (pos : Int)
  /-- There is no expression in the text, which has the given length. -/
  | emptyInput (length : Nat)
  /-- An integer has more digits than are taken. -/
  | oversizedInteger
deriving DecidableEq

namespace ReadError

/-- The offset to which the failure is put down. -/
def position : ReadError → Option Int
  | unterminatedString pos => some pos
  | unterminatedList pos => some pos
  | unmatchedClosing pos => some pos
  | unknownToken _ _ pos => some pos
  | emptyInput length => some length
  | oversizedInteger => none

/-- The failure in words. -/
def message : ReadError → String
  | unterminatedString pos => "Unterminated string literal at position " ++ natText pos
  | unterminatedList pos => "Unterminated list opened at position " ++ intText pos
  | unmatchedClosing pos => "Unmatched ')' at position " ++ intText pos
  | unknownToken kind value _ => "Unknown token: " ++ kind ++ " " ++ quoted value
  | emptyInput _ => "Empty input: expected an atom or a list"
  | oversizedInteger => "Too many digits in an integer"

end ReadError

end MiniLisp
