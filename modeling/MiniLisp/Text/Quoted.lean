import MiniLisp.Text.Printable

/-!
# Quoted text

How a string is shown where it has to be told apart from the text around it: between marks, with
the mark, the backslash and the unprintable characters escaped.

## Main definitions

* `quoteMark s`: the mark that goes round `s`
* `escape q c`: how the character `c` is written between marks `q`
* `quoted s`: the string `s`, quoted
-/

namespace MiniLisp

/-- The mark round a string: the apostrophe, unless the string holds one and no double quote. -/
def quoteMark (s : List Char) : Char :=
  if s.contains '\x27' && !s.contains '"' then '"' else '\x27'

/-- The digits of `n` to base sixteen, in lower case, padded with zeros to the given width. -/
def hexDigits (width n : Nat) : List Char :=
  let digits := Nat.toDigits 16 n
  List.replicate (width - digits.length) '0' ++ digits

/-- The escape of a character by its code point, in the shortest of the three forms that holds
it. -/
def escapeCode (n : Nat) : List Char :=
  if n < 0x100 then '\\' :: 'x' :: hexDigits 2 n
  else if n < 0x10000 then '\\' :: 'u' :: hexDigits 4 n
  else '\\' :: 'U' :: hexDigits 8 n

/-- A character as it is written between marks `q`. -/
def escape (q c : Char) : List Char :=
  if c = '\\' ∨ c = q then ['\\', c]
  else if c = '\n' then ['\\', 'n']
  else if c = '\t' then ['\\', 't']
  else if c = '\r' then ['\\', 'r']
  else if isPrintable c then [c]
  else escapeCode c.toNat

/-- The string between its marks, escaped. -/
def quoted (s : String) : String :=
  let q := quoteMark s.toList
  String.ofList (q :: (s.toList.flatMap (escape q) ++ [q]))

end MiniLisp
