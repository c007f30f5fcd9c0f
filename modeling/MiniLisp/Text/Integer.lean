/-!
# How integers are written

## Main definitions

* `natText`: the text of a natural number
* `intText`: the text of an integer
* `maxIntegerDigits`: the greatest number of digits of an integer that is read or written
-/

namespace MiniLisp

/-- The minus sign of a negative number. -/
def signText (negative : Bool) : List Char := if negative then ['-'] else []

/-- The number of digits of `n` to base ten. -/
def digitCount (n : Nat) : Nat := (Nat.toDigits 10 n).length

/-- The greatest number of digits, leading zeros counted, of an integer that is read or written. -/
def maxIntegerDigits : Nat := 4300

/-- The digits of a natural number to base ten. -/
def natText (n : Nat) : String := String.ofList (Nat.toDigits 10 n)

/-- The digits of an integer to base ten, with a minus sign if it is negative. -/
def intText (i : Int) : String :=
  String.ofList (signText (decide (i < 0)) ++ Nat.toDigits 10 i.natAbs)

end MiniLisp
