import MiniLisp.Number.Layout

/-!
# Numbers

The numbers of the language: integers of any size and double-precision numbers. The two kinds
stay apart, yet compare by exact mathematical value.

## Main definitions

* `Number`: an integer or a double
* `Number.text`, `Number.isWritable`: how a number is written, and whether it can be
* `Number.same`: equality by value, across the kinds
* `Number.isZero`: the number is zero, of either kind and sign
-/

namespace MiniLisp

/-- A number: an integer of any size or a double. -/
inductive Number where
  | int (value : Int)
  | double (value : Double)
deriving DecidableEq

namespace Number

/-- The text of a number, of any size. -/
def text : Number → String
  | int i => intText i
  | double d => d.text

/-- The number can be written: it is no integer of too many digits. -/
def isWritable : Number → Bool
  | int i => decide (digitCount i.natAbs ≤ maxIntegerDigits)
  | double _ => true

/-- Equality of doubles by value: the two zeros are equal, and `nan` equals nothing. -/
def sameDouble : Double → Double → Bool
  | .finite n r, .finite n' r' => Double.signedUnits n r == Double.signedUnits n' r'
  | .infinite n, .infinite n' => n == n'
  | _, _ => false

/-- An integer and a double have the same value. -/
def sameMixed (i : Int) : Double → Bool
  | .finite n r => i <<< Double.unitsLog == Double.signedUnits n r
  | _ => false

/-- Equality by exact mathematical value. -/
def same : Number → Number → Bool
  | int i, int j => i == j
  | int i, double d => sameMixed i d
  | double d, int i => sameMixed i d
  | double d, double d' => sameDouble d d'

/-- The number is zero; `nan` is not. -/
def isZero (n : Number) : Bool := same n (int 0)

end Number

end MiniLisp
