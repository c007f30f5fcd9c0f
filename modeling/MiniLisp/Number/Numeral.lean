import MiniLisp.Text.DecimalDigit
import MiniLisp.Number.Decimal

/-!
# Number words

The words that stand for numbers: an optional sign, digits with at most one point among or around
them, and optionally a power of ten. Digits of all scripts are taken, mixed freely. A word of
digits alone stands for an integer, any other for a double.

## Main definitions

* `Numeral`: the parts of a number word
* `Numeral.read? w`: the parts of the word `w`, if it is a number word
* `Numeral.toInt`, `Numeral.toDouble`: the number that a number word stands for
-/

namespace MiniLisp

/-- The parts of a number word. Digits are given by their values. -/
structure Numeral where
  negative : Bool
  /-- The digits before the point. -/
  whole : List Nat
  /-- The digits after the point, if there is a point. -/
  fraction : Option (List Nat)
  /-- The sign and the digits of the power of ten, if one is given. -/
  power : Option (Bool × List Nat)
deriving DecidableEq

/-- The leading digits of a text, by their values, and the text after them. -/
def takeDigits : List Char → List Nat × List Char
  | [] => ([], [])
  | c :: r =>
    match digitValue? c with
    | some d =>
      let p := takeDigits r
      (d :: p.1, p.2)
    | none => ([], c :: r)

/-- An optional sign, whether it is a minus, and the text after it. -/
def takeSign : List Char → Bool × List Char
  | '+' :: r => (false, r)
  | '-' :: r => (true, r)
  | r => (false, r)

/-- A point and the digits after it, if the text begins with a point, and the text after them. -/
def takeFraction : List Char → Option (List Nat) × List Char
  | '.' :: r =>
    let p := takeDigits r
    (some p.1, p.2)
  | r => (none, r)

/-- The power of ten that makes up the whole text: nothing at all, or the letter `e` in either
case, an optional sign, and digits. -/
def readPower? : List Char → Option (Option (Bool × List Nat))
  | [] => some none
  | c :: r =>
    let (negative, r) := takeSign r
    let (digits, r) := takeDigits r
    if (c = 'e' ∨ c = 'E') ∧ digits ≠ [] ∧ r = [] then some (some (negative, digits)) else none

/-- The number that digits stand for to base ten. -/
def ofDigits (digits : List Nat) : Nat := digits.foldl (fun n d => 10 * n + d) 0

namespace Numeral

/-- The parts of a number word; there is a digit before the point or after it. -/
def read? (word : List Char) : Option Numeral :=
  let (negative, r) := takeSign word
  let (whole, r) := takeDigits r
  let (fraction, r) := takeFraction r
  if whole = [] ∧ fraction.getD [] = [] then none
  else (readPower? r).map fun power => ⟨negative, whole, fraction, power⟩

/-- The word has digits alone, with an optional sign. -/
def isInteger (n : Numeral) : Bool := n.fraction.isNone && n.power.isNone

/-- A number with the sign that a word gives it. -/
def signed (negative : Bool) (n : Nat) : Int := if negative then -n else n

/-- The integer that a word of digits stands for. -/
def toInt (n : Numeral) : Int := signed n.negative (ofDigits n.whole)

/-- The decimal that the word stands for, less its sign. -/
def toDecimal (n : Numeral) : Decimal :=
  let fraction := n.fraction.getD []
  let power := (n.power.map fun p => signed p.1 (ofDigits p.2)).getD 0
  ⟨ofDigits (n.whole ++ fraction), power - fraction.length⟩

/-- The double nearest to the number that the word stands for. -/
def toDouble (n : Numeral) : Double := n.toDecimal.toDouble n.negative

end Numeral

end MiniLisp
