import MiniLisp.Number.Decimal

/-!
# How doubles are written

A finite double is written with the fewest digits that identify it: positionally while its
decimal exponent is moderate, and with an explicit exponent beyond.

## Main definitions

* `DoubleLayout`, `doubleLayout`: the decisions of the format
* `Decimal.layout`: the text of a decimal in a given layout
* `Double.text`: the text of a double
-/

namespace MiniLisp

/-- The decisions that fix how the digits of a double are laid out. -/
structure DoubleLayout where
  /-- The least decimal exponent that is written positionally. -/
  least : Int
  /-- The greatest decimal exponent that is written positionally. -/
  greatest : Int
  /-- The number of digits to which a written exponent is padded. -/
  exponentWidth : Nat

/-- Doubles are written positionally from `0.0001` up to below `10 ^ 16`, always with a digit
after the point; an exponent has a sign and at least two digits. -/
def doubleLayout : DoubleLayout := ⟨-4, 15, 2⟩

/-- Digits with the point at position `point`, counted from before the first digit, with zeros
where there are no digits. -/
def positional (digits : List Char) (point : Int) : List Char :=
  if point ≤ 0 then '0' :: '.' :: (List.replicate (-point).toNat '0' ++ digits)
  else
    let whole := digits.take point.toNat
    let rest := digits.drop point.toNat
    whole ++ List.replicate (point.toNat - whole.length) '0' ++
      '.' :: (if rest.isEmpty then ['0'] else rest)

/-- A signed number, padded with zeros to the given number of digits. -/
def signedExponent (width : Nat) (e : Int) : List Char :=
  let digits := Nat.toDigits 10 e.natAbs
  (if e < 0 then '-' else '+') :: (List.replicate (width - digits.length) '0' ++ digits)

/-- Digits with the point after the first one, and the decimal exponent `e`. -/
def scientific (width : Nat) (digits : List Char) (e : Int) : List Char :=
  let rest := digits.drop 1
  digits.take 1 ++ (if rest.isEmpty then [] else '.' :: rest) ++ 'e' :: signedExponent width e

/-- The text of a decimal in the given layout. -/
def Decimal.layout (l : DoubleLayout) (d : Decimal) : List Char :=
  let digits := Nat.toDigits 10 d.coefficient
  let e := d.exponent + digits.length - 1
  if l.least ≤ e ∧ e ≤ l.greatest then positional digits (e + 1)
  else scientific l.exponentWidth digits e

/-- The text of a double. -/
def Double.text : Double → String
  | .finite negative r =>
    String.ofList (signText negative ++ (Decimal.shortest r).layout doubleLayout)
  | .infinite negative => String.ofList (signText negative ++ ['i', 'n', 'f'])
  | .nan => "nan"

end MiniLisp
