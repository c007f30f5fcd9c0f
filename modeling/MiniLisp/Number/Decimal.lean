import MiniLisp.Number.Double
import MiniLisp.Text.Integer

/-!
# Decimals

Numbers given by a coefficient and a power of ten, and the two ways between them and the doubles:
a decimal goes to the nearest double, and a magnitude to the decimal with the fewest digits that
comes back to it.

## Main definitions

* `Decimal`: a coefficient times a power of ten
* `Decimal.toDouble negative d`: the double nearest to `d`, with the given sign
* `Decimal.shortest r`: the decimal with the fewest digits that is nearest to the magnitude of
  rank `r`; of two such, the nearer
-/

namespace MiniLisp

/-- The number `coefficient * 10 ^ exponent`. -/
structure Decimal where
  coefficient : Nat
  exponent : Int
deriving DecidableEq

namespace Decimal

/-- The numerator of a decimal, as a quotient of natural numbers. -/
def numerator (d : Decimal) : Nat :=
  -- by name, as the instance that a power stands for depends on the algebra in scope
  d.coefficient * Nat.pow 10 d.exponent.toNat

/-- The denominator of a decimal, as a quotient of natural numbers. -/
def denominator (d : Decimal) : Nat := Nat.pow 10 (-d.exponent).toNat

theorem denominator_pos (d : Decimal) : 0 < d.denominator := Nat.pow_pos (by decide)

/-- The double nearest to a decimal. A decimal that is out of the range of the doubles by its
exponent alone is settled without writing it out. -/
def toDouble (negative : Bool) (d : Decimal) : Double :=
  if d.coefficient = 0 then .ofRank negative 0
  else if 400 < d.exponent then .infinite negative
  else if d.exponent + d.coefficient.log2 / 3 < -400 then .ofRank negative 0
  else .ofRatio negative d.numerator d.denominator

/-- The power of ten just above the positive quotient `p / q`: the least `k` with
`p / q < 10 ^ k`. -/
def pointPosition (p q : Nat) : Int :=
  if q ≤ p then digitCount (p / q) else 1 - digitCount ((q - 1) / p)

/-- The two decimals of exponent `e` next to `p / q`, the nearer first; halfway, the even one
first. -/
def neighbours (p q : Nat) (e : Int) : List Decimal :=
  let p := p * Nat.pow 10 (-e).toNat
  let q := q * Nat.pow 10 e.toNat
  let nearer := roundQuotient p q
  let farther := if nearer = p / q then nearer + 1 else nearer - 1
  [⟨nearer, e⟩, ⟨farther, e⟩]

/-- The decimal is nearest to the magnitude of rank `r`. -/
def readsBack (r : Nat) (d : Decimal) : Bool :=
  decide (d.toDouble false = .ofRank false r)

/-- The magnitude of rank `r`, written out in full. -/
def exact (r : Nat) : Decimal :=
  ⟨Double.units r * Nat.pow 5 Double.unitsLog, -Double.unitsLog⟩

/-- The number `c * 10 ^ e`, with the zeros at the end of `c` moved into the exponent. -/
def trim (c : Nat) (e : Int) : Decimal :=
  if c ≠ 0 ∧ c % 10 = 0 then trim (c / 10) (e + 1) else ⟨c, e⟩
termination_by c

/-- The decimals of at most `count` digits next to the magnitude of rank `r`, by ascending number
of digits. -/
def candidates (r count : Nat) : List Decimal :=
  let p := Double.units r
  let q := 1 <<< Double.unitsLog
  let k := pointPosition p q
  (List.range count).flatMap fun i : Nat => neighbours p q (k - (i + 1 : Nat))

/-- The decimal with the fewest digits that is nearest to the magnitude of rank `r`; of two with
that number of digits, the nearer. -/
def shortest (r : Nat) : Decimal :=
  if r = 0 then ⟨0, 0⟩
  else
    let d := ((candidates r 17).find? (readsBack r)).getD (exact r)
    trim d.coefficient d.exponent

end Decimal

end MiniLisp
