/-!
# Double-precision numbers

Binary numbers of double precision, as exact mathematical objects. The finite magnitudes are
numbered in ascending order, from zero to the largest, and a number is given by its sign and the
rank of its magnitude; so each value has one form, and no arithmetic of the machine is involved.

Up to rank `2 ^ 53` the magnitudes are spaced one *unit* apart, a unit being the smallest positive
magnitude; from there on the spacing doubles every `2 ^ 52` ranks.

## Main definitions

* `Double`: a double-precision number, finite, infinite or no number at all
* `Double.units r`: the magnitude of rank `r`, counted in units
* `nearestRank p q`: the rank of the magnitude nearest to `p / q` units, ties to the even rank
* `Double.ofRatio negative p q`: the number nearest to the given quotient
-/

namespace MiniLisp

/-- The number of finite magnitudes. -/
abbrev rankCount : Nat := 2047 <<< 52

/-- A double-precision number. -/
inductive Double where
  /-- The magnitude of the given rank, with a sign; there is a zero of either sign. -/
  | finite (negative : Bool) (rank : Fin rankCount)
  | infinite (negative : Bool)
  /-- The marker for the outcome of an undefined operation. -/
  | nan
deriving DecidableEq

namespace Double

/-- The binary logarithm of the spacing of the magnitudes at rank `r`. -/
def spacing (r : Nat) : Nat := (r >>> 52) - 1

/-- The magnitude of rank `r`, counted in its own spacing. -/
def significand (r : Nat) : Nat := r - (spacing r <<< 52)

/-- The magnitude of rank `r`, counted in units. -/
def units (r : Nat) : Nat := significand r <<< spacing r

/-- The binary logarithm of the number of units in one. -/
abbrev unitsLog : Nat := 1074

end Double

/-- The natural number nearest to `p / q`; halfway, the even one. -/
def roundQuotient (p q : Nat) : Nat :=
  let whole := p / q
  let rest := 2 * (p % q)
  if rest < q ∨ (rest = q ∧ whole % 2 = 0) then whole else whole + 1

/-- The rank of the magnitude nearest to `p / q` units; halfway, the even rank. It goes on past
the finite magnitudes as if the spacing went on doubling. -/
def nearestRank (p q : Nat) : Nat :=
  let spacing := (p / q).log2 - 52
  (spacing <<< 52) + roundQuotient p (q <<< spacing)

namespace Double

/-- The magnitude of rank `r` with the given sign, or the infinity of that sign when there is no
such rank. -/
def ofRank (negative : Bool) (r : Nat) : Double :=
  if h : r < rankCount then finite negative ⟨r, h⟩ else infinite negative

/-- The number nearest to `p / q`, with the given sign. -/
def ofRatio (negative : Bool) (p q : Nat) : Double :=
  ofRank negative (nearestRank (p <<< unitsLog) q)

/-- The number is neither infinite nor `nan`. -/
def isFinite : Double → Bool
  | finite _ _ => true
  | _ => false

/-- The finite number in units, with its sign. -/
def signedUnits (negative : Bool) (r : Nat) : Int :=
  if negative then -(units r : Int) else units r

end Double

end MiniLisp
