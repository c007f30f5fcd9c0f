import MiniLisp.Term.Basic

/-!
# Equality of expressions and values

Expressions are equal when they have the same shape, and their atoms the same kinds and the same
values. Numbers compare by exact mathematical value, an integer with a double too; so equality is
not the identity of the data, and `nan` differs from itself.

## Main definitions

* `Expr.same`: equality of expressions
* `Value.same`: equality of values
-/

namespace MiniLisp

/-- Equality of atoms: the same kind and the same value. -/
def Atom.same : Atom → Atom → Bool
  | number n, number n' => n.same n'
  | str s, str s' => s == s'
  | symbol s, symbol s' => s == s'
  | _, _ => false

mutual

/-- Equality of expressions. -/
def Expr.same : Expr → Expr → Bool
  | .atom a, .atom a' => a.same a'
  | .list es, .list es' => Expr.sameAll es es'
  | .embedded v, .embedded v' => v.same v'
  | _, _ => false

/-- Equality of lists of expressions, one by one. -/
def Expr.sameAll : List Expr → List Expr → Bool
  | [], [] => true
  | e :: es, e' :: es' => e.same e' && Expr.sameAll es es'
  | _, _ => false

/-- Equality of values. Closures are equal when they were made in the same frame from equal
parts. -/
def Value.same : Value → Value → Bool
  | .number n, .number n' => n.same n'
  | .str s, .str s' => s == s'
  | .list vs, .list vs' => Value.sameAll vs vs'
  | .undefined, .undefined => true
  | .closure ps b f, .closure ps' b' f' => ps == ps' && b.same b' && f == f'
  | .procedure p, .procedure p' => decide (p = p')
  | _, _ => false

/-- Equality of lists of values, one by one. -/
def Value.sameAll : List Value → List Value → Bool
  | [], [] => true
  | v :: vs, v' :: vs' => v.same v' && Value.sameAll vs vs'
  | _, _ => false

end

end MiniLisp
