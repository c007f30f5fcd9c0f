import Mathlib.Logic.Basic
import MiniLisp.Term.Text

/-!
# What can be written

Integers of more than 4300 digits cannot be written, and neither can what contains one: an
expression, a list, or a closure by its body. Strings and doubles can always be written.

## Main definitions

* `Number.Short`, `Atom.Short`: no integer has too many digits
* `Number.oversized`: an integer of too many digits

## Main results

* `Expr.isWritable_toData`: an expression can be written if the data that it spells can
* `Number.isWritable_oversized`: not all integers can be written
-/

namespace MiniLisp

/-- An integer has no more digits than are taken. -/
def Number.Short : Number → Prop
  | int i => digitCount i.natAbs ≤ maxIntegerDigits
  | double _ => True

/-- An integer has no more digits than are taken. -/
def Atom.Short : Atom → Prop
  | number n => n.Short
  | _ => True

theorem Number.isWritable_iff {n : Number} : n.isWritable = true ↔ n.Short := by
  cases n with
  | int i => exact decide_eq_true_iff
  | double d => exact iff_of_true rfl trivial

theorem Atom.isWritable_iff {a : Atom} : a.isWritable = true ↔ a.Short := by
  cases a with
  | number n => exact Number.isWritable_iff
  | str s => exact iff_of_true rfl trivial
  | symbol n => exact iff_of_true rfl trivial

/-! ## Expressions and values -/

/-- Symbols can be written. -/
@[simp] theorem Expr.allWritable_symbols (names : List String) :
    Expr.allWritable (names.map .symbol) = true := by
  induction names with
  | nil => rfl
  | cons n names ih => exact ih

mutual

/-- The data that an expression spells contains the numbers of the expression. -/
@[simp] theorem Expr.isWritable_toData : ∀ e : Expr, e.toData.isWritable = e.isWritable
  | .atom a => by cases a <;> rfl
  | .list es => Expr.allWritable_toDataList es
  | .embedded _ => rfl

theorem Expr.allWritable_toDataList : ∀ es : List Expr,
    Value.allWritable (Expr.toDataList es) = Expr.allWritable es
  | [] => rfl
  | e :: es => congrArg₂ and (Expr.isWritable_toData e) (Expr.allWritable_toDataList es)

end

theorem Expr.text?_of_isWritable {e : Expr} (h : e.isWritable = true) : e.text? = some e.text :=
  if_pos h

theorem Value.display?_of_isWritable {v : Value} (h : v.isWritable = true) (nested : Bool) :
    v.display? nested = some (v.display nested) := if_pos h

/-! ## An integer that cannot be written -/

/-- The least integer of too many digits. -/
def Number.oversized : Number := .int (Nat.pow 10 maxIntegerDigits)

/-- The power `10 ^ k` has more than `k` digits. -/
theorem lt_digitCount_pow {k : Nat} (hk : 0 < k) : k < digitCount (Nat.pow 10 k) :=
  Nat.lt_of_not_le fun h =>
    Nat.lt_irrefl (10 ^ k) ((Nat.length_toDigits_le_iff (by decide) hk).mp h)

theorem Number.isWritable_natCast {n : Nat} :
    (Number.int n).isWritable = true ↔ digitCount n ≤ maxIntegerDigits := decide_eq_true_iff

theorem Number.isWritable_oversized : oversized.isWritable = false := by
  have hlong : maxIntegerDigits < digitCount (Nat.pow 10 maxIntegerDigits) :=
    lt_digitCount_pow (by decide)
  rw [oversized, ← Bool.not_eq_true, isWritable_natCast]
  exact Nat.not_le_of_lt hlong

end MiniLisp
