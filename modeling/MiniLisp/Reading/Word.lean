import MiniLisp.Term.Basic
import MiniLisp.Number.Numeral
import MiniLisp.Reading.Error

/-!
# What words stand for

A word that has the form of a number stands for that number, any other word for the symbol of that
name.

## Main definitions

* `Atom.ofWord w`: the atom that the word `w` stands for
-/

namespace MiniLisp

/-- The atom that a word stands for. Integers of too many digits are refused; doubles are not, as
digits beyond their precision are harmless. -/
def Atom.ofWord (word : String) : Except ReadError Atom :=
  match Numeral.read? word.toList with
  | none => .ok (.symbol word)
  | some n =>
    if n.isInteger then
      if maxIntegerDigits < n.whole.length then .error .oversizedInteger
      else .ok (.number (.int n.toInt))
    else .ok (.number (.double n.toDouble))

end MiniLisp
