import MiniLisp.Term.Basic
import MiniLisp.Text.Quoted

/-!
# The texts of expressions and values

Expressions are written as program text. Values are written in two ways: *displayed* as the
language shows them, with strings bare at the top and in double quotes inside lists, and
*inspected* as a host program shows them, with strings quoted and escaped and lists in brackets.

Integers of too many digits cannot be written, nor can anything that contains one. `Expr.text` and
the like give the digits in any case; what a program comes to is `Expr.text?` and the like.

## Main definitions

* `Expr.text`: an expression as program text
* `Value.display nested`: a value as the language shows it
* `Value.inspect`: a value as a host program shows it
* `Value.plain`: a value as a host program shows it, with a string left bare
* `Expr.isWritable`, `Value.isWritable`: all integers inside can be written
* `Expr.text?`, `Value.display?`, `Value.inspect?`: the texts of what can be written
-/

namespace MiniLisp

/-- The name by which a procedure is shown. -/
def Procedure.name : Procedure → String
  | .builtin .print => "print_builtin"
  | .builtin .first => "first"
  | .builtin .rest => "rest"
  | .host .sum => "host:+"
  | .host .list => "host:list"
  | .host .frameText => "host:env-text"
  | .host .chainText => "host:env-chain"
  | .host .get => "host:env-get"
  | .host .set => "host:env-set"
  | .host .call => "host:call"
  | .host .readEval => "host:read-eval"

/-- A string between double quotes. Nothing in it is escaped. -/
def stringText (s : String) : String := "\"" ++ s ++ "\""

/-- The texts in parentheses, with a space between neighbours. -/
def listText (items : List String) : String := "(" ++ " ".intercalate items ++ ")"

/-- The program text of a closure with the given parameters and the given text of a body. -/
def closureText (formals : List String) (body : String) : String :=
  "(lambda " ++ listText formals ++ " " ++ body ++ ")"

/-- An atom as program text. -/
def Atom.text : Atom → String
  | number n => n.text
  | str s => stringText s
  | symbol s => s

/-- The atom can be written: it is no integer of too many digits. -/
def Atom.isWritable : Atom → Bool
  | number n => n.isWritable
  | _ => true

/-- A value shown bare if it is a string, and by the given text otherwise. -/
def Value.plainOr (shown : String) : Value → String
  | .str s => s
  | _ => shown

mutual

/-- An expression as program text. -/
def Expr.text : Expr → String
  | .atom a => a.text
  | .list items => listText (Expr.texts items)
  | .embedded v => v.plainOr v.inspect

/-- The program texts of the expressions. -/
def Expr.texts : List Expr → List String
  | [] => []
  | e :: es => e.text :: Expr.texts es

/-- A value as a host program shows it. -/
def Value.inspect : Value → String
  | .number n => n.text
  | .str s => quoted s
  | .list items => "[" ++ ", ".intercalate (Value.inspectAll items) ++ "]"
  | .undefined => "undefined"
  | .closure formals body _ => closureText formals body.text
  | .procedure p => "<function " ++ p.name ++ ">"

/-- The values as a host program shows them. -/
def Value.inspectAll : List Value → List String
  | [] => []
  | v :: vs => v.inspect :: Value.inspectAll vs

end

namespace Value

/-- A value as a host program shows it, with a string left bare. -/
def plain (v : Value) : String := v.plainOr v.inspect

mutual

/-- A value as the language shows it; `nested` says that it stands inside a list. -/
def display (nested : Bool) : Value → String
  | undefined => "undefined"
  | str s => if nested then stringText s else s
  | list items => listText (displayAll items)
  | closure formals body _ => closureText formals body.text
  | procedure p => "#<builtin " ++ p.name ++ ">"
  | number n => n.text

/-- The values as the language shows them inside a list. -/
def displayAll : List Value → List String
  | [] => []
  | v :: vs => display true v :: displayAll vs

end

end Value

mutual

/-- The expression can be written: no integer in it has too many digits. -/
def Expr.isWritable : Expr → Bool
  | .atom a => a.isWritable
  | .list items => Expr.allWritable items
  | .embedded v => v.isWritable

/-- All of the expressions can be written. -/
def Expr.allWritable : List Expr → Bool
  | [] => true
  | e :: es => e.isWritable && Expr.allWritable es

/-- The value can be written: no integer in it has too many digits, nor any in the body of a
closure. -/
def Value.isWritable : Value → Bool
  | .number n => n.isWritable
  | .list items => Value.allWritable items
  | .closure _ body _ => body.isWritable
  | _ => true

/-- All of the values can be written. -/
def Value.allWritable : List Value → Bool
  | [] => true
  | v :: vs => v.isWritable && Value.allWritable vs

end

/-- An expression as program text, if it can be written. -/
def Expr.text? (e : Expr) : Option String := if e.isWritable then some e.text else none

namespace Value

/-- A value as a host program shows it, if it can be written. -/
def inspect? (v : Value) : Option String := if v.isWritable then some v.inspect else none

/-- A value as the language shows it, if it can be written. -/
def display? (nested : Bool) (v : Value) : Option String :=
  if v.isWritable then some (v.display nested) else none

end Value

end MiniLisp
