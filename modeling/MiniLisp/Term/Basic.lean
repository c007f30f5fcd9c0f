import MiniLisp.Number.Basic

/-!
# Expressions and values

Program text is read into expressions and expressions are evaluated to values. The two types refer
to each other: a closure is a value that holds its body as an expression, and a host program may
place a value where an expression is expected.

A closure refers to the frame in which it was made by the identity of that frame, so what it sees
is the frame as it stands when the closure is applied.

## Main definitions

* `Atom`: a number, a string or a symbol
* `Expr`: an expression
* `Value`: the outcome of an evaluation
* `Procedure`: a procedure that is not written in the language
-/

namespace MiniLisp

/-- The identity of a frame of bindings. -/
abbrev FrameId := Nat

/-- An expression without parts. -/
inductive Atom where
  | number (value : Number)
  /-- A string. Its text is taken as it stands, without escapes. -/
  | str (value : String)
  | symbol (name : String)
deriving DecidableEq

/-- The procedures that every session offers. -/
inductive Builtin where
  /-- Writes its argument and returns it. -/
  | print
  /-- The first element of a list. -/
  | first
  /-- The elements of a list after the first. -/
  | rest
deriving DecidableEq

/-- The procedures that a host program may offer besides. They are given the frame in which they
are called, and may read and write it. -/
inductive HostProcedure where
  /-- The sum of the integers among the arguments. -/
  | sum
  /-- The list of the arguments. -/
  | list
  /-- The bindings of the calling frame, as text. -/
  | frameText
  /-- The bindings of the calling frame and of those around it, as text. -/
  | chainText
  /-- The value of a name in the calling frame. -/
  | get
  /-- Binds a name in the calling frame. -/
  | set
  /-- Applies a procedure to a list of arguments. -/
  | call
  /-- Reads a text and evaluates it in the calling frame. -/
  | readEval
deriving DecidableEq

/-- A procedure that is not written in the language. -/
inductive Procedure where
  | builtin (b : Builtin)
  | host (h : HostProcedure)
deriving DecidableEq

mutual

/-- An expression: an atom, or a list of expressions. -/
inductive Expr where
  | atom (a : Atom)
  | list (items : List Expr)
  /-- A value that a host program has placed where an expression is expected. The reader makes
  none, and none can be evaluated. -/
  | embedded (value : Value)

/-- The outcome of an evaluation. -/
inductive Value where
  | number (value : Number)
  | str (value : String)
  | list (items : List Value)
  /-- What a name stands for that is bound nowhere. -/
  | undefined
  /-- A procedure written in the language: its parameters, its body, and the frame in which it
  was made. -/
  | closure (formals : List String) (body : Expr) (scope : FrameId)
  | procedure (p : Procedure)

end

namespace Atom

/-- The value that an atom holds; that of a symbol is its name. -/
def value : Atom → Value
  | number n => .number n
  | str s => .str s
  | symbol s => .str s

end Atom

namespace Expr

/-- The expression that consists of a symbol. -/
abbrev symbol (name : String) : Expr := atom (.symbol name)

/-- The name of a symbol. -/
def symbol? : Expr → Option String
  | atom (.symbol s) => some s
  | _ => none

mutual

/-- The data that an expression spells: the values of its atoms, nested as in the expression. -/
def toData : Expr → Value
  | atom a => a.value
  | list items => .list (toDataList items)
  | embedded v => v

/-- The data that each of the expressions spells. -/
def toDataList : List Expr → List Value
  | [] => []
  | e :: es => toData e :: toDataList es

end

end Expr

namespace Value

/-- The value can be applied to arguments. -/
def isApplicable : Value → Bool
  | closure _ _ _ => true
  | procedure _ => true
  | _ => false

/-- Whether a condition with this value holds: the undefined value and the numbers equal to zero
do not, all else does. -/
def isTrue : Value → Bool
  | undefined => false
  | number n => !n.isZero
  | _ => true

end Value

end MiniLisp
