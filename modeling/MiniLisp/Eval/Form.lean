import MiniLisp.Eval.Monad

/-!
# Special forms

A list that begins with a keyword is a special form: its operands are not evaluated first, and
what it does is fixed by the keyword, whatever the name is bound to. `lambda` makes a closure,
`let` evaluates a body in a frame with new bindings, and `if` evaluates one of two operands.

How operands are evaluated is left open here: it is given as the argument `ev`.

## Main definitions

* `lambdaForm`, `letForm`, `ifForm`: the three forms
* `Keyword.run`: the form of a keyword
-/

namespace MiniLisp

/-- The names of parameters, which have to be symbols. -/
def formalNames : List Expr → Except Error (List String)
  | [] => .ok []
  | p :: ps =>
    match p.symbol? with
    | some n => (formalNames ps).map (n :: ·)
    | none => .error (.lambdaParameter p)

/-- A closure made in the frame `f` from a list of parameters and a body, which is not
evaluated. -/
def lambdaForm (f : FrameId) : List Expr → Except Error Value
  | [.list params, body] => (formalNames params).map fun formals => .closure formals body f
  | [params, _] => .error (.lambdaParameters params)
  | _ => .error .lambdaOperands

/-- The name and the expression of a binding of `let`. -/
def Expr.binding? : Expr → Option (String × Expr)
  | .list [.atom (.symbol n), e] => some (n, e)
  | _ => none

section

variable (ev : Expr → FrameId → Eval Value) (f : FrameId)

/-- Evaluates the expressions of bindings in order, up to the first that is malformed. -/
def evalBindings : List Expr → Eval (List (String × Value))
  | [] => pure []
  | b :: bs =>
    match b.binding? with
    | some (n, e) => do
      let v ← ev e f
      let r ← evalBindings bs
      pure ((n, v) :: r)
    | none => Eval.raise (.letBinding b)

/-- Evaluates the expressions of bindings in the frame `f`, so that they do not see each other,
and then a body in a new frame inside `f` that binds all the names. -/
def letForm : List Expr → Eval Value
  | [.list bindings, body] => do
    let entries ← evalBindings ev f bindings
    let g ← Eval.enter (.ofNames entries) (some f)
    ev body g
  | [bindings, _] => Eval.raise (.letBindings bindings)
  | _ => Eval.raise .letOperands

/-- Evaluates a condition and then one of two operands; without a second one, the value is the
undefined one if the condition does not hold. -/
def ifForm : List Expr → Eval Value
  | [condition, consequent] => do
    let c ← ev condition f
    if c.isTrue then ev consequent f else pure .undefined
  | [condition, consequent, alternative] => do
    let c ← ev condition f
    if c.isTrue then ev consequent f else ev alternative f
  | _ :: _ :: _ :: _ :: _ => Eval.raise .ifOperandsExtra
  | _ => Eval.raise .ifOperandsMissing

/-- Evaluates the special form of a keyword with the given operands in the frame `f`. -/
def Keyword.run (k : Keyword) (operands : List Expr) : Eval Value :=
  match k with
  | .lambda => Eval.ofExcept (lambdaForm f operands)
  | .letIn => letForm ev f operands
  | .ifElse => ifForm ev f operands

end

end MiniLisp
