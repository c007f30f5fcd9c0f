import MiniLisp.Eval.Form
import MiniLisp.Eval.Procedure

/-!
# Evaluation

An atom evaluates to its value, and a symbol to what it stands for. A special form does what its
keyword says. Any other list has its parts evaluated from left to right; if the first value can be
applied, it is applied to the others, and if not, the values form a list.

A program may run forever, so an evaluator is defined for each *depth*: the number of evaluations
that may be nested. An evaluator of greater depth gives the same answers and possibly more.

## Main definitions

* `Evaluator`: a way to evaluate expressions and to apply procedures
* `Evaluator.deeper`: an evaluator one level deeper than a given one
* `Evaluator.upTo n`: the evaluator of depth `n`
* `evaluate n e f`, `apply n head args f`: evaluation and application at depth `n`
-/

namespace MiniLisp

/-- Makes the frame in which the body of a closure is evaluated: inside the frame in which the
closure was made, with the parameters bound to the arguments. -/
def Eval.enterClosure (formals : List String) (body : Expr) (scope : FrameId)
    (args : List Value) : Eval FrameId :=
  if args.length = formals.length then Eval.enter (.ofNames (formals.zip args)) (some scope)
  else Eval.raise (.closureArity formals body args.length)

/-- A way to evaluate expressions and to apply procedures, in a given frame. -/
structure Evaluator where
  evaluate : Expr → FrameId → Eval Value
  apply : Value → List Value → FrameId → Eval Value

namespace Evaluator

/-- The evaluator that gives up at once. -/
def bottom : Evaluator := ⟨fun _ _ => Eval.exhausted, fun _ _ _ => Eval.exhausted⟩

variable (r : Evaluator)

/-- Evaluates expressions in the frame `f` from left to right. -/
def evaluateAll (f : FrameId) : List Expr → Eval (List Value)
  | [] => pure []
  | e :: es => do
    let v ← r.evaluate e f
    let vs ← evaluateAll f es
    pure (v :: vs)

/-- Applies a value to arguments: the body of a closure is evaluated in a frame of its own, which
stands inside the one in which the closure was made and not the one in which it is called. -/
def applyWith (head : Value) (args : List Value) (f : FrameId) : Eval Value :=
  match head with
  | .closure formals body scope => do
    let g ← Eval.enterClosure formals body scope args
    Eval.emit (.applying formals body args)
    r.evaluate body g
  | .procedure p => p.invoke r.evaluate r.apply args f
  | v => Eval.raise (.notApplicable v)

/-- The value of a list whose first expression has the value `head` and whose others have the
values `args`: that of an application, if `head` can be applied, and a list otherwise. -/
def applyOrList (head : Value) (args : List Value) (f : FrameId) : Eval Value :=
  if head.isApplicable then r.applyWith head args f else pure (.list (head :: args))

/-- The keyword that an expression is. -/
def keyword? (e : Expr) : Option Keyword := e.symbol?.bind Keyword.ofName?

/-- An expression is a keyword if it is the symbol of that name. -/
theorem keyword?_eq_some_iff {e : Expr} {k : Keyword} :
    keyword? e = some k ↔ e = .symbol k.name := by
  constructor
  · intro h
    obtain ⟨s, hs, hk⟩ := Option.bind_eq_some_iff.mp h
    rw [Keyword.ofName?_eq_some_iff] at hk
    subst hk
    unfold Expr.symbol? at hs
    split at hs
    · cases hs; rfl
    · cases hs
  · rintro rfl
    exact Keyword.ofName?_eq_some_iff.mpr rfl

/-- Evaluates an expression, with `r` for its parts. -/
def evaluateWith (e : Expr) (f : FrameId) : Eval Value :=
  match e with
  | .atom (.symbol n) => Eval.lookup f (.name n)
  | .atom a => pure a.value
  | .list [] => pure (.list [])
  | .list (head :: operands) =>
    match keyword? head with
    | some k => do
      Eval.emit (.specialForm k)
      k.run r.evaluate f operands
    | none => do
      let v ← r.evaluate head f
      let vs ← r.evaluateAll f operands
      r.applyOrList v vs f
  | .embedded v => Eval.raise (.notExpression v)

/-- A list that begins with a keyword is a special form. -/
theorem evaluateWith_keyword (k : Keyword) (operands : List Expr) (f : FrameId) :
    r.evaluateWith (.list (.symbol k.name :: operands)) f = (do
      Eval.emit (.specialForm k)
      k.run r.evaluate f operands) := by
  cases k <;> rfl

/-- A list that begins with anything else has its parts evaluated from left to right. -/
theorem evaluateWith_list {head : Expr} (h : keyword? head = none) (operands : List Expr)
    (f : FrameId) :
    r.evaluateWith (.list (head :: operands)) f = (do
      let v ← r.evaluate head f
      let vs ← r.evaluateAll f operands
      r.applyOrList v vs f) := by
  rw [evaluateWith, h]

/-- An evaluator that goes one level deeper than `r`. -/
def deeper : Evaluator := ⟨r.evaluateWith, r.applyWith⟩

/-- The evaluator that gives up on evaluations nested more than `n` deep. -/
def upTo : Nat → Evaluator
  | 0 => bottom
  | n + 1 => (upTo n).deeper

end Evaluator

/-- Evaluates an expression in the frame `f`, at depth `n`. -/
def evaluate (n : Nat) (e : Expr) (f : FrameId) : Eval Value := (Evaluator.upTo n).evaluate e f

/-- Applies a value to arguments in the frame `f`, at depth `n`. -/
def apply (n : Nat) (head : Value) (args : List Value) (f : FrameId) : Eval Value :=
  (Evaluator.upTo n).apply head args f

/-- Reads the first expression of a text and evaluates it in the frame `f`, at depth `n`. -/
def interpret (n : Nat) (s : String) (f : FrameId) : Eval Value := do
  let e ← Eval.parse s
  evaluate n e f

end MiniLisp
