import MiniLisp.Eval.Monad
import MiniLisp.Reading.Expr

/-!
# Procedures that are not written in the language

What the built-in procedures do, and the procedures that a host program offers. The former see
only their arguments; the latter also the frame in which they are called.

How expressions are evaluated and procedures applied is left open here: it is given as the
arguments `ev` and `ap`.

## Main definitions

* `Builtin.invoke`, `HostProcedure.invoke`, `Procedure.invoke`: calls
* `builtinBindings`: the bindings that every session begins with
* `Eval.parse`: reading an expression, which is logged
-/

namespace MiniLisp

/-- The only argument of a built-in procedure. -/
def Builtin.argument (b : Builtin) : List Value → Except Error Value
  | [v] => .ok v
  | args => .error (.builtinArity b args.length)

/-- The elements of the only argument of a built-in procedure for lists. -/
def Builtin.listArgument (b : Builtin) (args : List Value) : Except Error (List Value) :=
  match b.argument args with
  | .ok (.list vs) => .ok vs
  | .ok v => .error (.listExpected b v)
  | .error e => .error e

/-- Calls a built-in procedure. -/
def Builtin.invoke (b : Builtin) (args : List Value) : Eval Value :=
  match b with
  | .print => do
    let v ← Eval.ofExcept (b.argument args)
    Eval.print v
    pure v
  | .first => do
    let vs ← Eval.ofExcept (b.listArgument args)
    pure (vs.head?.getD .undefined)
  | .rest => do
    let vs ← Eval.ofExcept (b.listArgument args)
    pure (.list vs.tail)

/-- The bindings that every session begins with. -/
def builtinBindings : Bindings :=
  [(.name "print", .procedure (.builtin .print)), (.name "first", .procedure (.builtin .first)),
    (.name "rest", .procedure (.builtin .rest))]

/-- Reads the first expression of a text, and logs it. -/
def Eval.parse (s : String) : Eval Expr := do
  let e ← Eval.ofExcept ((MiniLisp.parse s).mapError .read)
  Eval.emit (.parsed e)
  pure e

/-- The integer that a value is; anything else counts as nothing. -/
def Value.intOrZero : Value → Int
  | .number (.int i) => i
  | _ => 0

section

variable (ev : Expr → FrameId → Eval Value) (ap : Value → List Value → FrameId → Eval Value)

/-- Calls a host procedure in the frame `f`. -/
def HostProcedure.invoke (h : HostProcedure) (args : List Value) (f : FrameId) : Eval Value :=
  match h, args with
  | .sum, args => pure (.number (.int (args.foldl (fun n v => n + v.intOrZero) 0)))
  | .list, args => pure (.list args)
  | .frameText, _ => Value.str <$> Eval.textOfStore fun s => s.frameText? f
  | .chainText, _ => Value.str <$> Eval.textOfStore fun s => s.chainText? f
  | .get, k :: _ => Eval.lookup f (.ofValue k)
  | .set, k :: v :: _ => do
    Eval.define f (.ofValue k) v
    pure v
  | .call, head :: .list args :: _ => ap head args f
  | .readEval, .str s :: _ => do
    let e ← Eval.parse s
    ev e f
  | h, _ => Eval.raise (.hostArguments h)

/-- Calls a procedure in the frame `f`. -/
def Procedure.invoke (p : Procedure) (args : List Value) (f : FrameId) : Eval Value :=
  match p with
  | .builtin b => b.invoke args
  | .host h => h.invoke ev ap args f

end

end MiniLisp
