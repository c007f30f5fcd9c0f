import MiniLisp.Eval.Basic

/-!
# Sessions

A session keeps one frame from request to request, so what one request binds is seen by the next.
A program text is a sequence of expressions; they are read as they are needed, so the ones before
a failure to read are evaluated.

## Main definitions

* `World.fresh`: the world in which nothing has happened
* `Eval.globalFrame`: a frame with the built-in procedures
* `run`: evaluates all the expressions of a text
* `openSession`: the frame of a session, with initial bindings
* `Request`, `Reply`, `serve`: what can be asked of a session, and the answers
-/

namespace MiniLisp

/-- The world in which nothing has happened. -/
def World.fresh (echo : Bool) : World := ⟨.empty, echo, "", #[]⟩

/-- Makes a frame with the built-in procedures and nothing outside. -/
def Eval.globalFrame : Eval FrameId := Eval.enter builtinBindings none

/-- Evaluates expressions in order in the frame `f`, at depth `n`, and logs each; the result is
the last value, or `v` if there is none. -/
def runAll (n : Nat) (f : FrameId) (v : Value) : List Expr → Eval Value
  | [] => pure v
  | e :: es => do
    Eval.emit (.evaluating e)
    let v ← evaluate n e f
    runAll n f v es

/-- Evaluates all the expressions of a text in the frame `f`, at depth `n`. A failure to read
comes after the evaluation of the expressions before it. -/
def run (n : Nat) (s : String) (f : FrameId) : Eval Value := do
  let (es, failure) := parseAll s
  let v ← runAll n f .undefined es
  match failure with
  | none => pure v
  | some e => Eval.raise (.read e)

/-- Makes the frame of a session: the built-in procedures and the given bindings. -/
def openSession (b : Bindings) : Eval FrameId := do
  let f ← Eval.globalFrame
  Eval.defineAll f b
  pure f

/-- What can be asked of a session. -/
inductive Request where
  /-- Evaluate all the expressions of a text. -/
  | eval (code : String)
  /-- Evaluate the first expression of a text. -/
  | interpret (code : String)
  | define (k : Key) (v : Value)
  /-- Bind a key to the value of a text. -/
  | bind (k : Key) (code : String)
  | lookup (k : Key)
  /-- List the bindings. -/
  | listing

/-- The answer to a request. -/
inductive Reply where
  | value (v : Value)
  | done
  /-- The bindings of the frame of the session, and those of the chain that begins with it. -/
  | listing (frame chain : String)

/-- Answers a request to the session of frame `f`, at depth `n`. -/
def serve (n : Nat) (f : FrameId) : Request → Eval Reply
  | .eval code => do
    let v ← run n code f
    pure (.value v)
  | .interpret code => do
    let v ← interpret n code f
    pure (.value v)
  | .define k v => do
    Eval.define f k v
    pure .done
  | .bind k code => do
    let v ← run n code f
    Eval.define f k v
    pure .done
  | .lookup k => do
    let v ← Eval.lookup f k
    pure (.value v)
  | .listing => do
    let frame ← Eval.textOfStore fun s => s.frameText? f
    let chain ← Eval.textOfStore fun s => s.chainText? f
    pure (.listing frame chain)

end MiniLisp
