import MiniLisp.Reading.Error
import MiniLisp.Term.Text

/-!
# Failures of evaluation

What can go wrong when a program is read and run: the text cannot be read, a special form is
malformed, a procedure is given too many or too few arguments or arguments of the wrong type.

The failure is put into words when it is raised. If an expression or a value that the words have to
show cannot be written, that is the failure instead.

## Main definitions

* `Error`: why an evaluation failed
* `Error.kind`, `Error.position`, `Error.message`: its kind, the offset to which it is put down,
  and the failure in words
* `Error.isWritable`, `Error.raised`: the failure can be put into words, and what is raised if not
-/

namespace MiniLisp

/-- Why an evaluation failed. -/
inductive Error where
  /-- A text could not be read. -/
  | read (e : ReadError)
  /-- `lambda` without exactly two operands. -/
  | lambdaOperands
  | lambdaParameters (e : Expr)
  | lambdaParameter (e : Expr)
  /-- `let` without exactly two operands. -/
  | letOperands
  | letBindings (e : Expr)
  | letBinding (e : Expr)
  /-- `if` with less than two operands. -/
  | ifOperandsMissing
  /-- `if` with more than three operands. -/
  | ifOperandsExtra
  /-- A closure was applied to the wrong number of arguments. -/
  | closureArity (formals : List String) (body : Expr) (given : Nat)
  /-- A built-in procedure was applied to the wrong number of arguments. -/
  | builtinArity (b : Builtin) (given : Nat)
  /-- A built-in procedure for lists was applied to something else. -/
  | listExpected (b : Builtin) (v : Value)
  /-- Something that is no procedure was applied. -/
  | notApplicable (v : Value)
  /-- A value stands where an expression is expected. -/
  | notExpression (v : Value)
  /-- A value that is no string was to be bound. -/
  | notName (v : Value)
  /-- A host procedure was given arguments that it does not take. -/
  | hostArguments (h : HostProcedure)
  /-- A list was looked up in the place of a name. -/
  | unhashable
  /-- An integer of too many digits was to be written. -/
  | unwritable

/-- The kinds of failures. -/
inductive ErrorKind where
  /-- Text that cannot be cut into tokens. -/
  | lexical
  /-- Tokens that spell no expression, and malformed special forms. -/
  | form
  | arity
  | type
  /-- Integers of too many digits. -/
  | size
  /-- Misuse of a host procedure or of a frame. -/
  | host
deriving DecidableEq

/-- The name by which a built-in procedure is called. -/
def Builtin.name : Builtin → String
  | .print => "print"
  | .first => "first"
  | .rest => "rest"

/-- The kind of a failure to read. -/
def ReadError.kind : ReadError → ErrorKind
  | .unterminatedString _ => .lexical
  | .oversizedInteger => .size
  | _ => .form

namespace Error

/-- The kind of a failure. -/
def kind : Error → ErrorKind
  | read e => e.kind
  | lambdaParameters _ | lambdaParameter _ | letBindings _ | letBinding _ => .form
  | lambdaOperands | letOperands | ifOperandsMissing | ifOperandsExtra => .arity
  | closureArity _ _ _ | builtinArity _ _ => .arity
  | listExpected _ _ | notApplicable _ | notExpression _ | notName _ => .type
  | hostArguments _ | unhashable => .host
  | unwritable => .size

/-- The offset to which a failure is put down; only a failure to read has one. -/
def position : Error → Option Int
  | read e => e.position
  | _ => none

/-- The failure in words. -/
def message : Error → String
  | read e => e.message
  | lambdaOperands => "lambda requires a parameter list and a single body"
  | lambdaParameters e => "lambda parameters must be a list, got " ++ e.text
  | lambdaParameter e => "lambda parameter must be a symbol, got " ++ e.text
  | letOperands => "let requires a binding list and a single body"
  | letBindings e => "let bindings must be a list, got " ++ e.text
  | letBinding e => "let binding must be (name value), got " ++ e.text
  | ifOperandsMissing => "if requires a condition and a then-expression"
  | ifOperandsExtra => "if takes at most a condition, a then- and an else-expression"
  | closureArity formals body given =>
    closureText formals body.text ++ " expects " ++ natText formals.length ++
      " argument(s), got " ++ natText given
  | builtinArity b given => b.name ++ " requires exactly 1 argument, got " ++ natText given
  | listExpected b v => b.name ++ " requires a list, got " ++ v.display false
  | notApplicable v => "Cannot apply non-procedure " ++ v.inspect
  | notExpression v => "Not a syntax node: " ++ v.inspect
  | notName v => "Cannot define " ++ v.inspect ++ " as a symbol"
  | hostArguments h => "Unsuitable arguments for " ++ (Procedure.host h).name
  | unhashable => "A list cannot be looked up"
  | unwritable => "Too many digits in an integer"

/-- The failure can be put into words. -/
def isWritable : Error → Bool
  | lambdaParameters e | lambdaParameter e | letBindings e | letBinding e => e.isWritable
  | closureArity _ body _ => body.isWritable
  | listExpected _ v | notApplicable v | notExpression v | notName v => v.isWritable
  | _ => true

/-- The failure that comes of raising this one, as it has to be put into words. -/
def raised (e : Error) : Error := if e.isWritable then e else .unwritable

theorem raised_of_isWritable {e : Error} (h : e.isWritable = true) : e.raised = e := if_pos h

end Error

end MiniLisp
