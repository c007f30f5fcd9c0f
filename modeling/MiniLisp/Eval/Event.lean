import MiniLisp.Term.Text

/-!
# The log

An evaluation leaves a log of what it did. An entry holds the expressions and values that it is
about; the words for it are found when the log is read.

## Main definitions

* `Keyword`: the heads of the special forms
* `Event`: an entry of the log
* `Event.topic`, `Event.message`: what part of the work an entry is about, and the entry in words
-/

namespace MiniLisp

/-- The symbols that make a list a special form when they stand at its head. -/
inductive Keyword where
  | lambda
  | letIn
  | ifElse
deriving DecidableEq

namespace Keyword

/-- The keyword as a symbol. -/
def name : Keyword → String
  | lambda => "lambda"
  | letIn => "let"
  | ifElse => "if"

/-- The keyword of the given name. -/
def ofName? (s : String) : Option Keyword :=
  if s = "lambda" then some lambda
  else if s = "let" then some letIn
  else if s = "if" then some ifElse
  else none

/-- A keyword is found by its name, and by no other. -/
theorem ofName?_eq_some_iff {s : String} {k : Keyword} : ofName? s = some k ↔ s = k.name := by
  constructor
  · intro h
    simp only [ofName?] at h
    split at h
    · next hs => cases h; exact hs
    split at h
    · next hs => cases h; exact hs
    split at h
    · next hs => cases h; exact hs
    · cases h
  · rintro rfl
    cases k <;> rfl

end Keyword

/-- The parts of the work that are logged. -/
inductive Topic where
  | reading
  | session
  | evaluation
  | application
  | builtin
deriving DecidableEq

/-- An entry of the log. -/
inductive Event where
  /-- An expression was read from a text. -/
  | parsed (e : Expr)
  /-- The evaluation of an expression of a session begins. -/
  | evaluating (e : Expr)
  /-- A special form is evaluated. -/
  | specialForm (k : Keyword)
  /-- A closure with the given parameters and body is applied to arguments. -/
  | applying (formals : List String) (body : Expr) (args : List Value)
  /-- A value is printed. -/
  | printed (v : Value)

namespace Event

/-- What part of the work an entry is about. -/
def topic : Event → Topic
  | parsed _ => .reading
  | evaluating _ => .session
  | specialForm _ => .evaluation
  | applying _ _ _ => .application
  | printed _ => .builtin

/-- The entry in words. An entry about something that cannot be written stays without; what was
printed had been written before. -/
def message : Event → Option String
  | parsed e => e.text?.map ("parsed " ++ ·)
  | evaluating e => e.text?.map ("evaluating " ++ ·)
  | specialForm k => some ("special form " ++ k.name)
  | applying formals body args => do
    let shown ← body.text?
    let given ← (Value.list args).inspect?
    some ("applying " ++ closureText formals shown ++ " to " ++ given)
  | printed v => some ("print " ++ v.display false)

end Event

end MiniLisp
