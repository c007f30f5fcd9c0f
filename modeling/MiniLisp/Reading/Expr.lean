import MiniLisp.Reading.Stream
import MiniLisp.Reading.Word

/-!
# Reading expressions

Expressions are read off a token stream one token at a time. Between two tokens all that matters
is the lists that are open, each with the expressions read into it so far.

## Main definitions

* `OpenList`: a list that has been opened and not closed
* `step t opened`: what the token `t` does to the open lists
* `Stream.readExpr`: the next expression of a stream
* `Stream.readAll`: all the expressions of a stream, and the failure that cut them short
* `parse s`, `parseAll s`: the first expression of a text, and all of them

## Main results

* `Stream.size_readExpr_lt`: an expression takes at least one token
-/

namespace MiniLisp

/-- A list that has been opened and not closed: where, and the expressions in it so far, the
latest first. -/
structure OpenList where
  pos : Int
  items : List Expr

/-- What a token does to the reading of an expression. -/
inductive Step where
  /-- Reading fails and the token is not taken. -/
  | refuse (e : ReadError)
  /-- The token is taken and reading fails. -/
  | fail (e : ReadError)
  /-- The token is taken and the expression is complete. -/
  | complete (e : Expr)
  /-- The token is taken and these lists are open. -/
  | proceed (opened : List OpenList)

/-- An expression is complete: it goes into the innermost open list, if there is one. -/
def supply (e : Expr) : List OpenList → Step
  | [] => .complete e
  | l :: opened => .proceed (⟨l.pos, e :: l.items⟩ :: opened)

/-- What a token does when the given lists are open, the innermost first. -/
def step (t : Token) (opened : List OpenList) : Step :=
  match t.kind with
  | .word =>
    match Atom.ofWord t.value with
    | .ok a => supply (.atom a) opened
    | .error e => .fail e
  | .str => supply (.atom (.str t.value)) opened
  | .opening => .proceed (⟨t.pos, []⟩ :: opened)
  | .closing =>
    match opened with
    | [] => .refuse (.unmatchedClosing t.pos)
    | l :: opened => supply (.list l.items.reverse) opened
  | .other kind => .refuse (.unknownToken kind t.value t.pos)

/-- What the end of the tokens means: nothing is left to read, unless a list is open. -/
def atEnd : List OpenList → Except ReadError (Option Expr)
  | [] => .ok none
  | l :: _ => .error (.unterminatedList l.pos)

namespace Stream

/-- Reads on until an expression is complete, with the given lists open. -/
def readFrom (opened : List OpenList) (s : Stream) :
    Except ReadError (Option Expr) × Stream :=
  match _ : s.peek with
  | (.error e, s') => (.error e, s')
  | (.ok none, s') => (atEnd opened, s')
  | (.ok (some t), s') =>
    match step t opened with
    | .refuse e => (.error e, s')
    | .fail e => (.error e, s'.advance.2)
    | .complete e => (.ok (some e), s'.advance.2)
    | .proceed opened' => readFrom opened' s'.advance.2
termination_by s.size
decreasing_by exact size_advance_peek_lt ‹_›

/-- The next expression of a stream; there is none at the end. -/
def readExpr (s : Stream) : Except ReadError (Option Expr) × Stream := s.readFrom []

theorem size_readFrom_lt {opened : List OpenList} {s s' : Stream} {e : Expr}
    (h : s.readFrom opened = (.ok (some e), s')) : s'.size < s.size := by
  fun_induction readFrom opened s with
  | case1 => simp at h
  | case2 opened =>
    cases opened <;> simp [atEnd] at h
  | case3 => simp at h
  | case4 => simp at h
  | case5 _ _ _ _ hp =>
    simp only [Prod.mk.injEq] at h
    obtain ⟨-, rfl⟩ := h
    exact size_advance_peek_lt hp
  | case6 _ _ _ _ hp _ _ ih => exact Nat.lt_trans (ih h) (size_advance_peek_lt hp)

/-- An expression takes at least one token. -/
theorem size_readExpr_lt {s s' : Stream} {e : Expr}
    (h : s.readExpr = (.ok (some e), s')) : s'.size < s.size :=
  size_readFrom_lt h

/-- All the expressions of a stream, the failure that cut them short, if there is one, and the
stream after them. -/
def readAll (s : Stream) : List Expr × Option ReadError × Stream :=
  match _ : s.readExpr with
  | (.error e, s') => ([], some e, s')
  | (.ok none, s') => ([], none, s')
  | (.ok (some e), s') =>
    let r := readAll s'
    (e :: r.1, r.2)
termination_by s.size
decreasing_by exact size_readExpr_lt ‹_›

end Stream

/-- The first expression of a text. What comes after it is not looked at. -/
def parse (s : String) : Except ReadError Expr :=
  match (Stream.ofText s).readExpr.1 with
  | .ok (some e) => .ok e
  | .ok none => .error (.emptyInput s.length)
  | .error e => .error e

/-- All the expressions of a text, and the failure that cut them short, if there is one. -/
def parseAll (s : String) : List Expr × Option ReadError :=
  let r := (Stream.ofText s).readAll
  (r.1, r.2.1)

end MiniLisp
