import MiniLisp.Eval.Error
import MiniLisp.Eval.Event
import MiniLisp.Scope.Store

/-!
# Computations

Evaluation reads and writes a world: the store of frames, the text printed so far and the log. A
computation ends with a result or an error and in either case leaves a world behind, for nothing
is undone when it fails; or it does not end within the depth that it was given.

## Main definitions

* `World`: what evaluation reads and writes
* `World.log`, `World.print`, `World.enter`, `World.bind`: what effects make of a world
* `Eval α`: a computation with result `α`
* `Eval.raise`, `Eval.emit`, `Eval.print`, `Eval.lookup`, `Eval.define`, `Eval.enter`: the effects
-/

namespace MiniLisp

/-- What evaluation reads and writes. -/
structure World where
  store : Store
  /-- Whether printed text goes to the output; it is logged anyway. -/
  echo : Bool
  /-- The text printed so far. -/
  output : String
  /-- The log so far. -/
  events : Array Event

namespace World

/-- The world with one more entry in the log. -/
def log (w : World) (e : Event) : World := { w with events := w.events.push e }

/-- The world after a value was printed: it is in the log, and if there is an echo, its text stands
on a line of the output. -/
def print (w : World) (v : Value) : World :=
  { w.log (.printed v) with
    output := if w.echo then w.output ++ v.display false ++ "\n" else w.output }

/-- The world with one more frame. -/
def enter (w : World) (b : Bindings) (outer : Option FrameId) : World :=
  { w with store := w.store.push b outer }

/-- The world with a name bound in a frame. -/
def bind (w : World) (f : FrameId) (n : String) (v : Value) : World :=
  { w with store := w.store.bind f n v }

end World

/-- A computation: from a world to a result or an error and the world after it, or to nothing if
it does not end within its depth. -/
def Eval (α : Type) : Type := World → Option (Except Error α × World)

namespace Eval

variable {α β : Type}

/-- The computation that ends at once. -/
protected def pure (a : α) : Eval α := fun w => some (.ok a, w)

/-- One computation after the other. The second does not take place if the first fails. -/
protected def bind (m : Eval α) (k : α → Eval β) : Eval β := fun w =>
  match m w with
  | some (.ok a, w') => k a w'
  | some (.error e, w') => some (.error e, w')
  | none => none

instance : Monad Eval where
  pure := Eval.pure
  bind := Eval.bind

@[simp] theorem pure_apply (a : α) (w : World) : (pure a : Eval α) w = some (.ok a, w) := rfl

theorem bind_apply (m : Eval α) (k : α → Eval β) (w : World) :
    (m >>= k) w =
      match m w with
      | some (.ok a, w') => k a w'
      | some (.error e, w') => some (.error e, w')
      | none => none := rfl

instance : LawfulMonad Eval := LawfulMonad.mk' Eval
  (fun m => by
    funext w
    show Eval.bind m (fun a => Eval.pure (id a)) w = m w
    simp only [Eval.bind, Eval.pure, id]
    cases m w with
    | none => rfl
    | some r => obtain ⟨_ | _, _⟩ := r <;> rfl)
  (fun a k => rfl)
  (fun m k l => by
    funext w
    show Eval.bind (Eval.bind m k) l w = Eval.bind m (fun a => Eval.bind (k a) l) w
    simp only [Eval.bind]
    cases m w with
    | none => rfl
    | some r => obtain ⟨_ | _, _⟩ := r <;> rfl)

/-- The computation that does not end within its depth. -/
def exhausted : Eval α := fun _ => none

/-- The computation that fails. The failure is put into words, which may fail itself. -/
def raise (e : Error) : Eval α := fun w => some (.error e.raised, w)

@[simp] theorem raise_apply (e : Error) (w : World) :
    (raise e : Eval α) w = some (.error e.raised, w) := rfl

/-- The outcome of a computation without effects. -/
def ofExcept : Except Error α → Eval α
  | .ok a => pure a
  | .error e => raise e

theorem ofExcept_apply (r : Except Error α) (w : World) :
    ofExcept r w = some (r.mapError Error.raised, w) := by
  cases r <;> rfl

/-- Something computed from the store. -/
def ofStore (f : Store → α) : Eval α := fun w => some (.ok (f w.store), w)

/-- A text computed from the store, if it can be written. -/
def textOfStore (f : Store → Option String) : Eval String := do
  match ← ofStore f with
  | some s => pure s
  | none => raise .unwritable

/-- Adds an entry to the log. -/
def emit (e : Event) : Eval Unit := fun w => some (.ok (), w.log e)

/-- Prints a value on a line of its own, if it can be written. -/
def print (v : Value) : Eval Unit :=
  if v.isWritable then fun w => some (.ok (), w.print v) else raise .unwritable

theorem print_of_isWritable {v : Value} (h : v.isWritable = true) :
    print v = fun w => some (.ok (), w.print v) := if_pos h

theorem print_of_not_isWritable {v : Value} (h : v.isWritable = false) :
    print v = raise .unwritable := if_neg (Bool.eq_false_iff.mp h)

/-- The frame in which a key is found from a frame outwards. -/
def find (f : FrameId) (k : Key) : Eval (Option FrameId) :=
  if k.isHashable then ofStore fun s => s.find? f k else raise .unhashable

/-- The value of a key in a frame. -/
def lookup (f : FrameId) (k : Key) : Eval Value :=
  if k.isHashable then ofStore fun s => s.lookup f k else raise .unhashable

/-- Binds a key in a frame, which only a name can be. -/
def define (f : FrameId) (k : Key) (v : Value) : Eval Unit :=
  match k with
  | .name n => fun w => some (.ok (), w.bind f n v)
  | .other u => raise (.notName u)

/-- Binds keys in a frame, in order, up to the first that is no name. -/
def defineAll (f : FrameId) : List (Key × Value) → Eval Unit
  | [] => pure ()
  | (k, v) :: entries => do
    define f k v
    defineAll f entries

/-- Makes a frame. -/
def enter (b : Bindings) (outer : Option FrameId) : Eval FrameId := fun w =>
  some (.ok w.store.nextId, w.enter b outer)

end Eval

end MiniLisp
