import MiniLisp.Session.Basic

/-!
# Output and log

A computation adds to the output and to the log, and looks at neither, nor at the switch for the
echo. So all that it does is told by its run in a world where nothing has been printed or logged
yet: what it leaves behind there comes after what was there before.

## Main definitions

* `World.lines`: the text of what was printed, according to the log
* `World.silent s`: the world with the store `s` in which nothing has been printed or logged
* `World.after w w'`: the world `w'`, with its traces after those of `w`
* `Eval.WriteOnly m`: the computation `m` looks neither at the output nor at the log

## Main results

* `Eval.WriteOnly.bind`: one such computation after the other
* `evaluate_writeOnly`, `openSession_writeOnly`, `serve_writeOnly`: evaluations and sessions
-/

namespace MiniLisp

/-- What an entry of the log puts on the output, if there is an echo. -/
def Event.line : Event → String
  | printed v => v.display false ++ "\n"
  | _ => ""

namespace World

/-- The text of what was printed, according to the log. -/
def lines (w : World) : String := String.join (w.events.toList.map Event.line)

/-- The world with the store `s` in which nothing has been printed or logged. -/
def silent (s : Store) : World := ⟨s, false, "", #[]⟩

/-- The world `w'`, with what was printed and logged in it after what was in `w`. -/
def after (w w' : World) : World where
  store := w'.store
  echo := w.echo
  output := if w.echo then w.output ++ w'.lines else w.output
  events := w.events ++ w'.events

theorem lines_after (w w' : World) : (w.after w').lines = w.lines ++ w'.lines := by
  simp [lines, after, String.join_append]

/-- Traces are added one after the other. -/
theorem after_after (w w₁ w₂ : World) : (w.after w₁).after w₂ = w.after (w₁.after w₂) := by
  have hlines := lines_after w₁ w₂
  unfold after at hlines ⊢
  rw [hlines, Array.append_assoc]
  split <;> simp [String.append_assoc]

end World

namespace Eval

variable {α β : Type}

/-- The computation looks neither at what was printed and logged before nor at the switch: it does
what it does where nothing was, and its traces come after those that are there. -/
def WriteOnly (m : Eval α) : Prop :=
  ∀ w, m w = (m (.silent w.store)).map fun r => (r.1, w.after r.2)

theorem writeOnly_exhausted : WriteOnly (exhausted : Eval α) := fun _ => rfl

/-- A computation that leaves no traces is write-only. -/
theorem writeOnly_of_store {m : Eval α} (g : Store → Except Error α × Store)
    (h : ∀ w, m w = some ((g w.store).1, { w with store := (g w.store).2 })) : WriteOnly m := by
  intro w
  rw [h, h]
  simp [World.after, World.silent, World.lines]

theorem writeOnly_pure (a : α) : WriteOnly (pure a) :=
  writeOnly_of_store (fun s => (.ok a, s)) fun _ => rfl

theorem writeOnly_raise (e : Error) : WriteOnly (raise e : Eval α) :=
  writeOnly_of_store (fun s => (.error e.raised, s)) (raise_apply e)

theorem writeOnly_ofExcept (r : Except Error α) : WriteOnly (ofExcept r) :=
  writeOnly_of_store (fun s => (r.mapError Error.raised, s)) (ofExcept_apply r)

theorem writeOnly_ofStore (g : Store → α) : WriteOnly (ofStore g) :=
  writeOnly_of_store (fun s => (.ok (g s), s)) fun _ => rfl

theorem writeOnly_lookup (f : FrameId) (k : Key) : WriteOnly (lookup f k) := by
  unfold lookup
  split
  · exact writeOnly_ofStore _
  · exact writeOnly_raise _

theorem writeOnly_define (f : FrameId) (k : Key) (v : Value) : WriteOnly (define f k v) := by
  cases k with
  | name n => exact writeOnly_of_store (fun s => (.ok (), s.bind f n v)) fun _ => rfl
  | other u => exact writeOnly_raise _

theorem writeOnly_enter (b : Bindings) (o : Option FrameId) : WriteOnly (enter b o) :=
  writeOnly_of_store (fun s => (.ok s.nextId, s.push b o)) fun _ => rfl

theorem writeOnly_emit {e : Event} (he : e.line = "") : WriteOnly (emit e) := by
  intro w
  simp [emit, World.log, World.after, World.silent, World.lines, he]

theorem writeOnly_print (v : Value) : WriteOnly (print v) := by
  cases hv : v.isWritable with
  | true =>
    intro w
    simp [print_of_isWritable hv, World.print, World.log, World.after, World.silent, World.lines,
      Event.line, String.append_assoc]
  | false =>
    rw [print_of_not_isWritable hv]
    exact writeOnly_raise _

theorem WriteOnly.bind {m : Eval α} {k : α → Eval β} (hm : WriteOnly m)
    (hk : ∀ a, WriteOnly (k a)) : WriteOnly (m >>= k) := by
  intro w
  rw [bind_apply, bind_apply, hm w]
  rcases m (.silent w.store) with _ | ⟨_ | a, w₁⟩
  · rfl
  · rfl
  · simp only [Option.map_some]
    rw [hk a (w.after w₁), hk a w₁, Option.map_map]
    simp only [Function.comp_def, World.after_after]
    rfl

theorem writeOnly_textOfStore (g : Store → Option String) : WriteOnly (textOfStore g) := by
  refine (writeOnly_ofStore g).bind fun t => ?_
  cases t with
  | some s => exact writeOnly_pure s
  | none => exact writeOnly_raise _

theorem writeOnly_parse (s : String) : WriteOnly (Eval.parse s) :=
  (writeOnly_ofExcept _).bind fun _ => (writeOnly_emit rfl).bind fun _ => writeOnly_pure _

end Eval

open Eval

/-! ## Procedures and special forms -/

theorem Builtin.invoke_writeOnly (b : Builtin) (args : List Value) : (b.invoke args).WriteOnly := by
  cases b with
  | print =>
    exact (writeOnly_ofExcept _).bind fun v => (writeOnly_print v).bind fun _ => writeOnly_pure _
  | first => exact (writeOnly_ofExcept _).bind fun _ => writeOnly_pure _
  | rest => exact (writeOnly_ofExcept _).bind fun _ => writeOnly_pure _

section Forms

variable {ev : Expr → FrameId → Eval Value} (hev : ∀ e f, (ev e f).WriteOnly)
include hev

theorem evalBindings_writeOnly (f : FrameId) (bs : List Expr) :
    (evalBindings ev f bs).WriteOnly := by
  induction bs with
  | nil => exact writeOnly_pure _
  | cons b bs ih =>
    simp only [evalBindings]
    split
    · exact (hev _ _).bind fun _ => ih.bind fun _ => writeOnly_pure _
    · exact writeOnly_raise _

theorem letForm_writeOnly (f : FrameId) (operands : List Expr) :
    (letForm ev f operands).WriteOnly := by
  unfold letForm
  split
  · exact (evalBindings_writeOnly hev f _).bind fun _ => (writeOnly_enter _ _).bind fun _ => hev _ _
  · exact writeOnly_raise _
  · exact writeOnly_raise _

theorem ifForm_writeOnly (f : FrameId) (operands : List Expr) :
    (ifForm ev f operands).WriteOnly := by
  unfold ifForm
  split
  · refine (hev _ _).bind fun c => ?_
    split
    · exact hev _ _
    · exact writeOnly_pure _
  · refine (hev _ _).bind fun c => ?_
    split <;> exact hev _ _
  · exact writeOnly_raise _
  · exact writeOnly_raise _

theorem Keyword.run_writeOnly (k : Keyword) (f : FrameId) (operands : List Expr) :
    (k.run ev f operands).WriteOnly := by
  cases k with
  | lambda => exact writeOnly_ofExcept _
  | letIn => exact letForm_writeOnly hev f operands
  | ifElse => exact ifForm_writeOnly hev f operands

theorem Procedure.invoke_writeOnly {ap : Value → List Value → FrameId → Eval Value}
    (hap : ∀ v args f, (ap v args f).WriteOnly) (p : Procedure) (args : List Value)
    (f : FrameId) : (p.invoke ev ap args f).WriteOnly := by
  cases p with
  | builtin b => exact b.invoke_writeOnly args
  | host h =>
    simp only [Procedure.invoke]
    unfold HostProcedure.invoke
    split
    · exact writeOnly_pure _
    · exact writeOnly_pure _
    · exact (writeOnly_textOfStore _).bind fun _ => writeOnly_pure _
    · exact (writeOnly_textOfStore _).bind fun _ => writeOnly_pure _
    · exact writeOnly_lookup _ _
    · exact (writeOnly_define _ _ _).bind fun _ => writeOnly_pure _
    · exact hap _ _ _
    · exact (writeOnly_parse _).bind fun _ => hev _ _
    · exact writeOnly_raise _

end Forms

/-! ## Evaluation -/

namespace Evaluator

/-- All that the evaluator does is write-only. -/
structure WriteOnly (r : Evaluator) : Prop where
  evaluate (e : Expr) (f : FrameId) : (r.evaluate e f).WriteOnly
  apply (head : Value) (args : List Value) (f : FrameId) : (r.apply head args f).WriteOnly

variable {r : Evaluator} (h : r.WriteOnly)
include h

theorem evaluateAll_writeOnly (f : FrameId) (es : List Expr) : (r.evaluateAll f es).WriteOnly := by
  induction es with
  | nil => exact writeOnly_pure _
  | cons e es ih => exact (h.evaluate e f).bind fun _ => ih.bind fun _ => writeOnly_pure _

theorem applyWith_writeOnly (head : Value) (args : List Value) (f : FrameId) :
    (r.applyWith head args f).WriteOnly := by
  unfold applyWith
  split
  · unfold Eval.enterClosure
    split
    · exact (writeOnly_enter _ _).bind fun _ => (writeOnly_emit rfl).bind fun _ => h.evaluate _ _
    · exact (writeOnly_raise _).bind fun _ => (writeOnly_emit rfl).bind fun _ => h.evaluate _ _
  · exact Procedure.invoke_writeOnly h.evaluate h.apply _ _ _
  · exact writeOnly_raise _

theorem evaluateWith_writeOnly (e : Expr) (f : FrameId) : (r.evaluateWith e f).WriteOnly := by
  unfold evaluateWith
  split
  · exact writeOnly_lookup _ _
  · exact writeOnly_pure _
  · exact writeOnly_pure _
  · split
    · exact (writeOnly_emit rfl).bind fun _ => Keyword.run_writeOnly h.evaluate _ _ _
    · refine (h.evaluate _ _).bind fun v => (evaluateAll_writeOnly h _ _).bind fun vs => ?_
      unfold applyOrList
      split
      · exact applyWith_writeOnly h _ _ _
      · exact writeOnly_pure _
  · exact writeOnly_raise _

omit h in
theorem upTo_writeOnly (n : Nat) : (upTo n).WriteOnly := by
  induction n with
  | zero => exact ⟨fun _ _ => writeOnly_exhausted, fun _ _ _ => writeOnly_exhausted⟩
  | succ n ih => exact ⟨evaluateWith_writeOnly ih, applyWith_writeOnly ih⟩

end Evaluator

/-- Evaluations look neither at the output nor at the log. -/
theorem evaluate_writeOnly (n : Nat) (e : Expr) (f : FrameId) : (evaluate n e f).WriteOnly :=
  (Evaluator.upTo_writeOnly n).evaluate e f

/-! ## Sessions -/

theorem runAll_writeOnly (n : Nat) (f : FrameId) (v : Value) (es : List Expr) :
    (runAll n f v es).WriteOnly := by
  induction es generalizing v with
  | nil => exact writeOnly_pure _
  | cons e es ih =>
    exact (writeOnly_emit rfl).bind fun _ => (evaluate_writeOnly n e f).bind fun u => ih u

theorem run_writeOnly (n : Nat) (s : String) (f : FrameId) : (run n s f).WriteOnly := by
  refine (runAll_writeOnly n f .undefined _).bind fun v => ?_
  split
  · exact writeOnly_pure _
  · exact writeOnly_raise _

theorem defineAll_writeOnly (f : FrameId) (b : Bindings) : (defineAll f b).WriteOnly := by
  induction b with
  | nil => exact writeOnly_pure _
  | cons e b ih => exact (writeOnly_define f e.1 e.2).bind fun _ => ih

/-- To open a session looks neither at the output nor at the log. -/
theorem openSession_writeOnly (b : Bindings) : (openSession b).WriteOnly :=
  (writeOnly_enter _ _).bind fun f => (defineAll_writeOnly f b).bind fun _ => writeOnly_pure _

/-- Requests look neither at the output nor at the log. -/
theorem serve_writeOnly (n : Nat) (f : FrameId) (q : Request) : (serve n f q).WriteOnly := by
  cases q with
  | eval code => exact (run_writeOnly n code f).bind fun _ => writeOnly_pure _
  | interpret code =>
    exact ((writeOnly_parse code).bind fun e => evaluate_writeOnly n e f).bind fun _ =>
      writeOnly_pure _
  | define k v => exact (writeOnly_define f k v).bind fun _ => writeOnly_pure _
  | bind k code =>
    exact (run_writeOnly n code f).bind fun v =>
      (writeOnly_define f k v).bind fun _ => writeOnly_pure _
  | lookup k => exact (writeOnly_lookup f k).bind fun _ => writeOnly_pure _
  | listing =>
    exact (writeOnly_textOfStore _).bind fun _ => (writeOnly_textOfStore _).bind fun _ =>
      writeOnly_pure _

end MiniLisp
