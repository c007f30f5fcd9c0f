import MiniLisp.Proofs.Joining
import MiniLisp.Session.Basic

/-!
# A text run in parts

To run a text is to run its first part and then what is left, as long as the first part can be read
by itself and the cut does not go through a word. What the first part did stays done if the second
cannot be read, and of a first part that fails the second one is not run.

## Main definitions

* `Error.shift k`: a failure, put down to a place `k` further on if it is one to read
* `runAfter n k v s f`: the run of a text that stands at the offset `k` of a greater one, after
  expressions with the last value `v`

## Main results

* `runAll_append`: expressions evaluated one after the other
* `run_append`: a text run in parts
-/

namespace MiniLisp

/-- The failure, put down to a place `k` further on if it is one to read. -/
def Error.shift (k : Nat) : Error → Error
  | read e => read (e.shift k)
  | e => e

section

variable (n : Nat) (f : FrameId)

/-- The expressions one after the other, those of a first list before those of a second. -/
theorem runAll_append (v : Value) (es es' : List Expr) :
    runAll n f v (es ++ es') = runAll n f v es >>= fun u => runAll n f u es' := by
  induction es generalizing v with
  | nil => rfl
  | cons e es ih =>
    rw [List.cons_append, runAll, runAll]
    simp only [bind_assoc, ih]

/-- All the expressions of the text are evaluated, so a failure of its run is one to read on. -/
def evaluatesAll (s : String) (w : World) : Bool :=
  match runAll n f .undefined (parseAll s).1 w with
  | some (.ok _, _) => true
  | _ => false

/-- Runs a text that stands at the offset `k` of a greater one, after expressions the last of which
has the value `v`. That is the result if there is no expression in the text, and a failure to read
it is put down to its place in the greater one; but for this, it is the run of the text. -/
def runAfter (k : Nat) (v : Value) (s : String) : Eval Value := fun w =>
  (run n s f w).map fun
    | (.ok u, w') => (.ok (if (parseAll s).1.isEmpty then v else u), w')
    | (.error e, w') => (.error (if evaluatesAll n f s w then e.shift k else e), w')

/-- What the run of a text comes to after its expressions. -/
def finish (failure : Option ReadError) (v : Value) : Eval Value :=
  match failure with
  | none => pure v
  | some e => Eval.raise (.read e)

theorem run_eq (s : String) :
    run n s f = runAll n f .undefined (parseAll s).1 >>= finish (parseAll s).2 := rfl

/-- The expressions of a text, and then the failure to read it further on. -/
theorem runAll_finish_shift (k : Nat) (v : Value) (s : String) :
    runAll n f v (parseAll s).1 >>= finish ((parseAll s).2.map (ReadError.shift k)) =
      runAfter n f k v s := by
  funext w
  rw [runAfter, evaluatesAll, run_eq]
  cases hes : (parseAll s).1 with
  | nil => cases (parseAll s).2 <;> rfl
  | cons e es =>
    rw [show runAll n f v (e :: es) = runAll n f .undefined (e :: es) from rfl, Eval.bind_apply,
      Eval.bind_apply]
    rcases runAll n f .undefined (e :: es) w with _ | ⟨_ | u, w'⟩
    · rfl
    · rfl
    · cases (parseAll s).2 <;> rfl

end

/-- **A text is run in parts.** If the first of two texts is read without a failure and the cut
between them does not go through a word, the run of both together is the run of the first and, if
that does not fail, the run of the second after it. The failure to read the second is then put down
to a place as much further on as the first is long, and so says its message, unless it is an integer
that is too long, which has no place. -/
theorem run_append {a b : String} (ha : (parseAll a).2 = none)
    (hcut : ¬ Glued a.toList b.toList) (n : Nat) (f : FrameId) :
    (run n (a ++ b) f = run n a f >>= fun v => runAfter n f a.length v b) ∧
      ∀ e, (parseAll b).2 = some e → e = .oversizedInteger ∨
        ∃ words p, e.Worded words p ∧ (e.shift a.length).Worded words (p + a.length) := by
  constructor
  · have hfinish : finish none = (pure : Value → Eval Value) := rfl
    rw [run_eq, parseAll_append ha hcut, runAll_append, bind_assoc]
    rw [run_eq, ha, hfinish, bind_pure]
    simp only [runAll_finish_shift]
  · intro e he
    obtain rfl | ⟨words, p, hp, hshift⟩ := parseAll_failure_worded he
    · exact .inl rfl
    · exact .inr ⟨words, p, hp, hshift a.length⟩

/-- The second text evaluates a word and breaks off in a list, which is found at the offset 17 of
both together and at the offset 2 of the second. -/
theorem run_append_openList :
    ((parseAll "x (print \"a b\")").2 = none ∧
        ¬ Glued "x (print \"a b\")".toList "y (".toList) ∧
      (parseAll "y (").2 = some (.unterminatedList 2) ∧
      (∀ n f, run n ("x (print \"a b\")" ++ "y (") f =
        run n "x (print \"a b\")" f >>= fun v => runAfter n f 15 v "y (") ∧
      ∃ words p, (ReadError.unterminatedList 2).Worded words p ∧
        (ReadError.unterminatedList 17).Worded words (p + 15) := by
  have hdrain : (Source.ofText "x (print \"a b\")").drain = ([⟨.word, "x", 0⟩,
      ⟨.opening, "(", 2⟩, ⟨.word, "print", 3⟩, ⟨.str, "a b", 9⟩, ⟨.closing, ")", 14⟩], none) :=
    Source.drain_token rfl <| Source.drain_token rfl <| Source.drain_token rfl <|
      Source.drain_token rfl <| Source.drain_token rfl <| Source.drain_finished rfl
  have hdrain' : (Source.ofText "y (").drain =
      ([⟨.word, "y", 0⟩, ⟨.opening, "(", 2⟩], none) :=
    Source.drain_token rfl <| Source.drain_token rfl <| Source.drain_finished rfl
  have hread : (parseAll "x (print \"a b\")").2 = none := by
    rw [parseAll_eq_readTokens, hdrain]
    rfl
  have hread' : (parseAll "y (").2 = some (.unterminatedList 2) := by
    rw [parseAll_eq_readTokens, hdrain']
    rfl
  have hcut : ¬ Glued "x (print \"a b\")".toList "y (".toList := by decide
  refine ⟨⟨hread, hcut⟩, hread', fun n f => (run_append hread hcut n f).1, ?_⟩
  exact ((run_append hread hcut 0 0).2 _ hread').resolve_left (by decide)

end MiniLisp
