import MiniLisp.Proofs.Depth
import MiniLisp.Proofs.Grammar

/-!
# Expressions that are data

An expression in which nothing can be applied evaluates to the data that it spells: its lists are
neither special forms nor applications, whatever strings and numbers they begin with. Its evaluation
ends, and has no effects.

## Main definitions

* `Atom.Inert s f a`: in the frame `f` the atom is no keyword and stands for nothing that can be
  applied
* `Expr.valueIn s f e`: the data that an expression spells when its symbols are looked up

## Main results

* `Finishes.list`: a list that begins with nothing that can be applied is the list of the values
* `finishes_inert`: an inert expression evaluates to its data
-/

namespace MiniLisp

/-- In the frame `f` the atom makes no list that it begins a special form or an application. -/
def Atom.Inert (s : Store) (f : FrameId) : Atom → Prop
  | symbol n => Keyword.ofName? n = none ∧ (s.lookup f (.name n)).isApplicable = false
  | _ => True

/-- What an atom stands for in the frame `f`. -/
def Atom.valueIn (s : Store) (f : FrameId) : Atom → Value
  | symbol n => s.lookup f (.name n)
  | a => a.value

mutual

/-- The data that an expression spells, with its symbols looked up in the frame `f`. -/
def Expr.valueIn (s : Store) (f : FrameId) : Expr → Value
  | .atom a => a.valueIn s f
  | .list es => .list (Expr.valuesIn s f es)
  | .embedded v => v

/-- The data that each of the expressions spells. -/
def Expr.valuesIn (s : Store) (f : FrameId) : List Expr → List Value
  | [] => []
  | e :: es => e.valueIn s f :: Expr.valuesIn s f es

end

/-- An atom evaluates to what it stands for. -/
theorem finishes_atom (a : Atom) (f : FrameId) (w : World) :
    Finishes (.atom a) f w (.ok (a.valueIn w.store f), w) := by
  refine ⟨1, ?_⟩
  cases a <;> rfl

/-- The evaluation of the expressions one after the other ends with the values, and has no
effects. -/
def FinishesAll (es : List Expr) (f : FrameId) (w : World) (vs : List Value) : Prop :=
  ∃ n, (Evaluator.upTo n).evaluateAll f es w = some (.ok vs, w)

section

variable {f : FrameId} {w : World} {e : Expr} {es : List Expr} {v : Value} {vs : List Value}

theorem FinishesAll.cons (he : Finishes e f w (.ok v, w)) (hes : FinishesAll es f w vs) :
    FinishesAll (e :: es) f w (v :: vs) := by
  obtain ⟨n, hn⟩ := he
  obtain ⟨m, hm⟩ := hes
  have hv : (Evaluator.upTo (max n m)).evaluate e f w = some (.ok v, w) :=
    evaluate_mono (Nat.le_max_left n m) e f w _ hn
  have hvs := Evaluator.evaluateAll_mono (Evaluator.upTo_mono (Nat.le_max_right n m)) f es w _ hm
  refine ⟨max n m, ?_⟩
  simp only [Evaluator.evaluateAll, Eval.bind_apply, hv, hvs, Eval.pure_apply]

/-- A list that begins neither with a keyword nor with something that can be applied evaluates to
the list of the values. -/
theorem Finishes.list (hkey : Evaluator.keyword? e = none) (hv : v.isApplicable = false)
    (he : Finishes e f w (.ok v, w)) (hes : FinishesAll es f w vs) :
    Finishes (.list (e :: es)) f w (.ok (.list (v :: vs)), w) := by
  obtain ⟨n, hn⟩ := he
  obtain ⟨m, hm⟩ := hes
  have hhead : (Evaluator.upTo (max n m)).evaluate e f w = some (.ok v, w) :=
    evaluate_mono (Nat.le_max_left n m) e f w _ hn
  have hrest := Evaluator.evaluateAll_mono (Evaluator.upTo_mono (Nat.le_max_right n m)) f es w _ hm
  refine ⟨max n m + 1, ?_⟩
  show (Evaluator.upTo (max n m)).evaluateWith (.list (e :: es)) f w = _
  rw [Evaluator.evaluateWith_list _ hkey]
  simp only [Eval.bind_apply, hhead, hrest, Evaluator.applyOrList, hv, Bool.false_eq_true, if_false,
    Eval.pure_apply]

end

/-- Nothing inert is a keyword. -/
theorem keyword?_of_inert {s : Store} {f : FrameId} {e : Expr} (h : e.MadeOf (Atom.Inert s f)) :
    Evaluator.keyword? e = none := by
  match e, h with
  | .atom (.symbol n), h => exact h.1
  | .atom (.number n), _ => rfl
  | .atom (.str s), _ => rfl
  | .list es, _ => rfl

/-- Nothing inert stands for something that can be applied. -/
theorem isApplicable_valueIn {s : Store} {f : FrameId} {e : Expr} (h : e.MadeOf (Atom.Inert s f)) :
    (e.valueIn s f).isApplicable = false := by
  match e, h with
  | .atom (.symbol n), h => exact h.2
  | .atom (.number n), _ => rfl
  | .atom (.str s), _ => rfl
  | .list es, _ => rfl

mutual

/-- An inert expression evaluates to its data, without effects. -/
theorem finishes_inert {f : FrameId} {w : World} : ∀ {e : Expr},
    e.MadeOf (Atom.Inert w.store f) → Finishes e f w (.ok (e.valueIn w.store f), w)
  | .atom a, _ => finishes_atom a f w
  | .list [], _ => ⟨1, rfl⟩
  | .list (_ :: _), ⟨he, hes⟩ =>
    Finishes.list (keyword?_of_inert he) (isApplicable_valueIn he) (finishes_inert he)
      (finishesAll_inert hes)

theorem finishesAll_inert {f : FrameId} {w : World} : ∀ {es : List Expr},
    Expr.AllMadeOf (Atom.Inert w.store f) es → FinishesAll es f w (Expr.valuesIn w.store f es)
  | [], _ => ⟨0, rfl⟩
  | _ :: _, ⟨he, hes⟩ => (finishesAll_inert hes).cons (finishes_inert he)

end

end MiniLisp
