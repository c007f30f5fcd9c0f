import Mathlib.Order.Basic
import MiniLisp.Eval.Basic

/-!
# Depth

An evaluator of greater depth gives every answer that one of less depth gives. So an expression
either has an answer, the same at every depth that is great enough, or it runs forever.

## Main definitions

* `m ≤ m'`: the computation `m'` gives every answer of `m`, and possibly more
* `Finishes e f w r`, `RunsForever e f w`: what becomes of an expression, whatever the depth

## Main results

* `Evaluator.deeper_mono`: a better evaluator is better one level deeper
* `evaluate_mono`: an answer stays the same at greater depth
* `finishes_or_runsForever`: an expression ends or runs forever
-/

namespace MiniLisp

namespace Eval

variable {α β : Type}

/-- The computations, ordered by the answers that they give. -/
instance : Preorder (Eval α) where
  le m m' := ∀ w r, m w = some r → m' w = some r
  le_refl _ _ _ h := h
  le_trans _ _ _ h h' w r hr := h' w r (h w r hr)

theorem exhausted_le (m : Eval α) : exhausted ≤ m := fun _ _ h => nomatch h

theorem bind_mono {m m' : Eval α} {k k' : α → Eval β} (hm : m ≤ m') (hk : ∀ a, k a ≤ k' a) :
    m >>= k ≤ m' >>= k' := by
  intro w r h
  rw [bind_apply] at h ⊢
  cases hmw : m w with
  | none => rw [hmw] at h; exact nomatch h
  | some o =>
    rw [hm w o hmw]
    rw [hmw] at h
    obtain ⟨_ | a, w'⟩ := o
    · exact h
    · exact hk a w' r h

end Eval

section Forms

variable {ev ev' : Expr → FrameId → Eval Value} (hev : ∀ e f, ev e f ≤ ev' e f)
include hev

theorem evalBindings_mono (f : FrameId) (bs : List Expr) :
    evalBindings ev f bs ≤ evalBindings ev' f bs := by
  induction bs with
  | nil => exact le_refl _
  | cons b bs ih =>
    simp only [evalBindings]
    split
    · exact Eval.bind_mono (hev _ _) fun _ => Eval.bind_mono ih fun _ => le_refl _
    · exact le_refl _

theorem letForm_mono (f : FrameId) (operands : List Expr) :
    letForm ev f operands ≤ letForm ev' f operands := by
  unfold letForm
  split
  · exact Eval.bind_mono (evalBindings_mono hev f _) fun _ =>
      Eval.bind_mono (le_refl _) fun _ => hev _ _
  · exact le_refl _
  · exact le_refl _

theorem ifForm_mono (f : FrameId) (operands : List Expr) :
    ifForm ev f operands ≤ ifForm ev' f operands := by
  unfold ifForm
  split
  · refine Eval.bind_mono (hev _ _) fun c => ?_
    split
    · exact hev _ _
    · exact le_refl _
  · refine Eval.bind_mono (hev _ _) fun c => ?_
    split <;> exact hev _ _
  · exact le_refl _
  · exact le_refl _

theorem Keyword.run_mono (k : Keyword) (f : FrameId) (operands : List Expr) :
    k.run ev f operands ≤ k.run ev' f operands := by
  cases k with
  | lambda => exact le_refl _
  | letIn => exact letForm_mono hev f operands
  | ifElse => exact ifForm_mono hev f operands

theorem Procedure.invoke_mono {ap ap' : Value → List Value → FrameId → Eval Value}
    (hap : ∀ v args f, ap v args f ≤ ap' v args f) (p : Procedure) (args : List Value)
    (f : FrameId) : p.invoke ev ap args f ≤ p.invoke ev' ap' args f := by
  cases p with
  | builtin b => exact le_refl _
  | host h =>
    simp only [Procedure.invoke]
    unfold HostProcedure.invoke
    split
    case h_7 => exact hap _ _ _
    case h_8 => exact Eval.bind_mono (le_refl _) fun _ => hev _ _
    all_goals exact le_refl _

end Forms

namespace Evaluator

/-- The evaluators, ordered by the answers that they give. -/
instance : Preorder Evaluator where
  le r r' := (∀ e f, r.evaluate e f ≤ r'.evaluate e f) ∧
    ∀ v args f, r.apply v args f ≤ r'.apply v args f
  le_refl _ := ⟨fun _ _ => le_refl _, fun _ _ _ => le_refl _⟩
  le_trans _ _ _ h h' :=
    ⟨fun e f => (h.1 e f).trans (h'.1 e f), fun v args f => (h.2 v args f).trans (h'.2 v args f)⟩

theorem bottom_le (r : Evaluator) : bottom ≤ r :=
  ⟨fun _ _ => Eval.exhausted_le _, fun _ _ _ => Eval.exhausted_le _⟩

variable {r r' : Evaluator} (h : r ≤ r')
include h

theorem evaluateAll_mono (f : FrameId) (es : List Expr) :
    r.evaluateAll f es ≤ r'.evaluateAll f es := by
  induction es with
  | nil => exact le_refl _
  | cons e es ih =>
    exact Eval.bind_mono (h.1 e f) fun _ => Eval.bind_mono ih fun _ => le_refl _

theorem applyWith_mono (head : Value) (args : List Value) (f : FrameId) :
    r.applyWith head args f ≤ r'.applyWith head args f := by
  unfold applyWith
  split
  · exact Eval.bind_mono (le_refl _) fun _ => Eval.bind_mono (le_refl _) fun _ => h.1 _ _
  · exact Procedure.invoke_mono h.1 h.2 _ _ _
  · exact le_refl _

theorem evaluateWith_mono (e : Expr) (f : FrameId) : r.evaluateWith e f ≤ r'.evaluateWith e f := by
  unfold evaluateWith
  split
  case h_4 =>
    split
    · exact Eval.bind_mono (le_refl _) fun _ => Keyword.run_mono h.1 _ _ _
    · refine Eval.bind_mono (h.1 _ _) fun v => Eval.bind_mono (evaluateAll_mono h _ _) fun vs => ?_
      unfold applyOrList
      split
      · exact applyWith_mono h _ _ _
      · exact le_refl _
  all_goals exact le_refl _

/-- A better evaluator is better one level deeper. -/
theorem deeper_mono : r.deeper ≤ r'.deeper :=
  ⟨evaluateWith_mono h, applyWith_mono h⟩

omit h in
theorem upTo_le_succ (n : Nat) : upTo n ≤ upTo (n + 1) := by
  -- one level more at the bottom is one level more at the top
  induction n with
  | zero => exact bottom_le _
  | succ n ih => exact deeper_mono ih

omit h in
theorem upTo_mono {n m : Nat} (hnm : n ≤ m) : upTo n ≤ upTo m := by
  induction hnm with
  | refl => exact le_refl _
  | step _ ih => exact ih.trans (upTo_le_succ _)

end Evaluator

/-- An answer stays the same at greater depth. -/
theorem evaluate_mono {n m : Nat} (h : n ≤ m) (e : Expr) (f : FrameId) :
    evaluate n e f ≤ evaluate m e f :=
  (Evaluator.upTo_mono h).1 e f

/-- The evaluation of `e` in the frame `f` ends, with the answer `r`. -/
def Finishes (e : Expr) (f : FrameId) (w : World) (r : Except Error Value × World) : Prop :=
  ∃ n, evaluate n e f w = some r

/-- The evaluation of `e` in the frame `f` does not end at any depth. -/
def RunsForever (e : Expr) (f : FrameId) (w : World) : Prop :=
  ∀ n, evaluate n e f w = none

/-- An evaluation ends or runs forever, and not both. -/
theorem finishes_or_runsForever (e : Expr) (f : FrameId) (w : World) :
    Xor (∃ r, Finishes e f w r) (RunsForever e f w) := by
  by_cases h : RunsForever e f w
  · refine .inr ⟨h, ?_⟩
    rintro ⟨r, n, hn⟩
    exact nomatch (h n).symm.trans hn
  · refine .inl ⟨?_, h⟩
    obtain ⟨n, hn⟩ := not_forall.mp h
    obtain ⟨r, hr⟩ := Option.ne_none_iff_exists'.mp hn
    exact ⟨r, n, hr⟩

end MiniLisp
