import MiniLisp.Proofs.Regime

/-!
# Invariants of evaluation

An invariant says which stores, expressions and values may occur, and in which frames expressions
may be evaluated. If each single step respects it, every evaluation does, at any depth and whether
it ends with a result or an error.

An invariant is a regime that says the same of all worlds, whatever came before.

## Main definitions

* `Eval.Keeps P Q X m`: `m` keeps stores within `P`; its results satisfy `Q` and its errors `X`
* `Invariant`, `Invariant.Laws`: what an invariant speaks about, and what single steps have to
  respect
* `Invariant.HostLaws`: what host procedures have to respect, where they may occur
* `Invariant.regime`: an invariant as a regime

## Main results

* `Invariant.Laws.evaluate`: evaluations keep the invariant
* `Invariant.Laws.stopping`: so do evaluations that are broken off
-/

namespace MiniLisp

/-! ## Computations that keep a property of the store -/

namespace Eval

variable {α β : Type} {P : Store → Prop} {Q : α → Prop} {R : β → Prop} {X : Error → Prop}

/-- From a store that satisfies `P` the computation ends, if it does, in such a store, with a
result that satisfies `Q` or an error that satisfies `X`. -/
def Keeps (P : Store → Prop) (Q : α → Prop) (X : Error → Prop) (m : Eval α) : Prop :=
  ∀ w r w', P w.store → m w = some (r, w') → P w'.store ∧ Outcome Q X r

theorem Keeps.imp {Q' : α → Prop} {m : Eval α} (h : Keeps P Q X m) (hQ : ∀ a, Q a → Q' a) :
    Keeps P Q' X m := by
  intro w r w' hw hr
  obtain ⟨hw', ho⟩ := h w r w' hw hr
  refine ⟨hw', ?_⟩
  cases r with
  | ok a => exact hQ a ho
  | error e => exact ho

theorem keeps_pure {a : α} (h : Q a) : Keeps P Q X (pure a) := by
  intro w r w' hw hr
  cases hr
  exact ⟨hw, h⟩

theorem Keeps.bind {m : Eval α} {k : α → Eval β} (hm : Keeps P Q X m)
    (hk : ∀ a, Q a → Keeps P R X (k a)) : Keeps P R X (m >>= k) := by
  intro w r w' hw hr
  rw [bind_apply] at hr
  cases hmw : m w with
  | none => rw [hmw] at hr; cases hr
  | some o =>
    obtain ⟨o, w₁⟩ := o
    obtain ⟨hw₁, ho⟩ := hm w o w₁ hw hmw
    rw [hmw] at hr
    cases o with
    | ok a => exact hk a ho w₁ r w' hw₁ hr
    | error e =>
      cases hr
      exact ⟨hw₁, ho⟩

end Eval

/-! ## Invariants -/

/-- What may occur in an evaluation. -/
structure Invariant where
  store : Store → Prop
  /-- The frames that closures may have captured. -/
  scope : FrameId → Prop
  /-- The frames in which expressions may be evaluated. -/
  frame : FrameId → Prop
  expr : Expr → Prop
  value : Value → Prop
  error : Error → Prop

namespace Invariant

/-- What host procedures have to respect. They may fail in any way. -/
structure HostLaws (I : Invariant) : Prop where
  error (e : Error) : I.error e
  integer (i : Int) : I.value (.number (.int i))
  text (s : String) : I.value (.str s)
  bind {s : Store} {f : FrameId} {v : Value} (n : String) :
    I.store s → I.frame f → I.value v → I.store (s.bind f n v)
  parse {s : String} {e : Expr} : parse s = .ok e → I.expr e

/-- What single steps have to respect. -/
structure Laws (I : Invariant) : Prop where
  raised {e : Error} : I.error e → I.error e.raised
  unwritable {v : Value} : I.value v → v.isWritable = false → I.error .unwritable
  item {es : List Expr} {e : Expr} : I.expr (.list es) → e ∈ es → I.expr e
  literal {a : Atom} : I.expr (.atom a) → I.value a.value
  undefined : I.value .undefined
  list {vs : List Value} : I.value (.list vs) ↔ ∀ v ∈ vs, I.value v
  lookup {s : Store} {f : FrameId} (k : Key) : I.store s → I.frame f → I.value (s.lookup f k)
  scope {f : FrameId} : I.frame f → I.scope f
  closure {params : List Expr} {formals : List String} {body : Expr} {f : FrameId} :
    I.expr (.list [.symbol "lambda", .list params, body]) → formalNames params = .ok formals →
      I.frame f → I.value (.closure formals body f)
  body {formals : List String} {body : Expr} {f : FrameId} :
    I.value (.closure formals body f) → I.expr body ∧ I.scope f
  enter {s : Store} {entries : List (String × Value)} {o : FrameId} :
    I.store s → I.scope o → (∀ v ∈ entries.map Prod.snd, I.value v) →
      I.store (s.push (.ofNames entries) (some o)) ∧ I.frame s.nextId
  arity {e : Error} : e.kind = .arity → I.error e
  form {e : Error} : e.kind = .form → e.position = none → I.error e
  listExpected {b : Builtin} {v : Value} : (∀ vs, v ≠ .list vs) → I.error (.listExpected b v)
  notExpression {v : Value} : I.expr (.embedded v) → I.error (.notExpression v)
  host {h : HostProcedure} : I.value (.procedure (.host h)) → I.HostLaws

variable {I : Invariant}

/-- The invariant as a regime: what may occur does not depend on the world. -/
def regime (I : Invariant) : Regime where
  world w := I.store w.store
  after _ _ := True
  scope _ := I.scope
  frame _ := I.frame
  expr := I.expr
  value _ := I.value
  error _ := I.error
  begun _ _ := True

theorem HostLaws.regime (H : I.HostLaws) : I.regime.HostLaws where
  error _ := H.error
  integer _ := H.integer
  text _ := H.text
  bind n hw hf hv := ⟨trivial, H.bind n hw hf hv⟩
  parse := H.parse
  parsed hw _ := ⟨trivial, hw⟩

theorem Laws.regime (L : I.Laws) : I.regime.Laws where
  raised := L.raised
  unwritable := L.unwritable
  refl _ := trivial
  trans _ _ := trivial
  frame_mono _ h := h
  scope_mono _ h := h
  value_mono _ h := h
  begun_mono _ h := h
  item := L.item
  literal _ := L.literal
  undefined _ := L.undefined
  list := L.list
  lookup := L.lookup
  scope := L.scope
  closure := L.closure
  body := L.body
  enter hw ho hv := ⟨⟨trivial, (L.enter hw ho hv).1⟩, (L.enter hw ho hv).2⟩
  specialForm _ hw := ⟨⟨trivial, hw⟩, trivial⟩
  applying hw _ _ := ⟨trivial, hw⟩
  print hw _ := ⟨trivial, hw⟩
  evaluating hw _ := ⟨trivial, hw⟩
  arity h _ := L.arity h
  malformed h _ _ := (Error.form_of_malformed h).elim L.form
  listExpected _ hv _ := L.listExpected hv
  notExpression := L.notExpression
  host h := (L.host h).regime

/-- What keeps to the regime of an invariant keeps the invariant. -/
theorem keeps_of_regime {α : Type} {Q : α → Prop} {m : Eval α}
    (h : ∀ w, I.regime.Keeps w (fun _ => Q) m) : Eval.Keeps I.store Q I.error m := by
  intro w r w' hw hr
  obtain ⟨⟨-, hw'⟩, ho⟩ := h w w r w' trivial hw hr
  exact ⟨hw', ho⟩

/-- Every evaluation keeps the invariant. -/
theorem Laws.evaluate (L : I.Laws) (n : Nat) {e : Expr} {f : FrameId} (he : I.expr e)
    (hf : I.frame f) : Eval.Keeps I.store I.value I.error (evaluate n e f) :=
  keeps_of_regime fun w => L.regime.evaluate (w := w) n he hf

/-- Every evaluation that is broken off keeps an invariant that admits the failure. -/
theorem Laws.stopping (L : I.Laws) (hX : ∀ e, I.error e) (stop : Hook) (n : Nat) {e : Expr}
    {f : FrameId} (he : I.expr e) (hf : I.frame f) :
    Eval.Keeps I.store I.value I.error ((Evaluator.stopping stop n).evaluate e f) :=
  keeps_of_regime fun w => (L.regime.respects_stopping (fun _ => hX) stop n).evaluate (w := w) he hf

end Invariant

end MiniLisp
