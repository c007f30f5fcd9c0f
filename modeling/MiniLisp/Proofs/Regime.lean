import MiniLisp.Eval.Basic
import MiniLisp.Proofs.Forms

/-!
# What evaluation keeps, world by world

Some of what holds in the course of an evaluation speaks of the world as it is at the moment: that
a closure was made in a frame that is there, or that an entry stands in the log. A regime says of
each world whether it may occur and what may occur in it, and which worlds may come after it. If
single steps lead from worlds of the regime to later ones, every evaluation does, at any depth and
whether it ends with a result or an error.

What held of a world has to hold of the later ones; so facts that were found before a part of an
evaluation may be used after it.

This includes evaluations that are broken off. They end where a part of them begins or has come to
a value, so the worlds in between are worlds of the regime too.

## Main definitions

* `Regime`: which worlds may occur, which may come after which, and what may occur in them
* `Regime.Keeps w Q m`: in all worlds after `w`, `m` keeps to the regime and its results satisfy `Q`
* `Regime.Laws`: what single steps have to respect
* `Regime.HostLaws`: what host procedures have to respect, where they may occur
* `Evaluator.stopping`: evaluation that is broken off at any place

## Main results

* `Regime.Laws.respects_deeper`: one level more keeps to the regime
* `Regime.Laws.evaluate`: evaluations keep to the regime
* `Regime.Laws.respects_stopping`: so do evaluations that are broken off
-/

namespace MiniLisp

/-- What holds of the outcome of a computation. -/
def Eval.Outcome {α : Type} (Q : α → Prop) (X : Error → Prop) : Except Error α → Prop
  | .ok a => Q a
  | .error e => X e

namespace Eval.Outcome

variable {α β : Type} {X : Error → Prop} {r : Except Error α}

theorem toOption {Q : α → Prop} (h : Outcome Q X r) : ∀ a ∈ r.toOption, Q a := by
  intro a ha
  cases r with
  | ok b =>
    cases ha
    exact h
  | error e => cases ha

theorem toOption_bind {P : β → Prop} {f : α → Option β}
    (h : Outcome (fun a => ∀ b ∈ f a, P b) X r) :
    ∀ b ∈ r.toOption.bind f, P b := by
  intro b hb
  obtain ⟨a, ha, hb⟩ := Option.bind_eq_some_iff.mp hb
  exact h.toOption a ha b hb

end Eval.Outcome

/-- The keyword and the operand, or part of one, that a failure finds malformed. -/
def Error.malformed? : Error → Option (Keyword × Expr)
  | .lambdaParameters e => some (.lambda, e)
  | .lambdaParameter e => some (.lambda, e)
  | .letBindings e => some (.letIn, e)
  | .letBinding e => some (.letIn, e)
  | _ => none

/-- What is malformed is put down to no place in a text. -/
theorem Error.form_of_malformed {e : Error} {p : Keyword × Expr} (h : e.malformed? = some p) :
    e.kind = .form ∧ e.position = none := by
  cases e <;> first | exact ⟨rfl, rfl⟩ | cases h

/-- What may occur in an evaluation. -/
structure Regime where
  world : World → Prop
  /-- The second world may come after the first. -/
  after : World → World → Prop
  /-- The frames that closures may have captured. -/
  scope : World → FrameId → Prop
  /-- The frames in which expressions may be evaluated. -/
  frame : World → FrameId → Prop
  expr : Expr → Prop
  value : World → Value → Prop
  error : World → Error → Prop
  /-- The evaluation of a special form has begun. -/
  begun : World → Keyword → Prop

namespace Regime

variable {R : Regime}

/-- A step from one world of the regime to another that may come after it. -/
def Step (R : Regime) (w w' : World) : Prop := R.after w w' ∧ R.world w'

/-- What host procedures have to respect. They may fail in any way. -/
structure HostLaws (R : Regime) : Prop where
  error (w : World) (e : Error) : R.error w e
  integer (w : World) (i : Int) : R.value w (.number (.int i))
  text (w : World) (s : String) : R.value w (.str s)
  bind {w : World} {f : FrameId} {v : Value} (n : String) :
    R.world w → R.frame w f → R.value w v → R.Step w (w.bind f n v)
  parse {s : String} {e : Expr} : parse s = .ok e → R.expr e
  parsed {w : World} {e : Expr} : R.world w → R.expr e → R.Step w (w.log (.parsed e))

/-- What single steps have to respect. -/
structure Laws (R : Regime) : Prop where
  /-- What is raised in the place of a failure that may occur may occur too. -/
  raised {w : World} {e : Error} : R.error w e → R.error w e.raised
  /-- To print what cannot be written fails. -/
  unwritable {w : World} {v : Value} :
    R.value w v → v.isWritable = false → R.error w .unwritable
  refl (w : World) : R.after w w
  trans {w w₁ w₂ : World} : R.after w w₁ → R.after w₁ w₂ → R.after w w₂
  frame_mono {w w' : World} {f : FrameId} : R.after w w' → R.frame w f → R.frame w' f
  scope_mono {w w' : World} {f : FrameId} : R.after w w' → R.scope w f → R.scope w' f
  value_mono {w w' : World} {v : Value} : R.after w w' → R.value w v → R.value w' v
  begun_mono {w w' : World} {k : Keyword} : R.after w w' → R.begun w k → R.begun w' k
  item {es : List Expr} {e : Expr} : R.expr (.list es) → e ∈ es → R.expr e
  literal {a : Atom} (w : World) : R.expr (.atom a) → R.value w a.value
  undefined (w : World) : R.value w .undefined
  list {w : World} {vs : List Value} : R.value w (.list vs) ↔ ∀ v ∈ vs, R.value w v
  lookup {w : World} {f : FrameId} (k : Key) :
    R.world w → R.frame w f → R.value w (w.store.lookup f k)
  scope {w : World} {f : FrameId} : R.frame w f → R.scope w f
  closure {w : World} {params : List Expr} {formals : List String} {body : Expr} {f : FrameId} :
    R.expr (.list [.symbol "lambda", .list params, body]) → formalNames params = .ok formals →
      R.frame w f → R.value w (.closure formals body f)
  body {w : World} {formals : List String} {body : Expr} {f : FrameId} :
    R.value w (.closure formals body f) → R.expr body ∧ R.scope w f
  enter {w : World} {entries : List (String × Value)} {o : FrameId} :
    R.world w → R.scope w o → (∀ v ∈ entries.map Prod.snd, R.value w v) →
      R.Step w (w.enter (.ofNames entries) (some o)) ∧
        R.frame (w.enter (.ofNames entries) (some o)) w.store.nextId
  specialForm {w : World} (k : Keyword) :
    R.world w → R.Step w (w.log (.specialForm k)) ∧ R.begun (w.log (.specialForm k)) k
  applying {w : World} {formals : List String} {body : Expr} {args : List Value} :
    R.world w → R.expr body → (∀ v ∈ args, R.value w v) →
      R.Step w (w.log (.applying formals body args))
  print {w : World} {v : Value} : R.world w → R.value w v → R.Step w (w.print v)
  evaluating {w : World} {e : Expr} :
    R.world w → R.expr e → R.Step w (w.log (.evaluating e))
  arity {w : World} {e : Error} :
    e.kind = .arity → (∀ formals body n, e = .closureArity formals body n → R.expr body) →
      R.error w e
  malformed {w : World} {e : Error} {k : Keyword} {part : Expr} :
    e.malformed? = some (k, part) → R.begun w k → R.expr part → R.error w e
  listExpected {w : World} {b : Builtin} {v : Value} :
    b ≠ .print → (∀ vs, v ≠ .list vs) → R.value w v → R.error w (.listExpected b v)
  notExpression {w : World} {v : Value} : R.expr (.embedded v) → R.error w (.notExpression v)
  host {w : World} {h : HostProcedure} : R.value w (.procedure (.host h)) → R.HostLaws

/-- In the world `w` and all that may come after it, the computation keeps to the regime: it ends,
if it does, in a world of the regime with a result that satisfies `Q` or an error that may occur. -/
def Keeps {α : Type} (R : Regime) (w : World) (Q : World → α → Prop) (m : Eval α) : Prop :=
  ∀ w₁ r w₂, R.after w w₁ → R.world w₁ → m w₁ = some (r, w₂) →
    R.Step w₁ w₂ ∧ Eval.Outcome (Q w₂) (R.error w₂) r

/-- The evaluator keeps to the regime. -/
structure Respects (R : Regime) (r : Evaluator) : Prop where
  evaluate {w : World} {e : Expr} {f : FrameId} :
    R.expr e → R.frame w f → R.Keeps w R.value (r.evaluate e f)
  /-- Only host procedures apply what is no procedure, and that error is then one of theirs. -/
  apply {w : World} {head : Value} {args : List Value} {f : FrameId} :
    (head.isApplicable = true ∨ R.HostLaws) → R.value w head → (∀ v ∈ args, R.value w v) →
      R.frame w f → R.Keeps w R.value (r.apply head args f)

namespace Laws

variable (L : R.Laws) {w : World} {α β : Type} {Q : World → α → Prop} {Q' : World → β → Prop}

/-! ### Single steps -/

theorem keeps_exhausted : R.Keeps w Q Eval.exhausted := by
  intro w₁ r w₂ _ _ h
  cases h

/-- A computation that always ends with a result. -/
theorem keeps_step {a : World → α} {g : World → World}
    (h : ∀ w₁, R.after w w₁ → R.world w₁ → R.Step w₁ (g w₁) ∧ Q (g w₁) (a w₁)) :
    R.Keeps w Q fun w => some (.ok (a w), g w) := by
  intro w₁ r w₂ ha hw₁ hr
  cases hr
  exact h w₁ ha hw₁

include L

theorem keeps_pure {a : α} (h : ∀ w₁, R.after w w₁ → Q w₁ a) : R.Keeps w Q (pure a) :=
  keeps_step (a := fun _ => a) (g := id) fun w₁ ha hw₁ => ⟨⟨L.refl w₁, hw₁⟩, h w₁ ha⟩

theorem keeps_value {v : Value} (h : R.value w v) : R.Keeps w R.value (pure v) :=
  L.keeps_pure fun _ ha => L.value_mono ha h

theorem keeps_ofStore {f : Store → α} (h : ∀ w₁, R.after w w₁ → R.world w₁ → Q w₁ (f w₁.store)) :
    R.Keeps w Q (Eval.ofStore f) :=
  keeps_step (a := fun w => f w.store) (g := id) fun w₁ ha hw₁ =>
    ⟨⟨L.refl w₁, hw₁⟩, h w₁ ha hw₁⟩

theorem keeps_raise {e : Error} (h : ∀ w₁, R.after w w₁ → R.world w₁ → R.error w₁ e) :
    R.Keeps w Q (Eval.raise e) := by
  intro w₁ r w₂ ha hw₁ hr
  cases hr
  exact ⟨⟨L.refl w₁, hw₁⟩, L.raised (h w₁ ha hw₁)⟩

theorem keeps_ofExcept {r : Except Error α}
    (h : ∀ w₁, R.after w w₁ → R.world w₁ → Eval.Outcome (Q w₁) (R.error w₁) r) :
    R.Keeps w Q (Eval.ofExcept r) := by
  intro w₁ r' w₂ ha hw₁ hr
  have ho := h w₁ ha hw₁
  rw [Eval.ofExcept_apply] at hr
  cases hr
  refine ⟨⟨L.refl w₁, hw₁⟩, ?_⟩
  cases r with
  | ok a => exact ho
  | error e => exact L.raised ho

theorem keeps_bind {m : Eval α} {k : α → Eval β} (hm : R.Keeps w Q m)
    (hk : ∀ w₁, R.after w w₁ → ∀ a, Q w₁ a → R.Keeps w₁ Q' (k a)) : R.Keeps w Q' (m >>= k) := by
  intro w₁ r w₂ ha hw₁ hr
  rw [Eval.bind_apply] at hr
  cases hmw : m w₁ with
  | none => rw [hmw] at hr; cases hr
  | some o =>
    obtain ⟨o, w'⟩ := o
    obtain ⟨⟨ha', hw'⟩, ho⟩ := hm w₁ o w' ha hw₁ hmw
    rw [hmw] at hr
    cases o with
    | ok a =>
      obtain ⟨⟨ha₂, hw₂⟩, ho₂⟩ := hk w' (L.trans ha ha') a ho w' r w₂ (L.refl w') hw' hr
      exact ⟨⟨L.trans ha' ha₂, hw₂⟩, ho₂⟩
    | error e =>
      cases hr
      exact ⟨⟨ha', hw'⟩, ho⟩

theorem keeps_textOfStore {f : Store → Option String} (h : ∀ w, R.error w .unwritable) :
    R.Keeps w (fun _ _ => True) (Eval.textOfStore f) := by
  refine L.keeps_bind (Q := fun _ _ => True)
    (L.keeps_ofStore fun _ _ _ => trivial) fun _ _ t _ => ?_
  cases t with
  | some s => exact L.keeps_pure fun _ _ => trivial
  | none => exact L.keeps_raise fun w₁ _ _ => h w₁

theorem keeps_lookup {f : FrameId} (k : Key) (hf : R.frame w f)
    (h : k.isHashable = false → ∀ w, R.error w .unhashable) :
    R.Keeps w R.value (Eval.lookup f k) := by
  unfold Eval.lookup
  split
  · exact L.keeps_ofStore fun w₁ ha hw => L.lookup k hw (L.frame_mono ha hf)
  · next hk => exact L.keeps_raise fun w₁ _ _ => h (Bool.eq_false_iff.mpr hk) w₁

theorem keeps_print {v : Value} (hv : R.value w v) :
    R.Keeps w (fun _ _ => True) (Eval.print v) := by
  cases h : v.isWritable with
  | true =>
    rw [Eval.print_of_isWritable h]
    exact keeps_step fun w₁ ha hw => ⟨L.print hw (L.value_mono ha hv), trivial⟩
  | false =>
    rw [Eval.print_of_not_isWritable h]
    exact L.keeps_raise fun w₁ ha _ => L.unwritable (L.value_mono ha hv) h

theorem values_mono {w' : World} (ha : R.after w w') {vs : List Value}
    (h : ∀ v ∈ vs, R.value w v) : ∀ v ∈ vs, R.value w' v :=
  fun v hv => L.value_mono ha (h v hv)

/-! ### Procedures -/

theorem argument {b : Builtin} {args : List Value} (h : ∀ v ∈ args, R.value w v) :
    Eval.Outcome (R.value w) (R.error w) (b.argument args) := by
  unfold Builtin.argument
  split
  · exact h _ List.mem_cons_self
  · exact L.arity rfl (by simp)

theorem listArgument {b : Builtin} (hb : b ≠ .print) {args : List Value}
    (h : ∀ v ∈ args, R.value w v) :
    Eval.Outcome (fun vs => ∀ v ∈ vs, R.value w v) (R.error w) (b.listArgument args) := by
  have ha := L.argument (b := b) h
  unfold Builtin.listArgument
  split
  · next hv => rw [hv] at ha; exact L.list.mp ha
  · next v hv =>
    rw [hv] at ha
    exact L.listExpected hb (by rintro vs rfl; simp_all) ha
  · next hv => rw [hv] at ha; exact ha

theorem builtin (b : Builtin) {args : List Value} (h : ∀ v ∈ args, R.value w v) :
    R.Keeps w R.value (b.invoke args) := by
  have hlater := fun w₁ (ha : R.after w w₁) => L.values_mono ha h
  cases b with
  | print =>
    refine L.keeps_bind (Q := R.value)
      (L.keeps_ofExcept fun w₁ ha _ => L.argument (hlater w₁ ha)) fun w₁ _ v hv => ?_
    exact L.keeps_bind (L.keeps_print hv) fun w₂ ha _ _ => L.keeps_value (L.value_mono ha hv)
  | first =>
    refine L.keeps_bind (Q := fun w vs => ∀ v ∈ vs, R.value w v)
      (L.keeps_ofExcept fun w₁ ha _ => L.listArgument (by decide) (hlater w₁ ha)) fun w₁ _ vs hvs =>
        L.keeps_value ?_
    cases vs with
    | nil => exact L.undefined w₁
    | cons v vs => exact hvs v List.mem_cons_self
  | rest =>
    refine L.keeps_bind (Q := fun w vs => ∀ v ∈ vs, R.value w v)
      (L.keeps_ofExcept fun w₁ ha _ => L.listArgument (by decide) (hlater w₁ ha)) fun w₁ _ vs hvs =>
        L.keeps_value ?_
    exact L.list.mpr fun v hv => hvs v (List.mem_of_mem_tail hv)

theorem parse (H : R.HostLaws) (s : String) :
    R.Keeps w (fun _ => R.expr) (Eval.parse s) := by
  refine L.keeps_bind (Q := fun _ => R.expr) (L.keeps_ofExcept fun w₁ _ _ => ?_) fun w₁ _ e he => ?_
  · cases hs : MiniLisp.parse s with
    | ok e => exact H.parse hs
    | error e => exact H.error w₁ _
  · exact L.keeps_bind (Q := fun _ _ => True)
      (keeps_step fun w₂ _ hw => ⟨H.parsed hw he, trivial⟩) fun _ _ _ _ =>
        L.keeps_pure fun _ _ => he

theorem define (H : R.HostLaws) {f : FrameId} (hf : R.frame w f) (k : Key) {v : Value}
    (hv : R.value w v) : R.Keeps w (fun _ _ => True) (Eval.define f k v) := by
  cases k with
  | name n =>
    exact keeps_step fun w₁ ha hw =>
      ⟨H.bind n hw (L.frame_mono ha hf) (L.value_mono ha hv), trivial⟩
  | other u => exact L.keeps_raise fun w₁ _ _ => H.error w₁ _

theorem defineAll (H : R.HostLaws) {f : FrameId} (hf : R.frame w f) {entries : List (Key × Value)}
    (hv : ∀ e ∈ entries, R.value w e.2) :
    R.Keeps w (fun _ _ => True) (Eval.defineAll f entries) := by
  induction entries generalizing w with
  | nil => exact L.keeps_pure fun _ _ => trivial
  | cons e entries ih =>
    obtain ⟨he, hes⟩ := List.forall_mem_cons.mp hv
    refine L.keeps_bind (L.define H hf e.1 he) fun w₁ ha _ _ => ?_
    exact ih (L.frame_mono ha hf) fun e' he' => L.value_mono ha (hes e' he')

theorem enterClosure {formals : List String} {body : Expr} {scope : FrameId} {args : List Value}
    (hb : R.expr body) (hs : R.scope w scope) (ha : ∀ v ∈ args, R.value w v) :
    R.Keeps w R.frame (Eval.enterClosure formals body scope args) := by
  unfold Eval.enterClosure
  split
  · refine keeps_step fun w₁ hafter hw => L.enter hw (L.scope_mono hafter hs) fun v hv => ?_
    obtain ⟨p, hp, rfl⟩ := List.mem_map.mp hv
    exact L.value_mono hafter (ha _ (List.of_mem_zip hp).2)
  · refine L.keeps_raise fun w₁ _ _ => L.arity rfl fun formals' body' n h => ?_
    cases h
    exact hb

variable {r : Evaluator} (hr : R.Respects r) {f : FrameId} (hf : R.frame w f)
include hr hf

theorem hostProcedure {h : HostProcedure} (H : R.HostLaws) {args : List Value}
    (ha : ∀ v ∈ args, R.value w v) :
    R.Keeps w R.value (h.invoke r.evaluate r.apply args f) := by
  have htext : ∀ g, R.Keeps w R.value (Value.str <$> Eval.textOfStore g) := fun g =>
    L.keeps_bind (L.keeps_textOfStore fun w₁ => H.error w₁ _) fun _ _ _ _ =>
      L.keeps_pure fun w₁ _ => H.text w₁ _
  unfold HostProcedure.invoke
  split
  · exact L.keeps_pure fun w₁ _ => H.integer w₁ _
  · exact L.keeps_value (L.list.mpr ha)
  · exact htext _
  · exact htext _
  · exact L.keeps_lookup _ hf fun _ w₁ => H.error w₁ _
  · next k v _ =>
    have hv : R.value w v := ha v (by simp)
    exact L.keeps_bind (L.define H hf _ hv) fun w₁ hafter _ _ =>
      L.keeps_value (L.value_mono hafter hv)
  · next head vs _ =>
    have hvs : R.value w (.list vs) := ha _ (by simp)
    exact hr.apply (.inr H) (ha head (by simp)) (L.list.mp hvs) hf
  · refine L.keeps_bind (L.parse H _) fun w₁ hafter e he => ?_
    exact hr.evaluate he (L.frame_mono hafter hf)
  · exact L.keeps_raise fun w₁ _ _ => H.error w₁ _

theorem applyWith {head : Value} {args : List Value}
    (hn : head.isApplicable = true ∨ R.HostLaws) (hh : R.value w head)
    (ha : ∀ v ∈ args, R.value w v) : R.Keeps w R.value (r.applyWith head args f) := by
  cases head with
  | closure formals body scope =>
    obtain ⟨hb, hs⟩ := L.body hh
    refine L.keeps_bind (L.enterClosure hb hs ha) fun w₁ hafter g hg => ?_
    refine L.keeps_bind (Q := fun _ _ => True) (keeps_step fun w₂ hafter' hw => ⟨?_, trivial⟩)
      fun w₂ hafter' _ _ => hr.evaluate hb (L.frame_mono hafter' hg)
    exact L.applying hw hb (L.values_mono (L.trans hafter hafter') ha)
  | procedure p =>
    cases p with
    | builtin b => exact L.builtin b ha
    | host h => exact L.hostProcedure hr hf (L.host hh) ha
  | _ =>
    rcases hn with hn | H
    · cases hn
    · exact L.keeps_raise fun w₁ _ _ => H.error w₁ _

/-! ### Special forms -/

theorem evalBindings (hbegun : R.begun w .letIn) {bs : List Expr} (hb : ∀ b ∈ bs, R.expr b) :
    R.Keeps w (fun w entries => ∀ v ∈ entries.map Prod.snd, R.value w v)
      (evalBindings r.evaluate f bs) := by
  induction bs generalizing w with
  | nil => exact L.keeps_pure (by simp)
  | cons b bs ih =>
    obtain ⟨hb, hbs⟩ := List.forall_mem_cons.mp hb
    unfold MiniLisp.evalBindings
    split
    · next n e hbe =>
      have he : R.expr e := by
        unfold Expr.binding? at hbe
        split at hbe
        · cases hbe
          exact L.item hb (by simp)
        · cases hbe
      refine L.keeps_bind (hr.evaluate he hf) fun w₁ ha v hv => ?_
      refine L.keeps_bind (ih (L.frame_mono ha hf) (L.begun_mono ha hbegun) hbs)
        fun w₂ ha₂ vs hvs => L.keeps_pure fun w₃ ha₃ => ?_
      have hv₃ : R.value w₃ v := L.value_mono (L.trans ha₂ ha₃) hv
      simpa [hv₃] using L.values_mono ha₃ hvs
    · exact L.keeps_raise fun w₁ ha _ => L.malformed rfl (L.begun_mono ha hbegun) hb

theorem letForm (hbegun : R.begun w .letIn) {operands : List Expr}
    (ho : ∀ e ∈ operands, R.expr e) : R.Keeps w R.value (letForm r.evaluate f operands) := by
  unfold MiniLisp.letForm
  split
  · next bindings body =>
    have hb : ∀ b ∈ bindings, R.expr b := fun b hb => L.item (ho (.list bindings) (by simp)) hb
    refine L.keeps_bind (L.evalBindings hr hf hbegun hb) fun w₁ ha entries he => ?_
    refine L.keeps_bind (Q := R.frame) (keeps_step fun w₂ ha₂ hw => ?_) fun w₂ _ g hg =>
      hr.evaluate (ho body (by simp)) hg
    exact L.enter hw (L.scope (L.frame_mono (L.trans ha ha₂) hf)) (L.values_mono ha₂ he)
  · next bindings _ _ =>
    exact L.keeps_raise fun w₁ ha _ =>
      L.malformed rfl (L.begun_mono ha hbegun) (ho bindings (by simp))
  · exact L.keeps_raise fun w₁ _ _ => L.arity rfl (by simp)

theorem ifForm {operands : List Expr} (ho : ∀ e ∈ operands, R.expr e) :
    R.Keeps w R.value (ifForm r.evaluate f operands) := by
  have hev : ∀ e ∈ operands, ∀ w₁, R.after w w₁ → R.Keeps w₁ R.value (r.evaluate e f) :=
    fun e he w₁ ha => hr.evaluate (ho e he) (L.frame_mono ha hf)
  unfold MiniLisp.ifForm
  split
  · refine L.keeps_bind (hev _ (by simp) w (L.refl w)) fun w₁ ha c _ => ?_
    split
    · exact hev _ (by simp) w₁ ha
    · exact L.keeps_value (L.undefined w₁)
  · refine L.keeps_bind (hev _ (by simp) w (L.refl w)) fun w₁ ha c _ => ?_
    split <;> exact hev _ (by simp) w₁ ha
  · exact L.keeps_raise fun w₁ _ _ => L.arity rfl (by simp)
  · exact L.keeps_raise fun w₁ _ _ => L.arity rfl (by simp)

omit hr in
theorem lambdaForm (hbegun : R.begun w .lambda) {operands : List Expr}
    (he : R.expr (.list (.symbol "lambda" :: operands))) :
    Eval.Outcome (R.value w) (R.error w) (lambdaForm f operands) := by
  have ho : ∀ e ∈ operands, R.expr e := fun e h => L.item he (List.mem_cons_of_mem _ h)
  unfold MiniLisp.lambdaForm
  split
  · next params body =>
    cases hp : formalNames params with
    | ok formals => exact L.closure he hp hf
    | error e =>
      obtain ⟨p, hmem, rfl⟩ := formalNames_error hp
      exact L.malformed rfl hbegun (L.item (ho (.list params) (by simp)) hmem)
  · next params _ _ => exact L.malformed rfl hbegun (ho params (by simp))
  · exact L.arity rfl (by simp)

/-! ### Expressions -/

theorem evaluateAll {es : List Expr} (he : ∀ e ∈ es, R.expr e) :
    R.Keeps w (fun w vs => ∀ v ∈ vs, R.value w v) (r.evaluateAll f es) := by
  induction es generalizing w with
  | nil => exact L.keeps_pure (by simp)
  | cons e es ih =>
    obtain ⟨he, hes⟩ := List.forall_mem_cons.mp he
    refine L.keeps_bind (hr.evaluate he hf) fun w₁ ha v hv => ?_
    refine L.keeps_bind (ih (L.frame_mono ha hf) hes) fun w₂ ha₂ vs hvs =>
      L.keeps_pure fun w₃ ha₃ => ?_
    exact List.forall_mem_cons.mpr ⟨L.value_mono (L.trans ha₂ ha₃) hv, L.values_mono ha₃ hvs⟩

theorem evaluateWith {e : Expr} (he : R.expr e) : R.Keeps w R.value (r.evaluateWith e f) := by
  unfold Evaluator.evaluateWith
  split
  · exact L.keeps_lookup _ hf (by simp [Key.isHashable])
  · exact L.keeps_value (L.literal w he)
  · exact L.keeps_value (L.list.mpr (by simp))
  · next head operands =>
    have ho : ∀ e ∈ operands, R.expr e := fun e h => L.item he (List.mem_cons_of_mem _ h)
    split
    · next k hk =>
      rw [Evaluator.keyword?_eq_some_iff] at hk
      subst hk
      refine L.keeps_bind (Q := fun w _ => R.begun w k)
        (keeps_step fun w₁ _ hw => L.specialForm k hw) fun w₁ ha _ hbegun => ?_
      have hf₁ := L.frame_mono ha hf
      cases k with
      | lambda =>
        exact L.keeps_ofExcept fun w₂ ha₂ _ =>
          L.lambdaForm (L.frame_mono ha₂ hf₁) (L.begun_mono ha₂ hbegun) he
      | letIn => exact L.letForm hr hf₁ hbegun ho
      | ifElse => exact L.ifForm hr hf₁ ho
    · refine L.keeps_bind (hr.evaluate (L.item he List.mem_cons_self) hf) fun w₁ ha v hv => ?_
      have hf₁ := L.frame_mono ha hf
      refine L.keeps_bind (L.evaluateAll hr hf₁ ho) fun w₂ ha₂ vs hvs => ?_
      have hv₂ := L.value_mono ha₂ hv
      unfold Evaluator.applyOrList
      split
      · next happ => exact L.applyWith hr (L.frame_mono ha₂ hf₁) (.inl happ) hv₂ hvs
      · exact L.keeps_value (L.list.mpr (List.forall_mem_cons.mpr ⟨hv₂, hvs⟩))
  · exact L.keeps_raise fun w₁ _ _ => L.notExpression he

omit hf in
/-- An evaluator one level deeper keeps to the regime. -/
theorem respects_deeper : R.Respects r.deeper :=
  ⟨fun he hf => L.evaluateWith hr hf he, fun hn hh ha hf => L.applyWith hr hf hn hh ha⟩

omit hr hf

theorem respects_upTo (n : Nat) : R.Respects (.upTo n) := by
  induction n with
  | zero => exact ⟨fun _ _ => keeps_exhausted, fun _ _ _ _ => keeps_exhausted⟩
  | succ n ih => exact L.respects_deeper ih

/-- Every evaluation keeps to the regime. -/
theorem evaluate (n : Nat) {e : Expr} (he : R.expr e) (hf : R.frame w f) :
    R.Keeps w R.value (evaluate n e f) :=
  (L.respects_upTo n).evaluate he hf

end Laws

end Regime

/-! ## Evaluation broken off -/

/-- Whether an evaluation of an expression in a frame fails in a given world although nothing is
wrong: where it begins, or where it has come to a value. -/
abbrev Hook := Expr → FrameId → Option Value → World → Option Error

/-- The evaluator of depth `n`, broken off: where the evaluation of an expression or of a part of
one begins, and where it has come to a value, it fails if `stop` says so. A value that it has come
to is left in the log then. -/
def Evaluator.stopping (stop : Hook) : Nat → Evaluator
  | 0 => bottom
  | n + 1 =>
    { evaluate := fun e f w =>
        match stop e f none w with
        | some x => some (.error x, w)
        | none =>
          match (stopping stop n).evaluateWith e f w with
          | some (.ok v, w') =>
            match stop e f (some v) w' with
            | some x => some (.error x, w'.print v)
            | none => some (.ok v, w')
          | r => r
      apply := (stopping stop n).applyWith }

/-- An evaluation that is never broken off is an evaluation. -/
theorem Evaluator.stopping_never (n : Nat) : stopping (fun _ _ _ _ => none) n = upTo n := by
  induction n with
  | zero => rfl
  | succ n ih =>
    rw [stopping, upTo, ih, deeper]
    congr 1
    funext e f w
    dsimp only
    split
    · next h => exact h.symm
    · rfl

/-- An evaluation that is broken off keeps to a regime that admits the failure. -/
theorem Regime.Laws.respects_stopping {R : Regime} (L : R.Laws) (hX : ∀ w e, R.error w e)
    (stop : Hook) (n : Nat) : R.Respects (.stopping stop n) := by
  induction n with
  | zero => exact L.respects_upTo 0
  | succ n ih =>
    have hdeeper := L.respects_deeper ih
    refine ⟨fun {w e f} he hf w₁ r w₂ ha hw hr => ?_, hdeeper.apply⟩
    simp only [Evaluator.stopping] at hr
    split at hr
    · cases hr
      exact ⟨⟨L.refl w₁, hw⟩, hX w₁ _⟩
    · split at hr
      · next v w' hv =>
        obtain ⟨⟨ha', hw'⟩, hvalue⟩ := hdeeper.evaluate he hf w₁ _ _ ha hw hv
        split at hr
        · cases hr
          obtain ⟨hafter, hworld⟩ := L.print hw' hvalue
          exact ⟨⟨L.trans ha' hafter, hworld⟩, hX _ _⟩
        · cases hr
          exact ⟨⟨ha', hw'⟩, hvalue⟩
      · exact hdeeper.evaluate he hf w₁ r w₂ ha hw hr

end MiniLisp
