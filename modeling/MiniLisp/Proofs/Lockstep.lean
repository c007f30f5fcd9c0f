import Mathlib.Order.Basic
import MiniLisp.Proofs.Depth
import MiniLisp.Proofs.Forms
import MiniLisp.Proofs.Matching
import MiniLisp.Session.Basic

/-!
# Runs in lockstep

Two evaluations are compared step by step. Their worlds are related by a *link*, which says what
in the one run corresponds to what in the other, and which grows as both make new frames. A
simulation says what links mean; if every step respects it, the two runs end together, both with
results or both with errors, and these correspond.

## Main definitions

* `Simulation Λ`: what links of type `Λ` mean
* `Simulation.Lockstep l Q m m'`: from worlds linked by `l` or more the computations end together,
  in linked worlds, with results related by `Q` or with errors that correspond
* `Simulation.Laws`: what the single steps have to respect
* `Simulation.SelfLaws`: what makes an expression run in lockstep with itself
* `Simulation.Follows r r'`: corresponding tasks run in lockstep in the two evaluators
* `Simulation.HostFollows l r r' f f'`: so do calls of host procedures

## Main results

* `Simulation.Lockstep.bind`: computations in lockstep, one after the other
* `Simulation.Laws.evaluateAll`, `Simulation.Laws.applyWith`, `Simulation.Laws.evalBindings`,
  `Simulation.Laws.letForm`, `Simulation.Laws.ifForm`: the parts of an evaluation
* `Simulation.SelfLaws.lockstep_evaluateWith`: the same expression in both runs
* `Simulation.Laws.run`: the same text in both runs
* `Simulation.ends_or_runsForever`: evaluations in lockstep at every depth
-/

namespace MiniLisp

theorem Evaluator.applyWith_of_not_applicable (r : Evaluator) {v : Value}
    (h : v.isApplicable = false) (args : List Value) (f : FrameId) :
    r.applyWith v args f = Eval.raise (.notApplicable v) := by
  cases v with
  | closure | procedure => cases h
  | _ => rfl

/-- Failures that are related stay so when they are raised, if they can be put into words
together. -/
theorem Error.raised_congr {E : Error → Error → Prop} {e e' : Error} (h : E e e')
    (hw : e.isWritable = e'.isWritable) (hu : E .unwritable .unwritable) :
    E e.raised e'.raised := by
  unfold Error.raised
  rw [hw]
  split
  · exact h
  · exact hu

/-- What links between two runs mean. -/
structure Simulation (Λ : Type) where
  worlds : Λ → World → World → Prop
  closure : Λ → Closure → Closure → Prop
  /-- The procedures not written in the language that may occur. -/
  procedure : Procedure → Prop
  error : Error → Error → Prop
  /-- An expression in a frame of the first run corresponds to one in a frame of the second. -/
  task : Λ → Expr → FrameId → Expr → FrameId → Prop

namespace Simulation

variable {Λ : Type} [Preorder Λ] (S : Simulation Λ) {α β γ δ : Type}

/-- Values that correspond. -/
def value (l : Λ) : Value → Value → Prop := Value.Matches S.procedure (S.closure l)

/-- Outcomes that correspond, under a link that extends `l`. -/
inductive Answers (l : Λ) (Q : Λ → α → β → Prop) :
    Option (Except Error α × World) → Option (Except Error β × World) → Prop
  | exhausted : Answers l Q none none
  | ok {l' : Λ} {a : α} {b : β} {w w' : World} :
    l ≤ l' → S.worlds l' w w' → Q l' a b → Answers l Q (some (.ok a, w)) (some (.ok b, w'))
  | error {l' : Λ} {e e' : Error} {w w' : World} :
    l ≤ l' → S.worlds l' w w' → S.error e e' →
      Answers l Q (some (.error e, w)) (some (.error e', w'))

/-- From worlds linked by `l` or more the computations end together, in linked worlds, with
results related by `Q` or with errors that correspond. -/
def Lockstep (l : Λ) (Q : Λ → α → β → Prop) (m : Eval α) (m' : Eval β) : Prop :=
  ∀ l', l ≤ l' → ∀ w w', S.worlds l' w w' → S.Answers l' Q (m w) (m' w')

variable {S} {l : Λ} {Q : Λ → α → β → Prop} {R : Λ → γ → δ → Prop}

theorem Answers.imp {l₀ : Λ} {Q' : Λ → α → β → Prop} {o : Option (Except Error α × World)}
    {o' : Option (Except Error β × World)} (h : S.Answers l Q o o') (hl₀ : l₀ ≤ l)
    (hQ : ∀ l' a b, l ≤ l' → Q l' a b → Q' l' a b) : S.Answers l₀ Q' o o' := by
  cases h with
  | exhausted => exact .exhausted
  | ok hl hw hq => exact .ok (hl₀.trans hl) hw (hQ _ _ _ hl hq)
  | error hl hw he => exact .error (hl₀.trans hl) hw he

namespace Lockstep

theorem mono {l' : Λ} {m : Eval α} {m' : Eval β} (h : S.Lockstep l Q m m') (hl : l ≤ l') :
    S.Lockstep l' Q m m' := fun l'' hl' => h l'' (hl.trans hl')

theorem imp {Q' : Λ → α → β → Prop} {m : Eval α} {m' : Eval β} (h : S.Lockstep l Q m m')
    (hQ : ∀ l' a b, l ≤ l' → Q l' a b → Q' l' a b) : S.Lockstep l Q' m m' :=
  fun l' hl w w' hw =>
    (h l' hl w w' hw).imp (le_refl l') fun l'' _ _ hl' => hQ l'' _ _ (hl.trans hl')

theorem exhausted : S.Lockstep l Q Eval.exhausted Eval.exhausted := fun _ _ _ _ _ => .exhausted

theorem pure {a : α} {b : β} (h : ∀ l', l ≤ l' → Q l' a b) :
    S.Lockstep l Q (Pure.pure a) (Pure.pure b) :=
  fun l' hl _ _ hw => .ok (le_refl l') hw (h l' hl)

theorem raise {e e' : Error} (h : S.error e.raised e'.raised) :
    S.Lockstep l Q (Eval.raise e) (Eval.raise e') :=
  fun l' _ _ _ hw => .error (le_refl l') hw h

/-- Entries that leave the worlds linked. -/
theorem emit {x x' : Event}
    (h : ∀ {l' w w'}, l ≤ l' → S.worlds l' w w' → S.worlds l' (w.log x) (w'.log x')) :
    S.Lockstep l (fun _ _ _ => True) (Eval.emit x) (Eval.emit x') :=
  fun l' hl _ _ hw => .ok (le_refl l') (h hl hw) trivial

/-- Computations in lockstep, one after the other. -/
theorem bind {m : Eval α} {m' : Eval β} {k : α → Eval γ} {k' : β → Eval δ}
    (hm : S.Lockstep l Q m m')
    (hk : ∀ l' a b, l ≤ l' → Q l' a b → S.Lockstep l' R (k a) (k' b)) :
    S.Lockstep l R (m >>= k) (m' >>= k') := by
  intro l' hl w w' hw
  have ha := hm l' hl w w' hw
  rw [Eval.bind_apply, Eval.bind_apply]
  generalize m w = o, m' w' = o' at ha
  cases ha with
  | exhausted => exact .exhausted
  | ok hl₁ hw₁ hq =>
    exact (hk _ _ _ (hl.trans hl₁) hq _ (le_refl _) _ _ hw₁).imp hl₁ fun _ _ _ _ => id
  | error hl₁ hw₁ he => exact .error hl₁ hw₁ he

end Lockstep

/-- What the single steps have to respect. -/
structure Laws : Prop where
  closure_mono {l l' : Λ} {c c' : Closure} : l ≤ l' → S.closure l c c' → S.closure l' c c'
  length_eq {l : Λ} {c c' : Closure} :
    S.closure l c c' → c.formals.length = c'.formals.length
  isWritable_eq {l : Λ} {c c' : Closure} :
    S.closure l c c' → c.body.isWritable = c'.body.isWritable
  error_refl (e : Error) : S.error e e
  listExpected {l : Λ} {b : Builtin} {v v' : Value} :
    S.value l v v' → S.error (.listExpected b v) (.listExpected b v')
  closureArity {l : Λ} {c c' : Closure} (n : Nat) : S.closure l c c' →
    S.error (.closureArity c.formals c.body n) (.closureArity c'.formals c'.body n)
  specialForm {l : Λ} {w w' : World} (k : Keyword) :
    S.worlds l w w' → S.worlds l (w.log (.specialForm k)) (w'.log (.specialForm k))
  print {l : Λ} {v v' : Value} {w w' : World} :
    S.value l v v' → S.worlds l w w' → S.worlds l (w.print v) (w'.print v')
  applying {l : Λ} {c c' : Closure} {args args' : List Value} {w w' : World} :
    S.closure l c c' → List.Forall₂ (S.value l) args args' → S.worlds l w w' →
      S.worlds l (w.log (.applying c.formals c.body args))
        (w'.log (.applying c'.formals c'.body args'))
  enter {l : Λ} {c c' : Closure} {args args' : List Value} :
    S.closure l c c' → List.Forall₂ (S.value l) args args' → args.length = c.formals.length →
      S.Lockstep l (fun l' g g' => S.task l' c.body g c'.body g')
        (Eval.enter (.ofNames (c.formals.zip args)) (some c.scope))
        (Eval.enter (.ofNames (c'.formals.zip args')) (some c'.scope))

/-- Corresponding tasks run in lockstep in the two evaluators. -/
def Follows (r r' : Evaluator) : Prop :=
  ∀ {l : Λ} {e e' : Expr} {f f' : FrameId}, S.task l e f e' f' →
    S.Lockstep l S.value (r.evaluate e f) (r'.evaluate e' f')

/-- Bindings of `let` that correspond: they give the same name to expressions in lockstep, or are
the same and malformed. -/
def BindingsFollow (S : Simulation Λ) (l : Λ) (r r' : Evaluator) (f f' : FrameId)
    (b b' : Expr) : Prop :=
  (∃ n e e', b.binding? = some (n, e) ∧ b'.binding? = some (n, e') ∧
      S.Lockstep l S.value (r.evaluate e f) (r'.evaluate e' f')) ∨
    b.binding? = none ∧ b = b'

/-- Calls of the host procedures that may occur, with corresponding arguments in the frames `f` and
`f'`, run in lockstep in the two evaluators. -/
def HostFollows (S : Simulation Λ) (l : Λ) (r r' : Evaluator) (f f' : FrameId) : Prop :=
  ∀ {l' : Λ} {h : HostProcedure} {args args' : List Value}, l ≤ l' → S.procedure (.host h) →
    List.Forall₂ (S.value l') args args' →
      S.Lockstep l' S.value (h.invoke r.evaluate r.apply args f)
        (h.invoke r'.evaluate r'.apply args' f')

theorem HostFollows.mono {l' : Λ} {r r' : Evaluator} {f f' : FrameId}
    (h : S.HostFollows l r r' f f') (hl : l ≤ l') : S.HostFollows l' r r' f f' :=
  fun hl' => h (hl.trans hl')

/-- Where no host procedures may occur there is nothing to follow. -/
theorem HostFollows.of_builtin (hb : ∀ p, S.procedure p → p.IsBuiltin) {r r' : Evaluator}
    {f f' : FrameId} : S.HostFollows l r r' f f' :=
  fun _ h => (hb _ h).elim

namespace Laws

variable (L : S.Laws)
include L

theorem value_mono {l' : Λ} (hl : l ≤ l') {v v' : Value} (h : S.value l v v') : S.value l' v v' :=
  Value.Matches.mono (fun _ _ => L.closure_mono hl) h

theorem values_mono {l' : Λ} (hl : l ≤ l') {vs vs' : List Value}
    (h : List.Forall₂ (S.value l) vs vs') : List.Forall₂ (S.value l') vs vs' :=
  h.imp fun _ _ => L.value_mono hl

theorem value_isWritable_eq {v v' : Value} (h : S.value l v v') : v.isWritable = v'.isWritable :=
  Value.Matches.isWritable_eq (fun _ _ => L.isWritable_eq) h

/-! ### Failures -/

theorem lockstep_raise {e e' : Error} (h : S.error e e') (hw : e.isWritable = e'.isWritable) :
    S.Lockstep l Q (Eval.raise e) (Eval.raise e') :=
  Lockstep.raise (Error.raised_congr h hw (L.error_refl _))

/-- The same failure in both runs. -/
theorem lockstep_raise_self (e : Error) : S.Lockstep l Q (Eval.raise e) (Eval.raise e) :=
  Lockstep.raise (L.error_refl _)

/-- A special form is begun in both runs. -/
theorem lockstep_specialForm (k : Keyword) :
    S.Lockstep l (fun _ _ _ => True) (Eval.emit (.specialForm k)) (Eval.emit (.specialForm k)) :=
  Lockstep.emit fun _ => L.specialForm k

/-! ### Built-in procedures -/

omit L in
omit [Preorder Λ] in
theorem argument (b : Builtin) {args args' : List Value}
    (h : List.Forall₂ (S.value l) args args') :
    (∃ v v', b.argument args = .ok v ∧ b.argument args' = .ok v' ∧ S.value l v v') ∨
      ∃ e, b.argument args = .error e ∧ b.argument args' = .error e := by
  rcases h with _ | ⟨hv, _ | ⟨hv', ht⟩⟩
  · exact .inr ⟨_, rfl, rfl⟩
  · exact .inl ⟨_, _, rfl, rfl, hv⟩
  · exact .inr ⟨_, rfl, by simp [Builtin.argument, ht.length_eq]⟩

theorem lockstep_argument (b : Builtin) {args args' : List Value}
    (h : List.Forall₂ (S.value l) args args') :
    S.Lockstep l S.value (Eval.ofExcept (b.argument args))
      (Eval.ofExcept (b.argument args')) := by
  rcases argument b h with ⟨v, v', hv, hv', hvv⟩ | ⟨e, he, he'⟩
  · rw [hv, hv']
    exact Lockstep.pure fun _ hl => L.value_mono hl hvv
  · rw [he, he']
    exact L.lockstep_raise_self e

omit L in
omit [Preorder Λ] in
theorem listArgument_of_not_list {b : Builtin} {args : List Value} {v : Value}
    (h : b.argument args = .ok v) (hv : ∀ vs, v ≠ .list vs) :
    b.listArgument args = .error (.listExpected b v) := by
  unfold Builtin.listArgument
  rw [h]
  cases v with
  | list vs => exact absurd rfl (hv vs)
  | _ => rfl

theorem lockstep_listArgument (b : Builtin) {args args' : List Value}
    (h : List.Forall₂ (S.value l) args args') :
    S.Lockstep l (fun l' => List.Forall₂ (S.value l')) (Eval.ofExcept (b.listArgument args))
      (Eval.ofExcept (b.listArgument args')) := by
  rcases argument b h with ⟨v, v', hv, hv', hvv⟩ | ⟨e, he, he'⟩
  · rcases Value.Matches.list_or hvv with ⟨vs, vs', rfl, rfl, hvs⟩ | ⟨hn, hn'⟩
    · rw [Builtin.listArgument, hv, Builtin.listArgument, hv']
      exact Lockstep.pure fun _ hl => L.values_mono hl hvs
    · rw [listArgument_of_not_list hv hn, listArgument_of_not_list hv' hn']
      exact L.lockstep_raise (L.listExpected hvv) (L.value_isWritable_eq hvv)
  · rw [Builtin.listArgument, he, Builtin.listArgument, he']
    exact L.lockstep_raise_self e

theorem lockstep_print {v v' : Value} (h : S.value l v v') :
    S.Lockstep l (fun _ _ _ => True) (Eval.print v) (Eval.print v') := by
  have hsame := L.value_isWritable_eq h
  cases hv : v.isWritable with
  | true =>
    rw [Eval.print_of_isWritable hv, Eval.print_of_isWritable (hsame ▸ hv)]
    exact fun l' hl _ _ hw => .ok (le_refl l') (L.print (L.value_mono hl h) hw) trivial
  | false =>
    rw [Eval.print_of_not_isWritable hv, Eval.print_of_not_isWritable (hsame ▸ hv)]
    exact L.lockstep_raise_self _

theorem builtin (b : Builtin) {args args' : List Value}
    (h : List.Forall₂ (S.value l) args args') :
    S.Lockstep l S.value (b.invoke args) (b.invoke args') := by
  cases b with
  | print =>
    refine (L.lockstep_argument .print h).bind fun l₁ v v' _ hv => ?_
    refine (L.lockstep_print hv).bind fun l₂ _ _ hl₂ _ => Lockstep.pure fun l₃ hl₃ => ?_
    exact L.value_mono (hl₂.trans hl₃) hv
  | first =>
    refine (L.lockstep_listArgument .first h).bind fun l₁ vs vs' _ hvs => ?_
    refine Lockstep.pure fun l₂ hl₂ => L.value_mono hl₂ ?_
    cases hvs with
    | nil => exact trivial
    | cons hv _ => exact hv
  | rest =>
    refine (L.lockstep_listArgument .rest h).bind fun l₁ vs vs' _ hvs => ?_
    refine Lockstep.pure fun l₂ hl₂ => L.value_mono hl₂ (Value.matches_list.mpr ?_)
    cases hvs with
    | nil => exact .nil
    | cons _ ht => exact ht

/-! ### Applications -/

variable {r r' : Evaluator} {f f' : FrameId}

theorem evaluateAll {es es' : List Expr}
    (h : List.Forall₂ (fun e e' => S.Lockstep l S.value (r.evaluate e f) (r'.evaluate e' f'))
      es es') :
    S.Lockstep l (fun l' => List.Forall₂ (S.value l')) (r.evaluateAll f es)
      (r'.evaluateAll f' es') := by
  induction h with
  | nil => exact Lockstep.pure fun _ _ => .nil
  | cons he _ ih =>
    refine he.bind fun l₁ v v' hl₁ hv => ?_
    refine (ih.mono hl₁).bind fun l₂ vs vs' hl₂ hvs => Lockstep.pure fun l₃ hl₃ => ?_
    exact .cons (L.value_mono (hl₂.trans hl₃) hv) (L.values_mono hl₃ hvs)

theorem enterClosure {c c' : Closure} {args args' : List Value} (hc : S.closure l c c')
    (ha : List.Forall₂ (S.value l) args args') :
    S.Lockstep l (fun l' g g' => S.task l' c.body g c'.body g')
      (Eval.enterClosure c.formals c.body c.scope args)
      (Eval.enterClosure c'.formals c'.body c'.scope args') := by
  unfold Eval.enterClosure
  rw [← L.length_eq hc, ← ha.length_eq]
  split
  · next hlen => exact L.enter hc ha hlen
  · exact L.lockstep_raise (L.closureArity _ hc) (L.isWritable_eq hc)

variable (hr : S.Follows r r')
include hr

theorem applyClosure {c c' : Closure} {args args' : List Value} (hc : S.closure l c c')
    (ha : List.Forall₂ (S.value l) args args') :
    S.Lockstep l S.value (r.applyWith (.closure c.formals c.body c.scope) args f)
      (r'.applyWith (.closure c'.formals c'.body c'.scope) args' f') := by
  refine (L.enterClosure hc ha).bind fun l₁ g g' hl₁ ht => ?_
  have hlog : S.Lockstep l₁ (fun _ _ _ => True) (Eval.emit (.applying c.formals c.body args))
      (Eval.emit (.applying c'.formals c'.body args')) :=
    .emit fun hl₂ => L.applying (L.closure_mono (hl₁.trans hl₂) hc)
      (L.values_mono (hl₁.trans hl₂) ha)
  exact hlog.bind fun l₂ _ _ hl₂ _ => (hr ht).mono hl₂

variable (hh : S.HostFollows l r r' f f')
include hh

/-- Heads that match are applied in lockstep; what is no procedure is applied by host procedures
alone. -/
theorem applyWith {head head' : Value} {args args' : List Value}
    (hn : head.isApplicable = true ∨ S.error (.notApplicable head) (.notApplicable head'))
    (hv : S.value l head head') (ha : List.Forall₂ (S.value l) args args') :
    S.Lockstep l S.value (r.applyWith head args f) (r'.applyWith head' args' f') := by
  by_cases happ : head.isApplicable = true
  · cases head with
    | closure formals body scope =>
      cases head' with
      | closure formals' body' scope' =>
        have hc : S.closure l ⟨formals, body, scope⟩ ⟨formals', body', scope'⟩ :=
          Value.matches_closure.mp hv
        exact L.applyClosure hr hc ha
      | _ => exact hv.elim
    | procedure p =>
      cases head' with
      | procedure p' =>
        obtain ⟨rfl, hp⟩ := Value.matches_procedure.mp hv
        cases p with
        | builtin b => exact L.builtin b ha
        | host h => exact hh (le_refl l) hp ha
      | _ => exact hv.elim
    | _ => cases happ
  · have happ' : head'.isApplicable = false := by
      rw [Value.Matches.isApplicable_eq hv]
      exact Bool.eq_false_iff.mpr happ
    rw [r.applyWith_of_not_applicable (Bool.eq_false_iff.mpr happ),
      r'.applyWith_of_not_applicable happ']
    exact L.lockstep_raise (hn.resolve_left happ) (L.value_isWritable_eq hv)

theorem applyOrList {head head' : Value} {args args' : List Value} (hv : S.value l head head')
    (ha : List.Forall₂ (S.value l) args args') :
    S.Lockstep l S.value (r.applyOrList head args f) (r'.applyOrList head' args' f') := by
  unfold Evaluator.applyOrList
  rw [Value.Matches.isApplicable_eq hv]
  split
  · next happ => exact L.applyWith hr hh (.inl happ) hv ha
  · exact Lockstep.pure fun _ hl =>
      L.value_mono hl (Value.matches_list.mpr (.cons hv ha))

/-! ### Special forms -/

omit hr hh

/-- The expressions of bindings, in lockstep. Where these come to an end the bindings were well
formed. -/
theorem evalBindings {bs bs' : List Expr} (h : List.Forall₂ (S.BindingsFollow l r r' f f') bs bs') :
    S.Lockstep l
      (fun l' es es' => EntriesMatch (S.value l') es es' ∧
        bindingNames? bs = some (es.map Prod.fst))
      (evalBindings r.evaluate f bs) (evalBindings r'.evaluate f' bs') := by
  induction h with
  | nil => exact Lockstep.pure fun _ _ => ⟨.nil, rfl⟩
  | @cons b b' bs bs' hb _ ih =>
    unfold MiniLisp.evalBindings
    obtain ⟨n, e, e', hbe, hbe', he⟩ | ⟨hbe, rfl⟩ := hb
    · rw [hbe, hbe']
      refine he.bind fun l₁ v v' hl₁ hv => (ih.mono hl₁).bind fun l₂ es es' hl₂ hes => ?_
      refine Lockstep.pure fun l₃ hl₃ => ⟨.cons ⟨rfl, ?_⟩ ?_, ?_⟩
      · exact L.value_mono (hl₂.trans hl₃) hv
      · exact hes.1.mono fun _ _ => L.value_mono hl₃
      · rw [bindingNames?_cons hbe, hes.2]
        rfl
    · rw [hbe]
      exact L.lockstep_raise_self _

include hr in
theorem letForm {bs bs' : List Expr} {body body' : Expr}
    (hbs : List.Forall₂ (S.BindingsFollow l r r' f f') bs bs')
    (henter : ∀ l' es es', l ≤ l' → EntriesMatch (S.value l') es es' →
      bindingNames? bs = some (es.map Prod.fst) →
        S.Lockstep l' (fun l' g g' => S.task l' body g body' g')
          (Eval.enter (.ofNames es) (some f)) (Eval.enter (.ofNames es') (some f'))) :
    S.Lockstep l S.value (letForm r.evaluate f [.list bs, body])
      (letForm r'.evaluate f' [.list bs', body']) := by
  refine (L.evalBindings hbs).bind fun l₁ es es' hl₁ hes => ?_
  exact (henter l₁ es es' hl₁ hes.1 hes.2).bind fun l₂ g g' _ ht => hr ht

theorem ifForm {operands operands' : List Expr}
    (h : List.Forall₂
      (fun e e' => S.Lockstep l S.value (r.evaluate e f) (r'.evaluate e' f')) operands operands') :
    S.Lockstep l S.value (ifForm r.evaluate f operands) (ifForm r'.evaluate f' operands') := by
  rcases h with _ | ⟨hc, _ | ⟨ht, _ | ⟨he, _ | _⟩⟩⟩
  · exact L.lockstep_raise_self _
  · exact L.lockstep_raise_self _
  · refine hc.bind fun l₁ v v' hl₁ hv => ?_
    rw [Value.Matches.isTrue_eq hv]
    split
    · exact ht.mono hl₁
    · exact Lockstep.pure fun _ _ => trivial
  · refine hc.bind fun l₁ v v' hl₁ hv => ?_
    rw [Value.Matches.isTrue_eq hv]
    split
    · exact ht.mono hl₁
    · exact he.mono hl₁
  · exact L.lockstep_raise_self _

end Laws

/-! ### The same expression in both runs -/

/-- What has to follow if an expression corresponds to itself, for it to run in lockstep with
itself. -/
structure SelfLaws (S : Simulation Λ) : Prop where
  lookup {l : Λ} {x : String} {f f' : FrameId} : S.task l (.symbol x) f (.symbol x) f' →
    S.Lockstep l S.value (Eval.lookup f (.name x)) (Eval.lookup f' (.name x))
  item {l : Λ} {head e : Expr} {operands : List Expr} {f f' : FrameId} :
    Evaluator.keyword? head = none → S.task l (.list (head :: operands)) f
      (.list (head :: operands)) f' → e ∈ head :: operands → S.task l e f e f'
  ifOperand {l : Λ} {e : Expr} {operands : List Expr} {f f' : FrameId} :
    S.task l (.list (.symbol "if" :: operands)) f (.list (.symbol "if" :: operands)) f' →
      e ∈ operands → S.task l e f e f'
  lambda {l : Λ} {params : List Expr} {names : List String} {body : Expr} {f f' : FrameId} :
    S.task l (.list [.symbol "lambda", .list params, body]) f
      (.list [.symbol "lambda", .list params, body]) f' → formalNames params = .ok names →
        S.closure l ⟨names, body, f⟩ ⟨names, body, f'⟩
  letInit {l : Λ} {bs : List Expr} {b e body : Expr} {n : String} {f f' : FrameId} :
    S.task l (.list [.symbol "let", .list bs, body]) f (.list [.symbol "let", .list bs, body]) f' →
      b ∈ bs → b.binding? = some (n, e) → S.task l e f e f'
  letEnter {l l' : Λ} {bs : List Expr} {body : Expr} {es es' : List (String × Value)}
    {f f' : FrameId} :
    S.task l (.list [.symbol "let", .list bs, body]) f (.list [.symbol "let", .list bs, body]) f' →
      l ≤ l' → EntriesMatch (S.value l') es es' → bindingNames? bs = some (es.map Prod.fst) →
        S.Lockstep l' (fun l' g g' => S.task l' body g body g')
          (Eval.enter (.ofNames es) (some f)) (Eval.enter (.ofNames es') (some f'))

namespace SelfLaws

variable (I : S.SelfLaws) (L : S.Laws) {r r' : Evaluator} {f f' : FrameId}

theorem lockstep_literal (a : Atom) :
    S.Lockstep l S.value (pure a.value) (pure a.value) := by
  refine Lockstep.pure fun _ _ => ?_
  cases a <;> rfl

include I L

theorem lockstep_lambdaForm {operands : List Expr}
    (h : S.task l (.list (.symbol "lambda" :: operands)) f
      (.list (.symbol "lambda" :: operands)) f') :
    S.Lockstep l S.value (Eval.ofExcept (lambdaForm f operands))
      (Eval.ofExcept (lambdaForm f' operands)) := by
  unfold lambdaForm
  split
  · next params body =>
    cases hp : formalNames params with
    | error e => exact L.lockstep_raise_self e
    | ok names =>
      refine Lockstep.pure fun l' hl => Value.matches_closure.mpr ?_
      exact L.closure_mono hl (I.lambda h hp)
  · exact L.lockstep_raise_self _
  · exact L.lockstep_raise_self _

variable (hr : S.Follows r r')
include hr

theorem lockstep_letForm {operands : List Expr}
    (h : S.task l (.list (.symbol "let" :: operands)) f (.list (.symbol "let" :: operands)) f') :
    S.Lockstep l S.value (letForm r.evaluate f operands) (letForm r'.evaluate f' operands) := by
  unfold letForm
  split
  · next bs body =>
    refine L.letForm hr ?_ fun l' es es' hl => I.letEnter h hl
    rw [List.forall₂_same]
    intro b hb
    cases hbe : b.binding? with
    | none => exact .inr ⟨hbe, rfl⟩
    | some ne => exact .inl ⟨ne.1, ne.2, ne.2, hbe, hbe, hr (I.letInit h hb hbe)⟩
  · exact L.lockstep_raise_self _
  · exact L.lockstep_raise_self _

/-- An expression that corresponds to itself runs in lockstep with itself, one level deeper than
its parts. -/
theorem lockstep_evaluateWith (hh : S.HostFollows l r r' f f') {e : Expr}
    (h : S.task l e f e f') :
    S.Lockstep l S.value (r.evaluateWith e f) (r'.evaluateWith e f') := by
  unfold Evaluator.evaluateWith
  split
  · exact I.lookup h
  · exact lockstep_literal _
  · exact Lockstep.pure fun _ _ => Value.matches_list.mpr .nil
  · next head operands =>
    split
    · next k hk =>
      rw [Evaluator.keyword?_eq_some_iff] at hk
      subst hk
      refine (L.lockstep_specialForm k).bind fun l₁ _ _ hl₁ _ => ?_
      cases k with
      | lambda => exact (lockstep_lambdaForm I L h).mono hl₁
      | letIn => exact (lockstep_letForm I L hr h).mono hl₁
      | ifElse =>
        refine (L.ifForm (List.forall₂_same.mpr fun e he => ?_)).mono hl₁
        exact hr (I.ifOperand h he)
    · next hk =>
      have hitem : ∀ e ∈ head :: operands,
          S.Lockstep l S.value (r.evaluate e f) (r'.evaluate e f') :=
        fun e he => hr (I.item hk h he)
      refine (hitem head List.mem_cons_self).bind fun l₁ v v' hl₁ hv => ?_
      refine (L.evaluateAll (List.forall₂_same.mpr fun e he =>
        (hitem e (List.mem_cons_of_mem _ he)).mono hl₁)).bind fun l₂ vs vs' hl₂ hvs => ?_
      exact L.applyOrList hr (hh.mono (hl₁.trans hl₂)) (L.value_mono hl₂ hv) hvs
  · exact L.lockstep_raise_self _

end SelfLaws

/-! ### Texts -/

section Text

variable {n : Nat} {f f' : FrameId} (L : S.Laws)
  (hlog : ∀ {l' w w'} (e : Expr), S.worlds l' w w' →
    S.worlds l' (w.log (.evaluating e)) (w'.log (.evaluating e)))
  (he : ∀ e, S.Lockstep l S.value (evaluate n e f) (evaluate n e f'))
include L hlog he

theorem Laws.runAll {v v' : Value} (hv : S.value l v v') (es : List Expr) :
    S.Lockstep l S.value (runAll n f v es) (runAll n f' v' es) := by
  induction es generalizing l v v' with
  | nil => exact Lockstep.pure fun _ hl => L.value_mono hl hv
  | cons e es ih =>
    refine (Lockstep.emit fun _ => hlog e).bind fun l₁ _ _ hl₁ _ => ?_
    refine ((he e).mono hl₁).bind fun l₂ u u' hl₂ hu => ?_
    exact ih (fun e => (he e).mono (hl₁.trans hl₂)) hu

/-- If all expressions run in lockstep with themselves, so do texts. -/
theorem Laws.run (s : String) : S.Lockstep l S.value (run n s f) (run n s f') := by
  refine (L.runAll hlog he (show S.value l .undefined .undefined from trivial) _).bind ?_
  intro l₁ v v' _ hv
  split
  · exact Lockstep.pure fun _ hl => L.value_mono hl hv
  · exact L.lockstep_raise_self _

end Text

/-- Evaluations that are in lockstep at every depth run forever together, or end together with
outcomes that correspond. -/
theorem ends_or_runsForever {Q : Λ → Value → Value → Prop} {e e' : Expr} {f f' : FrameId}
    {w w' : World} (h : ∀ n, S.Answers l Q (evaluate n e f w) (evaluate n e' f' w')) :
    RunsForever e f w ∧ RunsForever e' f' w' ∨
      ∃ r r', Finishes e f w r ∧ Finishes e' f' w' r' ∧ S.Answers l Q (some r) (some r') := by
  -- at each depth both give up or neither does
  have hiff : ∀ n, evaluate n e f w = none ↔ evaluate n e' f' w' = none := by
    intro n
    have hn := h n
    generalize evaluate n e f w = o, evaluate n e' f' w' = o' at hn
    cases hn <;> simp
  rcases finishes_or_runsForever e f w with ⟨⟨r, n, hr⟩, -⟩ | ⟨hforever, -⟩
  · have hn := h n
    rw [hr] at hn
    cases hr' : evaluate n e' f' w' with
    | none =>
      rw [hr'] at hn
      exact nomatch hn
    | some r' =>
      rw [hr'] at hn
      exact .inr ⟨r, r', ⟨n, hr⟩, ⟨n, hr'⟩, hn⟩
  · exact .inl ⟨hforever, fun n => (hiff n).mp (hforever n)⟩

end Simulation

end MiniLisp
