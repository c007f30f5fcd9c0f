import MiniLisp.Proofs.Links
import MiniLisp.Proofs.Writable

/-!
# `let` as the application of a `lambda`

To bind names by `let` is the same as to apply a `lambda` with these parameters at once. So a
program may be rewritten to do without `let`: wherever a well-formed one stands, its body becomes
that of a `lambda` and the expressions of its bindings become arguments.

The program and the rewritten one are run side by side. Each frame of the one has its counterpart
in the other, with the same names in the same order, with values that agree, and inside frames that
are counterparts. Closures agree if they have the same parameters, the body of the second is that
of the first or what it was rewritten to, and they were made in frames that are counterparts.

## Main definitions

* `Expr.desugar`: an expression with each `let` replaced by the application of a `lambda`
* `Counterparts`: the links between the frames of the two runs
* `Value.Agrees s s' v v'`: values agree, in stores with counterparts

## Main results

* `Expr.evaluate_desugar`: an expression and its rewriting have answers that agree, and print values
  that agree
-/

namespace MiniLisp

/-! ## The rewriting -/

namespace Expr

mutual

/-- An expression with each well-formed `let` replaced by the application of a `lambda`. Special
forms that are malformed are left alone. -/
def desugar : Expr → Expr
  | list (head :: operands) =>
    match Evaluator.keyword? head with
    | some .lambda => list (head :: desugarLambda operands)
    | some .letIn => desugarLet operands
    | some .ifElse => list (head :: desugarIf operands)
    | none => list (desugar head :: desugarAll operands)
  | e => e

/-- The expressions, each rewritten. -/
def desugarAll : List Expr → List Expr
  | [] => []
  | e :: es => desugar e :: desugarAll es

/-- The operands of `lambda` with the body rewritten. -/
def desugarLambda : List Expr → List Expr
  | [list params, body] =>
    match formalNames params with
    | .ok _ => [list params, desugar body]
    | .error _ => [list params, body]
  | operands => operands

/-- The application of a `lambda` in place of `let` with the given operands. -/
def desugarLet : List Expr → Expr
  | [list bindings, body] =>
    match bindingNames? bindings with
    | some names =>
      list (list [symbol "lambda", list (names.map symbol), desugar body] ::
        desugarInits bindings)
    | none => list [symbol "let", list bindings, body]
  | operands => list (symbol "let" :: operands)

/-- The expressions of bindings, each rewritten. -/
def desugarInits : List Expr → List Expr
  | [] => []
  | list [_, e] :: bs => desugar e :: desugarInits bs
  | _ :: bs => desugarInits bs

/-- The operands of `if`, each rewritten if there are two or three. -/
def desugarIf : List Expr → List Expr
  | [c, t] => [desugar c, desugar t]
  | [c, t, e] => [desugar c, desugar t, desugar e]
  | operands => operands

end

/-- The second expression is the first or what it is rewritten to. -/
def Rewrites (e e' : Expr) : Prop := e' = e ∨ e' = e.desugar

theorem Rewrites.refl (e : Expr) : Rewrites e e := .inl rfl

theorem rewrites_desugarAll (es : List Expr) : List.Forall₂ Rewrites es (desugarAll es) := by
  induction es with
  | nil => exact .nil
  | cons e es ih => exact .cons (.inr rfl) ih

theorem rewrites_desugarIf (operands : List Expr) :
    List.Forall₂ Rewrites operands (desugarIf operands) := by
  unfold desugarIf
  split
  · exact rewrites_desugarAll [_, _]
  · exact rewrites_desugarAll [_, _, _]
  · exact List.forall₂_same.mpr fun e _ => .refl e

/-- A rewriting makes no keyword of what is none. -/
theorem keyword?_desugar {e : Expr} (h : Evaluator.keyword? e = none) :
    Evaluator.keyword? e.desugar = none := by
  cases e with
  | atom a => exact h
  | embedded v => rfl
  | list items =>
    cases items with
    | nil => rfl
    | cons head operands =>
      rw [desugar]
      split
      · rfl
      · unfold desugarLet
        split
        · split <;> rfl
        · rfl
      · rfl
      · rfl

/-- Well-formed bindings begin with one that has a name and an expression. -/
theorem desugarInits_cons {b e : Expr} {n : String} (h : b.binding? = some (n, e))
    (bs : List Expr) : desugarInits (b :: bs) = desugar e :: desugarInits bs := by
  rw [binding?_eq_some_iff] at h
  rw [h, desugarInits]

theorem desugarAll_eq_map (es : List Expr) : desugarAll es = es.map desugar := by
  induction es with
  | nil => rfl
  | cons e es ih => rw [desugarAll, ih, List.map_cons]

theorem allWritable_map {g : Expr → Expr} {es : List Expr}
    (h : ∀ e ∈ es, (g e).isWritable = e.isWritable) :
    allWritable (es.map g) = allWritable es := by
  induction es with
  | nil => rfl
  | cons e es ih =>
    obtain ⟨he, hes⟩ := List.forall_mem_cons.mp h
    exact congrArg₂ and he (ih hes)

/-- The names of well-formed bindings are symbols, which can be written. -/
theorem allWritable_desugarInits {bs : List Expr} {names : List String}
    (hn : bindingNames? bs = some names)
    (h : ∀ n e, list [symbol n, e] ∈ bs → e.desugar.isWritable = e.isWritable) :
    allWritable (desugarInits bs) = allWritable bs := by
  induction bs generalizing names with
  | nil => rfl
  | cons b bs ih =>
    cases hb : b.binding? with
    | none =>
      rw [bindingNames?, hb] at hn
      cases hn
    | some ne =>
      obtain ⟨n, e⟩ := ne
      rw [bindingNames?_cons hb] at hn
      obtain ⟨names', hn', -⟩ := Option.map_eq_some_iff.mp hn
      rw [desugarInits_cons hb]
      rw [binding?_eq_some_iff] at hb
      subst hb
      have hrest := ih hn' fun m e' he' => h m e' (List.mem_cons_of_mem _ he')
      simp [allWritable, isWritable, Atom.isWritable, h n e List.mem_cons_self, hrest]

/-- An expression can be written if its rewriting can, as the two differ in symbols only. -/
theorem isWritable_desugar (e : Expr) : e.desugar.isWritable = e.isWritable := by
  induction e using evaluationInduction with
  | symbol x => rfl
  | literal a _ => rfl
  | embedded v => rfl
  | nil => rfl
  | items head operands hk ih =>
    rw [desugar, hk]
    show allWritable (desugarAll (head :: operands)) = _
    rw [desugarAll_eq_map]
    exact allWritable_map ih
  | lambda names body ih =>
    show (list (symbol "lambda" :: desugarLambda [list (names.map symbol), body])).isWritable = _
    rw [desugarLambda, formalNames_eq_ok_iff.mpr rfl]
    simp [isWritable, allWritable, ih]
  | letIn bindings body ihInit ihBody =>
    show (desugarLet [list bindings, body]).isWritable = _
    rw [desugarLet]
    cases hn : bindingNames? bindings with
    | none => rfl
    | some names =>
      have hinits := allWritable_desugarInits hn ihInit
      simp [isWritable, allWritable, Atom.isWritable, ihBody, hinits, Bool.and_comm]
  | ifElse operands ih =>
    show allWritable (desugarIf operands) = allWritable operands
    unfold desugarIf
    split
    · next c x => exact @allWritable_map desugar [c, x] ih
    · next c x y => exact @allWritable_map desugar [c, x, y] ih
    · rfl
  | badLambda operands h =>
    show allWritable (desugarLambda operands) = allWritable operands
    unfold desugarLambda
    split
    · next params body =>
      split
      · next names hp => exact absurd (by rw [formalNames_eq_ok_iff.mp hp]) (h names body)
      · rfl
    · rfl
  | badLet operands h =>
    show (desugarLet operands).isWritable = _
    unfold desugarLet
    split
    · exact absurd rfl (h _ _)
    · rfl

theorem Rewrites.isWritable_eq {e e' : Expr} (h : Rewrites e e') :
    e.isWritable = e'.isWritable := by
  rcases h with rfl | rfl
  · rfl
  · exact (isWritable_desugar e).symm

end Expr

/-! ## Frames that are counterparts -/

/-- Which frame of a first run has which frame of a second one as its counterpart. -/
abbrev Counterparts := Links Unit

namespace Counterparts

/-- Closures with the same parameters and corresponding bodies. -/
def Corresponds (_ : Unit) (c c' : Closure) : Prop :=
  c.formals = c'.formals ∧ Expr.Rewrites c.body c'.body

/-- Values that are equal but for closures that correspond and were made in counterparts, and hold
no host procedures. -/
abbrev value (l : Counterparts) : Value → Value → Prop := Links.value Corresponds l

/-- Counterparts bind the same names in the same order, to values that correspond, and stand inside
counterparts. -/
structure Stores (l : Counterparts) (s s' : Store) : Prop extends l.There s s' where
  bindings {p q : FrameId} : l p q () →
    EntriesMatch l.value (s.frame p).bindings (s'.frame q).bindings
  outer {p q : FrameId} : l p q () →
    Option.Rel (fun o o' => l o o' () ∧ o < p ∧ o' < q) (s.frame p).outer (s'.frame q).outer

/-- The stores have counterparts, and since the values `before` values that correspond were
printed. -/
structure Worlds (before : List Value) (l : Counterparts) (w w' : World) : Prop where
  stores : l.Stores w.store w'.store
  printed : PrintedSince before l.value w w'

/-- An expression runs beside itself or its rewriting, in counterparts. -/
def simulation (before : List Value) : Simulation Counterparts where
  worlds := Worlds before
  closure := Links.closure Corresponds
  procedure := Procedure.IsBuiltin
  error e e' := e.kind = e'.kind
  task l e f e' f' := e.Rewrites e' ∧ l f f' ()

variable {l : Counterparts}

/-- A key stands for values that correspond in counterparts. -/
theorem Stores.lookup {s s' : Store} (h : l.Stores s s') {p q : FrameId} (hpq : l p q ())
    (k : Key) : l.value (s.lookup p k) (s'.lookup q k) := by
  -- outwards, the frames are counterparts again, and older
  induction p using Nat.strongRecOn generalizing q with
  | ind p ih =>
    rw [Store.lookup_eq, Store.lookup_eq]
    have hb := (h.bindings hpq).get? k
    have ho := h.outer hpq
    generalize (s.frame p).bindings.get? k = v, (s'.frame q).bindings.get? k = v' at hb
    generalize (s.frame p).outer = o, (s'.frame q).outer = o' at ho
    cases hb with
    | some hv => exact hv
    | none =>
      cases ho with
      | none => exact trivial
      | some ho =>
        obtain ⟨hl, hp, hq⟩ := ho
        simpa only [Option.getD_none, hp, hq, if_true] using ih _ hp hl

/-- New frames inside counterparts that bind the same names to values that correspond may be
counterparts. -/
theorem Stores.push {s s' : Store} (h : l.Stores s s') {p q : FrameId} (hpq : l p q ())
    {es es' : List (String × Value)} (he : EntriesMatch l.value es es') :
    Stores (l.add s.nextId s'.nextId ()) (s.push (.ofNames es) (some p))
      (s'.push (.ofNames es') (some q)) where
  toThere := h.toThere.push_add _ _ _ _ _
  bindings := by
    rintro p' q' (hl | ⟨rfl, rfl, -⟩)
    · rw [Store.frame_push_of_lt _ _ _ (h.left hl), Store.frame_push_of_lt _ _ _ (h.right hl)]
      exact (h.bindings hl).mono fun _ _ => Links.value_mono (l.le_add _ _ _)
    · rw [Store.frame_push_self, Store.frame_push_self]
      exact he.ofNames.mono fun _ _ => Links.value_mono (l.le_add _ _ _)
  outer := by
    rintro p' q' (hl | ⟨rfl, rfl, -⟩)
    · rw [Store.frame_push_of_lt _ _ _ (h.left hl), Store.frame_push_of_lt _ _ _ (h.right hl)]
      have ho := h.outer hl
      generalize (s.frame p').outer = o, (s'.frame q').outer = o' at ho
      cases ho with
      | none => exact .none
      | some ho => exact .some ⟨.inl ho.1, ho.2⟩
    · rw [Store.frame_push_self, Store.frame_push_self]
      exact .some ⟨.inl hpq, h.left hpq, h.right hpq⟩

variable {before : List Value}

theorem lockstep_enter {p q : FrameId} (hpq : l p q ()) {es es' : List (String × Value)}
    (he : EntriesMatch l.value es es') :
    (simulation before).Lockstep l (fun l' g g' => l' g g' ())
      (Eval.enter (.ofNames es) (some p)) (Eval.enter (.ofNames es') (some q)) := by
  refine Links.lockstep_enter ?_
  intro l' w w' hl hw
  refine ⟨?_, hw.printed.imp fun _ _ => ?_⟩
  · exact hw.stores.push (hl _ _ _ hpq) (he.mono fun _ _ => Links.value_mono hl)
  · exact Links.value_mono (Links.le_add _ _ _ _)

/-! ## Single steps -/

theorem laws : (simulation before).Laws where
  closure_mono hl h := Links.closure_mono hl h
  length_eq := by
    rintro l c c' ⟨-, -, hf, -⟩
    rw [hf]
  isWritable_eq := by
    rintro l c c' ⟨-, -, -, hb⟩
    exact hb.isWritable_eq
  error_refl _ := rfl
  listExpected _ := rfl
  closureArity _ _ := rfl
  specialForm _ hw := ⟨hw.stores, hw.printed.log rfl rfl⟩
  print hv hw := ⟨hw.stores, hw.printed.print hv⟩
  applying _ _ hw := ⟨hw.stores, hw.printed.log rfl rfl⟩
  enter {l c c' args args'} hc ha _ := by
    obtain ⟨_, hl, hf, hb⟩ := hc
    rw [← hf]
    exact (lockstep_enter hl (EntriesMatch.zip c.formals ha)).imp fun _ _ _ _ hg => ⟨hb, hg⟩

theorem selfLaws : (simulation before).SelfLaws where
  lookup ht := fun l' hl _ _ hw => .ok (le_refl l') hw (hw.stores.lookup (hl _ _ _ ht.2) _)
  item _ ht _ := ⟨.refl _, ht.2⟩
  ifOperand ht _ := ⟨.refl _, ht.2⟩
  lambda ht _ := ⟨(), ht.2, rfl, .refl _⟩
  letInit ht _ _ := ⟨.refl _, ht.2⟩
  letEnter ht hl he _ := (lockstep_enter (hl _ _ _ ht.2) he).imp fun _ _ _ _ hg => ⟨.refl _, hg⟩

/-! ## `let` beside its rewriting -/

section Let

variable {r r' : Evaluator} (hr : (simulation before).Follows r r') {f f' : FrameId}
include hr

/-- The expressions of bindings beside the arguments that they are rewritten to. -/
theorem lockstep_inits (hf : l f f' ()) {bs : List Expr} {names : List String}
    (hn : bindingNames? bs = some names) :
    (simulation before).Lockstep l
      (fun l' es vs' => ∃ vs, es = names.zip vs ∧ vs.length = names.length ∧
        List.Forall₂ l'.value vs vs')
      (evalBindings r.evaluate f bs) (r'.evaluateAll f' (Expr.desugarInits bs)) := by
  induction bs generalizing names with
  | nil =>
    cases hn
    exact Simulation.Lockstep.pure fun _ _ => ⟨[], rfl, rfl, .nil⟩
  | cons b bs ih =>
    cases hb : b.binding? with
    | none =>
      rw [bindingNames?, hb] at hn
      cases hn
    | some ne =>
      obtain ⟨n, e⟩ := ne
      rw [bindingNames?_cons hb] at hn
      obtain ⟨names', hn', rfl⟩ := Option.map_eq_some_iff.mp hn
      rw [Expr.desugarInits_cons hb]
      unfold evalBindings
      rw [hb]
      have he : (simulation before).Lockstep l (simulation before).value (r.evaluate e f)
          (r'.evaluate e.desugar f') := hr ⟨.inr rfl, hf⟩
      refine he.bind fun l₁ v v' hl₁ hv => ((ih hn').mono hl₁).bind fun l₂ es vs' hl₂ hes => ?_
      obtain ⟨vs, rfl, hlen, hvs⟩ := hes
      refine Simulation.Lockstep.pure fun l₃ hl₃ => ⟨v :: vs, rfl, ?_, .cons ?_ ?_⟩
      · rw [List.length_cons, List.length_cons, hlen]
      · exact Links.value_mono (hl₂.trans hl₃) hv
      · exact hvs.imp fun _ _ => Links.value_mono hl₃

/-- The body of `let` in its frame beside the application of the closure that it is rewritten
to. -/
theorem lockstep_body (hf : l f f' ()) {names : List String} {vs vs' : List Value}
    (hlen : vs.length = names.length) (hvs : List.Forall₂ l.value vs vs') (body : Expr) :
    (simulation before).Lockstep l (simulation before).value
      (Eval.enter (.ofNames (names.zip vs)) (some f) >>= fun g => r.evaluate body g)
      (r'.applyOrList (.closure names body.desugar f') vs' f') := by
  have hlen' : vs'.length = names.length := by rw [← hvs.length_eq, hlen]
  simp only [Evaluator.applyOrList, Value.isApplicable, if_true, Evaluator.applyWith,
    Eval.enterClosure, hlen']
  refine (lockstep_enter hf (EntriesMatch.zip names hvs)).bind fun l₁ g g' _ hg => ?_
  -- the application makes an entry in its log where the `let` makes none
  intro l' hl w w' hw
  exact hr ⟨.inr rfl, hg⟩ l' hl w _ ⟨hw.stores, hw.printed.log_right rfl⟩

/-- A well-formed `let` beside the application that it is rewritten to, if the second evaluator is
deep enough to evaluate the head of it. -/
theorem lockstep_let (hf : l f f' ()) {bs : List Expr} {names : List String}
    (hn : bindingNames? bs = some names) (body : Expr)
    (hlambda : r'.evaluate (.list [.symbol "lambda", .list (names.map .symbol), body.desugar]) f' =
      Eval.emit (.specialForm .lambda) >>= fun _ => pure (.closure names body.desugar f')) :
    (simulation before).Lockstep l (simulation before).value
      (r.evaluateWith (.list [.symbol "let", .list bs, body]) f)
      (r'.evaluateWith (Expr.desugarLet [.list bs, body]) f') := by
  rw [Expr.desugarLet, hn]
  -- both sides as sequences of the same parts: expressions, new frame, body
  show (simulation before).Lockstep l (simulation before).value
    (Eval.emit (.specialForm .letIn) >>= fun _ => letForm r.evaluate f [.list bs, body])
    (r'.evaluate (.list [.symbol "lambda", .list (names.map .symbol), body.desugar]) f' >>=
      fun v => r'.evaluateAll f' (Expr.desugarInits bs) >>= fun vs => r'.applyOrList v vs f')
  rw [hlambda]
  simp only [bind_assoc, pure_bind]
  have hlog : (simulation before).Lockstep l (fun _ _ _ => True)
      (Eval.emit (.specialForm .letIn)) (Eval.emit (.specialForm .lambda)) :=
    .emit fun _ hw => ⟨hw.stores, hw.printed.log rfl rfl⟩
  refine hlog.bind fun l₁ _ _ hl₁ _ => ?_
  refine (lockstep_inits hr (hl₁ _ _ _ hf) hn).bind fun l₂ es vs' hl₂ hes => ?_
  obtain ⟨vs, rfl, hlen, hvs⟩ := hes
  exact lockstep_body hr (hl₂ _ _ _ (hl₁ _ _ _ hf)) hlen hvs body

end Let

/-- An evaluator that gives up at once gives up on the parts of `let`. -/
theorem letForm_bottom {bs : List Expr} {names : List String} (hn : bindingNames? bs = some names)
    (body : Expr) (f : FrameId) (w : World) :
    letForm Evaluator.bottom.evaluate f [.list bs, body] w = none := by
  cases bs with
  | nil => rfl
  | cons b bs =>
    cases hb : b.binding? with
    | none =>
      rw [bindingNames?, hb] at hn
      cases hn
    | some ne =>
      have hnone : evalBindings Evaluator.bottom.evaluate f (b :: bs) w = none := by
        rw [evalBindings, hb]
        rfl
      rw [letForm, Eval.bind_apply, hnone]

theorem lockstep_lambdaForm {f f' : FrameId} (hf : l f f' ()) (operands : List Expr) :
    (simulation before).Lockstep l (simulation before).value
      (Eval.ofExcept (lambdaForm f operands))
      (Eval.ofExcept (lambdaForm f' (Expr.desugarLambda operands))) := by
  have hself : (simulation before).Lockstep l (simulation before).value
      (Eval.ofExcept (lambdaForm f operands)) (Eval.ofExcept (lambdaForm f' operands)) :=
    selfLaws.lockstep_lambdaForm laws ⟨.refl _, hf⟩
  unfold Expr.desugarLambda
  split
  · split
    · next params body _ names hnames =>
      rw [lambdaForm, lambdaForm, hnames]
      refine Simulation.Lockstep.pure fun l' hl => Value.matches_closure.mpr ?_
      exact ⟨(), hl _ _ _ hf, rfl, .inr rfl⟩
    · exact hself
  · exact hself

section Depth

variable {n : Nat} (hr : (simulation before).Follows (.upTo n) (.upTo n)) {f f' : FrameId}
  (hf : l f f' ())
include hr hf

theorem lockstep_desugarLet (operands : List Expr) :
    (simulation before).Lockstep l (simulation before).value
      ((Evaluator.upTo n).evaluateWith (.list (.symbol "let" :: operands)) f)
      ((Evaluator.upTo n).evaluateWith (Expr.desugarLet operands) f') := by
  have hself : (simulation before).Lockstep l (simulation before).value
      ((Evaluator.upTo n).evaluateWith (.list (.symbol "let" :: operands)) f)
      ((Evaluator.upTo n).evaluateWith (.list (.symbol "let" :: operands)) f') :=
    selfLaws.lockstep_evaluateWith laws hr
      (Simulation.HostFollows.of_builtin fun _ => id) ⟨.refl _, hf⟩
  unfold Expr.desugarLet
  split
  · next bs body =>
    cases hn : bindingNames? bs with
    | none => exact hself
    | some names =>
      simp only
      cases n with
      | zero =>
        -- the `let` has no depth left for its body, the application none for its head
        intro l' _ w w' _
        have hleft : (Evaluator.upTo 0).evaluateWith
            (.list [.symbol Keyword.letIn.name, .list bs, body]) f w = none := by
          rw [Evaluator.evaluateWith_keyword, Eval.bind_apply]
          exact letForm_bottom hn body f _
        rw [show "let" = Keyword.letIn.name from rfl, hleft]
        exact .exhausted
      | succ n =>
        have hlambda := (Evaluator.upTo n).evaluateWith_lambda names body.desugar f'
        have h := lockstep_let hr hf hn body hlambda
        rw [Expr.desugarLet, hn] at h
        exact h
  · exact hself

/-- Operands and what they are rewritten to. -/
theorem lockstep_parts {es es' : List Expr} (hes : List.Forall₂ Expr.Rewrites es es') :
    List.Forall₂ (fun e e' => (simulation before).Lockstep l (simulation before).value
      ((Evaluator.upTo n).evaluate e f) ((Evaluator.upTo n).evaluate e' f')) es es' :=
  hes.imp fun _ _ he => hr ⟨he, hf⟩

theorem lockstep_application {head : Expr} (hk : Evaluator.keyword? head = none)
    (operands : List Expr) :
    (simulation before).Lockstep l (simulation before).value
      ((Evaluator.upTo n).evaluateWith (.list (head :: operands)) f)
      ((Evaluator.upTo n).evaluateWith (.list (head.desugar :: Expr.desugarAll operands)) f') := by
  have hk' := Expr.keyword?_desugar hk
  have hhead : (simulation before).Lockstep l (simulation before).value
      ((Evaluator.upTo n).evaluate head f) ((Evaluator.upTo n).evaluate head.desugar f') :=
    hr ⟨.inr rfl, hf⟩
  rw [Evaluator.evaluateWith_list _ hk, Evaluator.evaluateWith_list _ hk']
  refine hhead.bind fun l₁ v v' hl₁ hv => ?_
  have hparts := lockstep_parts hr (hl₁ _ _ _ hf) (Expr.rewrites_desugarAll operands)
  refine (laws.evaluateAll hparts).bind fun l₂ vs vs' hl₂ hvs => ?_
  exact laws.applyOrList hr (Simulation.HostFollows.of_builtin fun _ => id)
    (Links.value_mono hl₂ hv) hvs

/-- One level deeper an expression runs in lockstep with its rewriting. -/
theorem lockstep_desugar (e : Expr) :
    (simulation before).Lockstep l (simulation before).value
      ((Evaluator.upTo n).evaluateWith e f) ((Evaluator.upTo n).evaluateWith e.desugar f') := by
  have hself : (simulation before).Lockstep l (simulation before).value
      ((Evaluator.upTo n).evaluateWith e f) ((Evaluator.upTo n).evaluateWith e f') :=
    selfLaws.lockstep_evaluateWith laws hr
      (Simulation.HostFollows.of_builtin fun _ => id) ⟨.refl _, hf⟩
  match e with
  | .atom _ | .embedded _ | .list [] => exact hself
  | .list (head :: operands) =>
    rw [Expr.desugar]
    cases hk : Evaluator.keyword? head with
    | none => exact lockstep_application hr hf hk operands
    | some k =>
      rw [Evaluator.keyword?_eq_some_iff] at hk
      subst hk
      cases k with
      | letIn => exact lockstep_desugarLet hr hf operands
      | lambda =>
        simp only
        rw [Evaluator.evaluateWith_keyword, Evaluator.evaluateWith_keyword]
        exact (laws.lockstep_specialForm _).bind fun l₁ _ _ hl₁ _ =>
          lockstep_lambdaForm (hl₁ _ _ _ hf) operands
      | ifElse =>
        simp only
        rw [Evaluator.evaluateWith_keyword, Evaluator.evaluateWith_keyword]
        refine (laws.lockstep_specialForm _).bind fun l₁ _ _ hl₁ _ => laws.ifForm ?_
        exact lockstep_parts hr (hl₁ _ _ _ hf) (Expr.rewrites_desugarIf operands)

end Depth

/-- At each depth, an expression runs in lockstep with itself and with its rewriting. -/
theorem follows_upTo (n : Nat) : (simulation before).Follows (.upTo n) (.upTo n) := by
  induction n with
  | zero => exact fun _ => Simulation.Lockstep.exhausted
  | succ n ih =>
    rintro l e e' f f' ⟨rfl | rfl, hf⟩
    · exact selfLaws.lockstep_evaluateWith laws ih
        (Simulation.HostFollows.of_builtin fun _ => id) ⟨.refl _, hf⟩
    · exact lockstep_desugar ih hf e

/-- What can be reached from `f` may be its own counterpart. -/
theorem stores_self {s : Store} (hs : s.WellFormed) {f : FrameId} (hf : f < s.nextId)
    (hh : s.HostFree f) : Stores (fun p q _ => s.Reaches f p ∧ p = q) s s where
  left hl := hs.reaches_lt hf hl.1
  right := by
    rintro p q - ⟨hp, rfl⟩
    exact hs.reaches_lt hf hp
  bindings := by
    rintro p q ⟨hp, rfl⟩
    refine List.forall₂_same.mpr fun e he => ⟨rfl, ?_⟩
    refine Value.Matches.of_within (hh.sealed.value hp he) fun c hc => ?_
    exact ⟨(), ⟨hc, rfl⟩, rfl, .refl _⟩
  outer := by
    rintro p q ⟨hp, rfl⟩
    cases ho : (s.frame p).outer with
    | none => exact .none
    | some o => exact .some ⟨⟨hp.outer ho, rfl⟩, hs.outer_lt ho, hs.outer_lt ho⟩

end Counterparts

/-! ## Answers -/

/-- Values agree if they are equal but for closures, and these have the same parameters, the body
of the second is that of the first or what it is rewritten to, and they were made in frames that
bind the same names in the same order to values that agree, inside frames that do so too. -/
def Value.Agrees (s s' : Store) (v v' : Value) : Prop :=
  ∃ l : Counterparts, l.Stores s s' ∧ l.value v v'

/-- Both answers are failures, of the same kind, or both are values, which agree. -/
def AnswersAgree (s s' : Store) : Except Error Value → Except Error Value → Prop
  | .error e, .error e' => e.kind = e'.kind
  | .ok v, .ok v' => v.Agrees s s' v'
  | _, _ => False

/-- **`let` is the application of a `lambda`.** An expression and what it is rewritten to run
forever together, or have answers that agree and print values that agree, one by one. -/
theorem Expr.evaluate_desugar {e : Expr} {f : FrameId} {w : World} (hs : w.store.WellFormed)
    (hf : f < w.store.nextId) (hh : w.store.HostFree f) :
    RunsForever e f w ∧ RunsForever e.desugar f w ∨
      ∃ r r' w₁ w₂ vs vs', Finishes e f w (r, w₁) ∧ Finishes e.desugar f w (r', w₂) ∧
        AnswersAgree w₁.store w₂.store r r' ∧
        w₁.printed = w.printed ++ vs ∧ w₂.printed = w.printed ++ vs' ∧
        List.Forall₂ (Value.Agrees w₁.store w₂.store) vs vs' := by
  have hw : Counterparts.Worlds w.printed (fun p q _ => w.store.Reaches f p ∧ p = q) w w :=
    ⟨Counterparts.stores_self hs hf hh, .refl w⟩
  have hstep : ∀ n, (Counterparts.simulation w.printed).Answers _
      (Counterparts.simulation w.printed).value (evaluate n e f w) (evaluate n e.desugar f w) :=
    fun n => Counterparts.follows_upTo n ⟨.inr rfl, .self, rfl⟩ _ (le_refl _) w w hw
  obtain hforever | ⟨⟨r, w₁⟩, ⟨r', w₂⟩, hr, hr', ha⟩ := Simulation.ends_or_runsForever hstep
  · exact .inl hforever
  · refine .inr ⟨r, r', w₁, w₂, ?_⟩
    cases ha with
    | ok _ hw hv =>
      obtain ⟨vs, vs', hvs, hvs', hvv⟩ := hw.printed
      refine ⟨vs, vs', hr, hr', ⟨_, hw.stores, hv⟩, hvs, hvs', ?_⟩
      exact hvv.imp fun _ _ hv => ⟨_, hw.stores, hv⟩
    | error _ hw he =>
      obtain ⟨vs, vs', hvs, hvs', hvv⟩ := hw.printed
      refine ⟨vs, vs', hr, hr', he, hvs, hvs', ?_⟩
      exact hvv.imp fun _ _ hv => ⟨_, hw.stores, hv⟩

/-- `(let ((x (print x)) (x f)) (lambda () (let () x)))` -/
def Expr.rebinding : Expr :=
  .list [.symbol "let",
    .list [.list [.symbol "x", .list [.symbol "print", .symbol "x"]],
      .list [.symbol "x", .symbol "f"]],
    .list [.symbol "lambda", .list [], .list [.symbol "let", .list [], .symbol "x"]]]

/-- A name that is bound twice, and a `let` without bindings in a closure that escapes. -/
theorem Expr.evaluate_rebinding :
    Expr.rebinding.desugar =
        .list [.list [.symbol "lambda", .list [.symbol "x", .symbol "x"],
            .list [.symbol "lambda", .list [],
              .list [.list [.symbol "lambda", .list [], .symbol "x"]]]],
          .list [.symbol "print", .symbol "x"], .symbol "f"] ∧
      (RunsForever .rebinding 1 ⟨.nested, true, "", #[]⟩ ∧
          RunsForever Expr.rebinding.desugar 1 ⟨.nested, true, "", #[]⟩ ∨
        ∃ r r' w₁ w₂ vs vs', Finishes .rebinding 1 ⟨.nested, true, "", #[]⟩ (r, w₁) ∧
          Finishes Expr.rebinding.desugar 1 ⟨.nested, true, "", #[]⟩ (r', w₂) ∧
          AnswersAgree w₁.store w₂.store r r' ∧ w₁.printed = vs ∧ w₂.printed = vs' ∧
          List.Forall₂ (Value.Agrees w₁.store w₂.store) vs vs') :=
  ⟨rfl, Expr.evaluate_desugar Store.nested_wellFormed (show 1 < 3 by decide)
    (Store.nested_hostFree 1)⟩

end MiniLisp
