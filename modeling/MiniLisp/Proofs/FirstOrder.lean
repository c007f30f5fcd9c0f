import MiniLisp.Proofs.Invariant
import MiniLisp.Proofs.Region

/-!
# Programs without closures

Evaluation in general may run forever, and what makes it do so is the application of closures. In a
program without `lambda`, evaluated where no closure and no host procedure is at hand, there never
is a closure: neither in the frames that `let` makes nor in a list, whatever is taken out of it and
applied. So nothing is applied but built-in procedures, which do not evaluate anything, and
evaluations are nested no deeper than the program is.

## Main definitions

* `Expr.depth`: how deep an expression is nested
* `Expr.LambdaFree`: no list begins with `lambda`
* `Value.FirstOrder`: no closure and no host procedure stands in the value
* `Store.around s f`: the frames outwards from `f`, and those that are yet to be made
* `Eval.Ends P m`: the computation ends in every store that satisfies `P`
* `Invariant.Total I n r`: the evaluator ends on expressions that are nested at most `n` deep

## Main results

* `Invariant.firstOrder_laws`: no closure appears from anywhere
* `Invariant.Total.evaluateWith`: one level more is enough for expressions one level deeper
* `evaluate_firstOrder`: programs without `lambda` end
-/

namespace MiniLisp

/-! ## Expressions and values -/

namespace Expr

mutual

/-- How deep an expression is nested. The parts of a list lie one level below it. -/
def depth : Expr → Nat
  | atom _ => 1
  | list items => depthAll items + 1
  | embedded _ => 1

/-- How deep the deepest of the expressions is nested. -/
def depthAll : List Expr → Nat
  | [] => 0
  | e :: es => max (depth e) (depthAll es)

end

mutual

/-- No list in the expression begins with the symbol `lambda`, wherever it stands, and no value
stands in the place of an expression. -/
def LambdaFree : Expr → Prop
  | atom _ => True
  | list items => (∀ operands, items ≠ symbol "lambda" :: operands) ∧ AllLambdaFree items
  | embedded _ => False

/-- None of the expressions has a list in it that begins with the symbol `lambda`. -/
def AllLambdaFree : List Expr → Prop
  | [] => True
  | e :: es => LambdaFree e ∧ AllLambdaFree es

end

theorem depth_pos (e : Expr) : 0 < e.depth := by
  cases e <;> simp [depth]

theorem depth_le_depthAll {e : Expr} {es : List Expr} (h : e ∈ es) : e.depth ≤ depthAll es := by
  induction es with
  | nil => cases h
  | cons e' es ih =>
    rw [depthAll]
    rcases List.mem_cons.mp h with rfl | h
    · exact Nat.le_max_left _ _
    · exact Nat.le_trans (ih h) (Nat.le_max_right _ _)

/-- The expression of a binding is nested less deep than the binding. -/
theorem depth_lt_of_binding? {b e : Expr} {n : String} (h : b.binding? = some (n, e)) :
    e.depth < b.depth := by
  rw [binding?_eq_some_iff] at h
  subst h
  rw [depth]
  exact Nat.lt_succ_of_le (depth_le_depthAll (by simp))

theorem allLambdaFree_iff {es : List Expr} : AllLambdaFree es ↔ ∀ e ∈ es, e.LambdaFree := by
  induction es with
  | nil => simp [AllLambdaFree]
  | cons e es ih => rw [AllLambdaFree, ih, List.forall_mem_cons]

end Expr

/-- No closure and no host procedure stands in the value, at any depth. -/
abbrev Value.FirstOrder (v : Value) : Prop := v.Each (Value.Within fun _ => False)

/-- What is first-order and can be applied is a built-in procedure. -/
theorem Value.FirstOrder.eq_builtin {v : Value} (h : v.FirstOrder) (happ : v.isApplicable = true) :
    ∃ b, v = .procedure (.builtin b) := by
  have hself := h.self
  cases v with
  | closure => exact hself.elim
  | procedure p =>
    cases p with
    | builtin b => exact ⟨b, rfl⟩
    | host => exact hself.elim
  | _ => cases happ

/-! ## The frames around an evaluation -/

namespace Store

variable {s : Store} {f g o : FrameId}

/-- The frames from `f` outwards, and those that are yet to be made. -/
def around (s : Store) (f g : FrameId) : Prop := g ∈ s.chain f ∨ s.nextId ≤ g

/-- In the store `s`, which was made from `s₀`, there are none but first-order values in the frames
around `f`, and the frames outwards from these are among them. -/
structure FirstOrderAround (s₀ : Store) (f : FrameId) (s : Store) : Prop where
  size : s₀.nextId ≤ s.nextId
  outer : ∀ g o, s₀.around f g → s.Outside g o → s₀.around f o
  value : ∀ g, s₀.around f g → ∀ b ∈ (s.frame g).bindings, b.2.FirstOrder

/-- To begin with, only the frames from `f` outwards matter. -/
theorem firstOrderAround_self
    (h : ∀ g ∈ s.chain f, ∀ b ∈ (s.frame g).bindings, b.2.FirstOrder) :
    FirstOrderAround s f s where
  size := Nat.le_refl _
  outer g o hg ho := by
    rcases hg with hg | hg
    · exact .inl (mem_chain_of_outside hg ho)
    · have hnone := ho.1
      rw [frame_of_le hg] at hnone
      cases hnone
  value g hg b hb := by
    rcases hg with hg | hg
    · exact h g hg b hb
    · rw [frame_of_le hg] at hb
      cases hb

namespace FirstOrderAround

variable {s₀ : Store}

theorem chain (h : FirstOrderAround s₀ f s) (hg : s₀.around f g) :
    ∀ o ∈ s.chain g, ∀ b ∈ (s.frame o).bindings, b.2.FirstOrder :=
  fun o ho => h.value o (forall_mem_chain h.outer hg o ho)

theorem push (h : FirstOrderAround s₀ f s) {b : Bindings} (ho : s₀.around f o)
    (hb : ∀ e ∈ b, e.2.FirstOrder) : FirstOrderAround s₀ f (s.push b (some o)) where
  size := by
    rw [nextId_push]
    exact Nat.le_succ_of_le h.size
  outer g p hg hp := by
    obtain ⟨houter, hlt⟩ := hp
    rcases frame_push s b (some o) g with ⟨-, hframe⟩ | hframe <;> rw [hframe] at houter
    · cases houter
      exact ho
    · exact h.outer g p hg ⟨houter, hlt⟩
  value g hg e he := by
    rcases frame_push s b (some o) g with ⟨-, hframe⟩ | hframe <;> rw [hframe] at he
    · exact hb e he
    · exact h.value g hg e he

end FirstOrderAround

end Store

/-! ## No closure appears -/

/-- Expressions have no `lambda` in them, and values are first-order. -/
def Invariant.firstOrder (s₀ : Store) (f : FrameId) : Invariant where
  store := s₀.FirstOrderAround f
  scope := s₀.around f
  frame := s₀.around f
  expr := Expr.LambdaFree
  value := Value.FirstOrder
  error _ := True

theorem Invariant.firstOrder_laws (s₀ : Store) (f : FrameId) : (firstOrder s₀ f).Laws where
  raised h := h
  unwritable _ _ := trivial
  item h hmem := Expr.allLambdaFree_iff.mp h.2 _ hmem
  literal {a} _ := by
    refine Value.Each.of_not_list ?_ ?_ <;> cases a <;> simp [Atom.value, Value.Within]
  undefined := Value.Each.of_not_list (by simp) trivial
  list := Value.each_list fun _ => trivial
  lookup k hs hg :=
    Store.lookup_of_forall_mem_chain (Value.Each.of_not_list (by simp) trivial) (hs.chain hg) k
  scope h := h
  closure he _ _ := absurd rfl (he.1 _)
  body h := h.self.elim
  enter hs ho hv := ⟨hs.push ho fun e he => hv _ (Bindings.mem_ofNames he), .inr hs.size⟩
  arity _ := trivial
  form _ _ := trivial
  listExpected _ := trivial
  notExpression h := h.elim
  host h := h.self.elim

/-! ## Evaluation ends -/

/-- From every store that satisfies `P` the computation ends. -/
def Eval.Ends {α : Type} (P : Store → Prop) (m : Eval α) : Prop :=
  ∀ w, P w.store → ∃ r, m w = some r

namespace Eval

variable {α β : Type} {P : Store → Prop} {Q : α → Prop} {X : Error → Prop}

theorem ends_pure (a : α) : Ends P (pure a) := fun w _ => ⟨(.ok a, w), rfl⟩

theorem ends_raise (e : Error) : Ends P (raise e : Eval α) := fun w _ => ⟨_, raise_apply e w⟩

theorem ends_ofExcept (r : Except Error α) : Ends P (ofExcept r) :=
  fun w _ => ⟨_, ofExcept_apply r w⟩

theorem ends_print (v : Value) : Ends P (print v) := by
  cases hv : v.isWritable with
  | true => exact fun w _ => ⟨_, by rw [print_of_isWritable hv]⟩
  | false =>
    rw [print_of_not_isWritable hv]
    exact ends_raise _

theorem Ends.bind {m : Eval α} {k : α → Eval β} (hm : Ends P m) (hkeeps : Keeps P Q X m)
    (hk : ∀ a, Q a → Ends P (k a)) : Ends P (m >>= k) := by
  intro w hw
  obtain ⟨⟨r, w₁⟩, hr⟩ := hm w hw
  obtain ⟨hw₁, hQ⟩ := hkeeps w r w₁ hw hr
  rw [bind_apply, hr]
  cases r with
  | ok a => exact hk a hQ w₁ hw₁
  | error e => exact ⟨_, rfl⟩

/-- A built-in procedure ends, for it evaluates and applies nothing. -/
theorem ends_builtin (b : Builtin) (args : List Value) : Ends P (b.invoke args) := by
  intro w hw
  cases b with
  | print =>
    simp only [Builtin.invoke, bind_apply, ofExcept_apply]
    cases Builtin.argument .print args with
    | error e => exact ⟨_, rfl⟩
    | ok v =>
      obtain ⟨⟨r, w'⟩, hr⟩ := ends_print (P := P) v w hw
      simp only [Except.mapError, hr]
      cases r <;> exact ⟨_, rfl⟩
  | first =>
    simp only [Builtin.invoke, bind_apply, ofExcept_apply]
    cases Builtin.listArgument .first args <;> exact ⟨_, rfl⟩
  | rest =>
    simp only [Builtin.invoke, bind_apply, ofExcept_apply]
    cases Builtin.listArgument .rest args <;> exact ⟨_, rfl⟩

end Eval

namespace Invariant

variable {I : Invariant}

/-- Nothing can be applied but built-in procedures. -/
def AppliesBuiltins (I : Invariant) : Prop :=
  ∀ v, I.value v → v.isApplicable = true → ∃ b, v = .procedure (.builtin b)

/-- The evaluator respects the invariant and ends on expressions nested at most `n` deep. -/
structure Total (I : Invariant) (n : Nat) (r : Evaluator) : Prop where
  respects : I.regime.Respects r
  ends {e : Expr} {f : FrameId} :
    I.expr e → e.depth ≤ n → I.frame f → Eval.Ends I.store (r.evaluate e f)

namespace Total

variable {n : Nat} {r : Evaluator} (h : I.Total n r) {f : FrameId} (hf : I.frame f)
include h hf

theorem keeps {e : Expr} (he : I.expr e) :
    Eval.Keeps I.store I.value I.error (r.evaluate e f) :=
  keeps_of_regime fun w => h.respects.evaluate (w := w) he hf

variable (L : I.Laws)
include L

theorem keepsAll {es : List Expr} (he : ∀ e ∈ es, I.expr e) :
    Eval.Keeps I.store (fun vs => ∀ v ∈ vs, I.value v) I.error (r.evaluateAll f es) :=
  keeps_of_regime fun w => L.regime.evaluateAll (w := w) h.respects hf he

theorem keepsBindings {bs : List Expr} (hb : ∀ b ∈ bs, I.expr b) :
    Eval.Keeps I.store (fun entries => ∀ v ∈ entries.map Prod.snd, I.value v) I.error
      (evalBindings r.evaluate f bs) :=
  keeps_of_regime fun w => L.regime.evalBindings (w := w) h.respects hf trivial hb

theorem evaluateAll {es : List Expr} (he : ∀ e ∈ es, I.expr e) (hn : Expr.depthAll es ≤ n) :
    Eval.Ends I.store (r.evaluateAll f es) := by
  induction es with
  | nil => exact Eval.ends_pure []
  | cons e es ih =>
    obtain ⟨he, hes⟩ := List.forall_mem_cons.mp he
    obtain ⟨hn, hns⟩ := Nat.max_le.mp hn
    refine (h.ends he hn hf).bind (h.keeps hf he) fun v _ => ?_
    exact (ih hes hns).bind (h.keepsAll hf L hes) fun vs _ => Eval.ends_pure _

theorem evalBindings {bs : List Expr} (hb : ∀ b ∈ bs, I.expr b) (hn : Expr.depthAll bs ≤ n) :
    Eval.Ends I.store (evalBindings r.evaluate f bs) := by
  induction bs with
  | nil => exact Eval.ends_pure []
  | cons b bs ih =>
    obtain ⟨hb, hbs⟩ := List.forall_mem_cons.mp hb
    obtain ⟨hn, hns⟩ := Nat.max_le.mp hn
    unfold MiniLisp.evalBindings
    split
    · next x e hbe =>
      have he : I.expr e := by
        obtain rfl := Expr.binding?_eq_some_iff.mp hbe
        exact L.item hb (by simp)
      have hen : e.depth ≤ n := Nat.le_trans (Nat.le_of_lt (Expr.depth_lt_of_binding? hbe)) hn
      refine (h.ends he hen hf).bind (h.keeps hf he) fun v _ => ?_
      exact (ih hbs hns).bind (h.keepsBindings hf L hbs) fun entries _ => Eval.ends_pure _
    · exact Eval.ends_raise _

theorem letForm {operands : List Expr} (ho : ∀ e ∈ operands, I.expr e)
    (hn : Expr.depthAll operands ≤ n) : Eval.Ends I.store (letForm r.evaluate f operands) := by
  unfold MiniLisp.letForm
  split
  · next bindings body =>
    have hbindings : ∀ b ∈ bindings, I.expr b := fun b hb =>
      L.item (ho (.list bindings) (by simp)) hb
    have hbody : I.expr body := ho body (by simp)
    have hdepth : ∀ e ∈ [.list bindings, body], e.depth ≤ n := fun e he =>
      Nat.le_trans (Expr.depth_le_depthAll he) hn
    have hbindingsn : Expr.depthAll bindings ≤ n :=
      Nat.le_of_succ_le (hdepth (.list bindings) (by simp))
    have hbodyn : body.depth ≤ n := hdepth body (by simp)
    have hkeeps := h.keepsBindings hf L hbindings
    refine (h.evalBindings hf L hbindings hbindingsn).bind hkeeps fun entries he => ?_
    intro w hw
    obtain ⟨hstore, hframe⟩ := L.enter hw (L.scope hf) he
    exact h.ends hbody hbodyn hframe (w.enter (.ofNames entries) (some f)) hstore
  · exact Eval.ends_raise _
  · exact Eval.ends_raise _

omit L in
theorem ifForm {operands : List Expr} (ho : ∀ e ∈ operands, I.expr e)
    (hn : Expr.depthAll operands ≤ n) : Eval.Ends I.store (ifForm r.evaluate f operands) := by
  have hends : ∀ e ∈ operands, Eval.Ends I.store (r.evaluate e f) := fun e he =>
    h.ends (ho e he) (Nat.le_trans (Expr.depth_le_depthAll he) hn) hf
  unfold MiniLisp.ifForm
  split
  · refine (hends _ (by simp)).bind (h.keeps hf (ho _ (by simp))) fun c _ => ?_
    split
    · exact hends _ (by simp)
    · exact Eval.ends_pure _
  · refine (hends _ (by simp)).bind (h.keeps hf (ho _ (by simp))) fun c _ => ?_
    split <;> exact hends _ (by simp)
  · exact Eval.ends_raise _
  · exact Eval.ends_raise _

/-- If nothing can be applied but built-in procedures, one level more is enough for expressions that
are nested one level deeper. -/
theorem evaluateWith (hI : I.AppliesBuiltins) {e : Expr} (he : I.expr e) (hn : e.depth ≤ n + 1) :
    Eval.Ends I.store (r.evaluateWith e f) := by
  unfold Evaluator.evaluateWith
  split
  · exact fun w _ => ⟨_, rfl⟩
  · exact Eval.ends_pure _
  · exact Eval.ends_pure _
  · next head operands =>
    obtain ⟨hheadn, hoperandsn⟩ := Nat.max_le.mp (Nat.le_of_succ_le_succ hn)
    have hhead : I.expr head := L.item he List.mem_cons_self
    have hoperands : ∀ e ∈ operands, I.expr e := fun e h => L.item he (List.mem_cons_of_mem _ h)
    split
    · next k _ =>
      show Eval.Ends I.store (Eval.emit (.specialForm k) >>= fun _ => k.run r.evaluate f operands)
      intro w hw
      have hrun : Eval.Ends I.store (k.run r.evaluate f operands) := by
        cases k with
        | lambda => exact Eval.ends_ofExcept _
        | letIn => exact h.letForm hf L hoperands hoperandsn
        | ifElse => exact h.ifForm hf hoperands hoperandsn
      exact hrun (w.log (.specialForm k)) hw
    · have hkeeps := h.keepsAll hf L hoperands
      refine (h.ends hhead hheadn hf).bind (h.keeps hf hhead) fun v hv => ?_
      refine (h.evaluateAll hf L hoperands hoperandsn).bind hkeeps fun vs _ => ?_
      unfold Evaluator.applyOrList
      split
      · next happ =>
        -- what is applied is built in, so nothing is evaluated any deeper
        obtain ⟨b, rfl⟩ := hI v hv happ
        exact Eval.ends_builtin b vs
      · exact Eval.ends_pure _
  · exact Eval.ends_raise _

end Total

/-- If nothing can be applied but built-in procedures, the evaluator of depth `n` ends on all
expressions that are nested no deeper than that. -/
theorem Laws.total (L : I.Laws) (hI : I.AppliesBuiltins) (n : Nat) : I.Total n (.upTo n) := by
  induction n with
  | zero =>
    refine ⟨L.regime.respects_upTo 0, ?_⟩
    intro e f _ hn _
    exact absurd hn (Nat.not_le.mpr e.depth_pos)
  | succ n ih =>
    refine ⟨L.regime.respects_upTo (n + 1), ?_⟩
    intro e f he hn hf
    exact ih.evaluateWith hf L hI he hn

end Invariant

/-- **Programs without `lambda` end.** An expression in which no list begins with `lambda`,
evaluated where only first-order values are bound from the frame of the evaluation outwards, ends
with a result or an error, and evaluations are nested no deeper in it than the expression itself. A
result is first-order. Wherever the evaluation may be broken off, only first-order values are bound
in the frames that were around it or were made in it, and in all frames outwards from these. -/
theorem evaluate_firstOrder {e : Expr} (he : e.LambdaFree) {f : FrameId} {w : World}
    (hw : ∀ g ∈ w.store.chain f, ∀ b ∈ (w.store.frame g).bindings, b.2.FirstOrder) :
    (∃ r w', evaluate e.depth e f w = some (r, w') ∧ ∀ v, r = .ok v → v.FirstOrder) ∧
      ∀ stop n r w', (Evaluator.stopping stop n).evaluate e f w = some (r, w') →
        ∀ g, g ∈ w.store.chain f ∨ w.store.nextId ≤ g →
          ∀ o ∈ w'.store.chain g, ∀ b ∈ (w'.store.frame o).bindings, b.2.FirstOrder := by
  have L := Invariant.firstOrder_laws w.store f
  have hstore : w.store.FirstOrderAround f w.store := Store.firstOrderAround_self hw
  have hf : w.store.around f f := by
    rw [Store.around, Store.chain]
    exact .inl List.mem_cons_self
  constructor
  · have hbuiltins : (Invariant.firstOrder w.store f).AppliesBuiltins := by
      intro v hv happ
      exact Value.FirstOrder.eq_builtin hv happ
    have htotal := L.total hbuiltins e.depth
    obtain ⟨⟨r, w'⟩, hr⟩ := htotal.ends he (Nat.le_refl _) hf w hstore
    refine ⟨r, w', hr, ?_⟩
    rintro v rfl
    exact (L.evaluate e.depth he hf w (.ok v) w' hstore hr).2
  · intro stop n r w' hr g hg
    have hrespects := L.regime.respects_stopping (fun _ _ => trivial) stop n
    obtain ⟨⟨-, hw'⟩, -⟩ := hrespects.evaluate (w := w) he hf w r w' trivial hstore hr
    exact hw'.chain hg

/-- The built-in procedures, and in a frame inside it a number and a list with procedures in it. -/
def Store.table : Store :=
  (empty.push builtinBindings none).push
    [(.name "x", .number (.int 1)),
      (.name "table",
        .list [.procedure (.builtin .print), .list [.procedure (.builtin .rest)]])] (some 0)

theorem Store.table_firstOrder (g : FrameId) :
    ∀ b ∈ (table.frame g).bindings, b.2.FirstOrder := by
  intro b hb
  obtain ⟨fr, hfr, hbfr⟩ := exists_mem_frames hb
  have hbuiltin : ∀ p, (Value.procedure (.builtin p)).FirstOrder := fun p =>
    Value.Each.of_not_list (by simp) trivial
  have hlist : ∀ vs, (Value.list vs).FirstOrder ↔ ∀ v ∈ vs, v.FirstOrder := fun vs =>
    Value.each_list fun _ => trivial
  simp only [table, builtinBindings, push, empty, Array.toList_push, List.nil_append,
    List.cons_append, List.mem_cons, List.not_mem_nil, or_false] at hfr
  rcases hfr with rfl | rfl <;>
    simp only [List.mem_cons, List.not_mem_nil, or_false] at hbfr <;>
    rcases hbfr with rfl | rfl | rfl
  case inr.inl => exact Value.Each.of_not_list (by simp) trivial
  case inr.inr => simp [hlist, hbuiltin]
  all_goals exact hbuiltin _

/-- `(let ((g (first table))) (if x (g (x "y")) z))` -/
def Expr.callFromTable : Expr :=
  .list [.symbol "let", .list [.list [.symbol "g", .list [.symbol "first", .symbol "table"]]],
    .list [.symbol "if", .symbol "x",
      .list [.symbol "g", .list [.symbol "x", .atom (.str "y")]], .symbol "z"]]

/-- A procedure is taken out of a list, bound by a `let` and applied there. -/
theorem evaluate_callFromTable :
    Expr.callFromTable.LambdaFree ∧
      (∀ g ∈ Store.table.chain 1, ∀ b ∈ (Store.table.frame g).bindings, b.2.FirstOrder) ∧
      (∃ v w', evaluate 5 .callFromTable 1 ⟨.table, true, "", #[]⟩ = some (.ok v, w') ∧
        v.FirstOrder ∧ w'.output = "(1 \"y\")\n" ∧ w'.store.nextId = 3) ∧
      ∀ stop n r w',
        (Evaluator.stopping stop n).evaluate .callFromTable 1 ⟨.table, true, "", #[]⟩ =
            some (r, w') →
          ∀ g, g ∈ Store.table.chain 1 ∨ 2 ≤ g →
            ∀ o ∈ w'.store.chain g, ∀ b ∈ (w'.store.frame o).bindings, b.2.FirstOrder := by
  have hfree : Expr.callFromTable.LambdaFree := by
    simp [Expr.callFromTable, Expr.LambdaFree, Expr.AllLambdaFree]
  have hbound : ∀ g ∈ Store.table.chain 1, ∀ b ∈ (Store.table.frame g).bindings,
      b.2.FirstOrder := fun g _ => Store.table_firstOrder g
  have hruns : (evaluate 5 .callFromTable 1 ⟨.table, true, "", #[]⟩).map (fun p =>
      (p.1.toOption.isSome, p.2.output, p.2.store.nextId)) =
        some (true, "(1 \"y\")\n", 3) := by decide +kernel
  obtain ⟨⟨r, w', hr, hv⟩, hstops⟩ :=
    evaluate_firstOrder hfree (f := 1) (w := ⟨.table, true, "", #[]⟩) hbound
  refine ⟨hfree, hbound, ?_, hstops⟩
  have hr' : evaluate 5 .callFromTable 1 ⟨.table, true, "", #[]⟩ = some (r, w') := hr
  rw [hr', Option.map_some, Option.some.injEq, Prod.mk.injEq, Prod.mk.injEq] at hruns
  obtain ⟨hok, hout, hsize⟩ := hruns
  cases r with
  | ok v => exact ⟨v, w', hr', hv v rfl, hout, hsize⟩
  | error x => cases hok

end MiniLisp
