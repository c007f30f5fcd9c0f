import MiniLisp.Proofs.Links
import MiniLisp.Proofs.Renaming

/-!
# Runs of renamed expressions

Parameters may be renamed without changing what an expression does. The expression and the renamed
one are run side by side. A frame of the one run is linked to a frame of the other under a
correspondence of names: names that correspond have matching values in the two. The frame of a
parameter is linked to that of the renamed one with the two names corresponding to each other, and
closures match if their bodies are alike under the correspondence that their parameters make of the
one for the frames in which they were made.

## Main definitions

* `Renamings.Alike R c c'`: closures whose bodies are alike
* `Renamings.simulation`: runs of expressions that are alike
* `Value.SameButClosures`: values are equal, but a closure matches any other

## Main results

* `Renamings.follows_upTo`: expressions that are alike run in lockstep
* `Expr.evaluate_renamed`: an expression and the one with a parameter renamed have answers that
  match, and print values that match
-/

namespace MiniLisp

/-! ## Side by side -/

namespace Renamings

/-- Closures with the same number of parameters, whose bodies are alike when the parameters
correspond to each other. -/
def Alike (R : Names) (c c' : Closure) : Prop :=
  c.formals.length = c'.formals.length ∧
    Expr.Alike (R.bindAll c.formals c'.formals) c.body c'.body

/-- Values that are equal but for closures that are alike, and hold no host procedures. -/
abbrev value (l : Links Names) : Value → Value → Prop := l.value Alike

/-- The stores are linked, and since the values `before` matching values were printed. -/
structure Worlds (before : List Value) (l : Links Names) (w w' : World) : Prop where
  stores : l.NamesMatch Alike w.store w'.store
  printed : PrintedSince before (value l) w w'

/-- Runs of expressions that are alike, in frames that are linked. -/
def simulation (before : List Value) : Simulation (Links Names) where
  worlds := Worlds before
  closure := Links.closure Alike
  procedure := Procedure.IsBuiltin
  error e e' := e.kind = e'.kind
  task l e f e' f' := ∃ R, l f f' R ∧ Expr.Alike R e e'

variable {before : List Value} {l : Links Names}

theorem lockstep_enter {p q : FrameId} {R : Names} (hR : l p q R) {es es' : List (String × Value)}
    (he : List.Forall₂ (value l) (es.map Prod.snd) (es'.map Prod.snd)) :
    (simulation before).Lockstep l
      (fun l' g g' => l' g g' (R.bindAll (es.map Prod.fst) (es'.map Prod.fst)))
      (Eval.enter (.ofNames es) (some p)) (Eval.enter (.ofNames es') (some q)) := by
  refine Links.lockstep_enter ?_
  intro l' w w' hl hw
  refine ⟨?_, hw.printed.imp fun _ _ => ?_⟩
  · exact hw.stores.push (hl _ _ _ hR) (he.imp fun _ _ => Links.value_mono hl)
  · exact Links.value_mono (Links.le_add _ _ _ _)

/-! ## Single steps -/

theorem laws : (simulation before).Laws where
  closure_mono hl h := Links.closure_mono hl h
  length_eq := by
    rintro l c c' ⟨-, -, hlen, -⟩
    exact hlen
  isWritable_eq := by
    rintro l c c' ⟨_, -, -, hbody⟩
    exact hbody.isWritable_eq
  error_refl _ := rfl
  listExpected _ := rfl
  closureArity _ _ := rfl
  specialForm _ hw := ⟨hw.stores, hw.printed.log rfl rfl⟩
  print hv hw := ⟨hw.stores, hw.printed.print hv⟩
  applying _ _ hw := ⟨hw.stores, hw.printed.log rfl rfl⟩
  enter {l c c' args args'} hc ha hargs := by
    obtain ⟨R, hR, hlen, hbody⟩ := hc
    have hargs' : args'.length = c'.formals.length := by rw [← ha.length_eq, hargs, hlen]
    have he : List.Forall₂ (value l) ((c.formals.zip args).map Prod.snd)
        ((c'.formals.zip args').map Prod.snd) := by
      rwa [List.map_snd_zip (Nat.le_of_eq hargs), List.map_snd_zip (Nat.le_of_eq hargs')]
    refine (lockstep_enter hR he).imp fun l' g g' _ hg => ⟨_, hg, ?_⟩
    rwa [List.map_fst_zip (Nat.le_of_eq hargs.symm), List.map_fst_zip (Nat.le_of_eq hargs'.symm)]

/-! ## Expressions that are alike -/

section Alike

variable {r r' : Evaluator} (hr : (simulation before).Follows r r') {f f' : FrameId} {R : Names}
  (hR : l f f' R)
include hr hR

theorem lockstep_parts {es es' : List Expr} (h : Expr.AllAlike R es es') :
    List.Forall₂ (fun e e' => (simulation before).Lockstep l (simulation before).value
      (r.evaluate e f) (r'.evaluate e' f')) es es' :=
  h.forall₂.imp fun _ _ he => hr ⟨R, hR, he⟩

/-- Bindings that are alike give the same names matching values. -/
theorem lockstep_evalBindings {bs bs' : List Expr} (h : Expr.BindingsAlike R bs bs') :
    (simulation before).Lockstep l
      (fun l' es es' => EntriesMatch (value l') es es' ∧ bindingNames? bs = some (es.map Prod.fst))
      (evalBindings r.evaluate f bs) (evalBindings r'.evaluate f' bs') := by
  induction bs generalizing bs' with
  | nil =>
    cases h
    exact Simulation.Lockstep.pure fun _ _ => ⟨.nil, rfl⟩
  | cons b bs ih =>
    cases h with
    | @cons _ n e e' _ bs' he hbs =>
      have hb : Expr.binding? (.list [.symbol n, e]) = some (n, e) := rfl
      have hv : (simulation before).Lockstep l (simulation before).value (r.evaluate e f)
          (r'.evaluate e' f') := hr ⟨R, hR, he⟩
      refine hv.bind fun l₁ v v' hl₁ hv => ((ih hbs).mono hl₁).bind fun l₂ es es' hl₂ hes => ?_
      refine Simulation.Lockstep.pure fun l₃ hl₃ => ⟨.cons ⟨rfl, ?_⟩ ?_, ?_⟩
      · exact Links.value_mono (hl₂.trans hl₃) hv
      · exact hes.1.mono fun _ _ => Links.value_mono hl₃
      · rw [bindingNames?_cons hb, hes.2]
        rfl
    | malformed hb =>
      rw [evalBindings, evalBindings, hb]
      exact laws.lockstep_raise_self _

theorem lockstep_letForm {bs bs' : List Expr} {body body' : Expr}
    (hbs : Expr.BindingsAlike R bs bs')
    (hbody : ∀ names, bindingNames? bs = some names →
      Expr.Alike (R.bindAll names names) body body') :
    (simulation before).Lockstep l (simulation before).value (letForm r.evaluate f [.list bs, body])
      (letForm r'.evaluate f' [.list bs', body']) := by
  refine (lockstep_evalBindings hr hR hbs).bind fun l₁ es es' hl₁ hes => ?_
  obtain ⟨hes, hnames⟩ := hes
  refine (lockstep_enter (hl₁ _ _ _ hR) hes.map_snd).bind fun l₂ g g' _ hg => hr ⟨_, hg, ?_⟩
  rw [← hes.map_fst]
  exact hbody _ hnames

/-- One level deeper, expressions that are alike run in lockstep. -/
theorem lockstep_evaluateWith {e e' : Expr} (h : Expr.Alike R e e') :
    (simulation before).Lockstep l (simulation before).value (r.evaluateWith e f)
      (r'.evaluateWith e' f') := by
  cases h with
  | symbol hxy => exact fun l' hl _ _ hw => .ok (le_refl l') hw (hw.stores.lookup (hl _ _ _ hR) hxy)
  | @literal _ a ha =>
    cases a with
    | symbol x => exact absurd rfl (ha x)
    | number n => exact Simulation.Lockstep.pure fun _ _ => rfl
    | str s => exact Simulation.Lockstep.pure fun _ _ => rfl
  | embedded v => exact laws.lockstep_raise_self _
  | nil => exact Simulation.Lockstep.pure fun _ _ => Value.matches_list.mpr .nil
  | @items _ head head' operands operands' hk hk' hes =>
    have hparts := lockstep_parts hr hR hes
    rw [Evaluator.evaluateWith_list _ hk, Evaluator.evaluateWith_list _ hk']
    obtain ⟨hhead, hoperands⟩ := List.forall₂_cons.mp hparts
    refine hhead.bind fun l₁ v v' hl₁ hv => ?_
    refine (laws.evaluateAll (hoperands.imp fun _ _ he => he.mono hl₁)).bind ?_
    exact fun l₂ vs vs' hl₂ hvs =>
      laws.applyOrList hr (Simulation.HostFollows.of_builtin fun _ => id)
        (Links.value_mono hl₂ hv) hvs
  | @lambda _ names names' body body' hlen hbody =>
    rw [Evaluator.evaluateWith_lambda, Evaluator.evaluateWith_lambda]
    refine (laws.lockstep_specialForm _).bind fun l₁ _ _ hl₁ _ => ?_
    refine Simulation.Lockstep.pure fun l₂ hl₂ => ?_
    exact Value.matches_closure.mpr ⟨R, hl₂ _ _ _ (hl₁ _ _ _ hR), hlen, hbody⟩
  | letIn hbs hbody _ =>
    rw [show "let" = Keyword.letIn.name from rfl, Evaluator.evaluateWith_keyword,
      Evaluator.evaluateWith_keyword]
    exact (laws.lockstep_specialForm _).bind fun l₁ _ _ hl₁ _ =>
      lockstep_letForm hr (hl₁ _ _ _ hR) hbs hbody
  | ifElse hes =>
    rw [show "if" = Keyword.ifElse.name from rfl, Evaluator.evaluateWith_keyword,
      Evaluator.evaluateWith_keyword]
    exact (laws.lockstep_specialForm _).bind fun l₁ _ _ hl₁ _ =>
      laws.ifForm (lockstep_parts hr (hl₁ _ _ _ hR) hes)
  | rejected hrejects =>
    obtain ⟨e, hrun⟩ := hrejects
    rw [Evaluator.evaluateWith_keyword, Evaluator.evaluateWith_keyword, hrun, hrun]
    exact (laws.lockstep_specialForm _).bind fun _ _ _ _ _ => laws.lockstep_raise_self _

end Alike

/-- At each depth, expressions that are alike run in lockstep. -/
theorem follows_upTo (n : Nat) : (simulation before).Follows (.upTo n) (.upTo n) := by
  induction n with
  | zero => exact fun _ => Simulation.Lockstep.exhausted
  | succ n ih =>
    rintro l e e' f f' ⟨R, hR, he⟩
    exact lockstep_evaluateWith ih hR he

end Renamings

/-! ## Answers -/

/-- The values are equal, except that a closure matches any other; and they hold no host
procedures. -/
def Value.SameButClosures : Value → Value → Prop :=
  Value.Matches Procedure.IsBuiltin fun _ _ => True

/-- Both answers are failures, of the same kind, or both are values, which are the same but for
closures. -/
def AnswersSameButClosures : Except Error Value → Except Error Value → Prop
  | .error e, .error e' => e.kind = e'.kind
  | .ok v, .ok v' => v.SameButClosures v'
  | _, _ => False

/-- **Parameters may be renamed.** Let `e` be an expression in which a `lambda` stands where it may
be evaluated, and `e'` the expression with one of its parameters renamed to a symbol that does not
occur in the `lambda` and is no keyword. Then `e` and `e'` run forever together, or have answers
that are the same but for closures and print values that are so too, one by one. -/
theorem Expr.evaluate_renamed {names : List String} {body e e' : Expr} {p q : String}
    (hp : p ∈ names) (hq : q ∉ (Expr.lambda names body).symbols)
    (hkey : Keyword.ofName? q = none)
    (h : (Expr.lambda names body).Replaces
      (.lambda (names.map (renameName p q)) (body.rename p q)) e e')
    {f : FrameId} {w : World} (hs : w.store.WellFormed) (hf : f < w.store.nextId)
    (hh : w.store.HostFree f) :
    RunsForever e f w ∧ RunsForever e' f w ∨
      ∃ r r' w₁ w₂ vs vs', Finishes e f w (r, w₁) ∧ Finishes e' f w (r', w₂) ∧
        AnswersSameButClosures r r' ∧
        w₁.printed = w.printed ++ vs ∧ w₂.printed = w.printed ++ vs' ∧
        List.Forall₂ Value.SameButClosures vs vs' := by
  have halike : Expr.Alike Eq e e' :=
    h.alike rfl rfl (fun hR => .renameParameter hkey hp hq hR) fun _ => rfl
  have hself : ∀ c, Renamings.Alike Eq c c := fun c =>
    ⟨rfl, .self fun x _ => Names.bindAll_self (.inl rfl)⟩
  have hw : Renamings.Worlds w.printed (Links.still (w.store.Reaches f)) w w :=
    ⟨Links.still_namesMatch hself hh.sealed (fun _ => hs.reaches_lt hf) (Nat.le_refl _)
      fun _ _ _ => rfl, .refl w⟩
  have hstep : ∀ n, (Renamings.simulation w.printed).Answers (Links.still (w.store.Reaches f))
      (Renamings.simulation w.printed).value (evaluate n e f w) (evaluate n e' f w) := fun n =>
    Renamings.follows_upTo n ⟨Eq, ⟨rfl, .self, rfl⟩, halike⟩ _ (le_refl _) w w hw
  have hforget : ∀ {l : Links Names} {v v' : Value},
      Renamings.value l v v' → v.SameButClosures v' :=
    fun hv => Value.Matches.mono (fun _ _ _ => trivial) hv
  obtain hforever | ⟨⟨r, w₁⟩, ⟨r', w₂⟩, hr, hr', ha⟩ := Simulation.ends_or_runsForever hstep
  · exact .inl hforever
  · cases ha with
    | ok _ hw hv =>
      obtain ⟨vs, vs', hvs, hvs', hvv⟩ := hw.printed.imp fun _ _ => hforget
      exact .inr ⟨_, _, w₁, w₂, vs, vs', hr, hr', hforget hv, hvs, hvs', hvv⟩
    | error _ hw he =>
      obtain ⟨vs, vs', hvs, hvs', hvv⟩ := hw.printed.imp fun _ _ => hforget
      exact .inr ⟨_, _, w₁, w₂, vs, vs', hr, hr', he, hvs, hvs', hvv⟩

/-- `(if n (let ((if (print n))) (if x if)))` -/
def Expr.shadowed (n : String) : Expr :=
  .list [.symbol "if", .symbol n, .list [.symbol "let",
    .list [.list [.symbol "if", .list [.symbol "print", .symbol n]]],
    .list [.symbol "if", .symbol "x", .symbol "if"]]]

/-- `(print ((lambda (n x n) (if n (let ((if (print n))) (if x if)))) 1 x f))` -/
def Expr.applied (n : String) : Expr :=
  .list [.symbol "print", .list [.lambda [n, "x", n] (.shadowed n),
    .atom (.number (.int 1)), .symbol "x", .symbol "f"]]

/-- A parameter with the name of a keyword, which is given twice and bound again inside. -/
theorem Expr.evaluate_renamed_applied :
    Expr.rename "if" "z" (.shadowed "if") = .shadowed "z" ∧
      (RunsForever (.applied "if") 2 ⟨.nested, true, "", #[]⟩ ∧
          RunsForever (.applied "z") 2 ⟨.nested, true, "", #[]⟩ ∨
        ∃ r r' w₁ w₂ vs vs', Finishes (.applied "if") 2 ⟨.nested, true, "", #[]⟩ (r, w₁) ∧
          Finishes (.applied "z") 2 ⟨.nested, true, "", #[]⟩ (r', w₂) ∧
          AnswersSameButClosures r r' ∧ w₁.printed = vs ∧ w₂.printed = vs' ∧
          List.Forall₂ Value.SameButClosures vs vs') := by
  have hplace : (Expr.lambda ["if", "x", "if"] (.shadowed "if")).Replaces
      (.lambda (["if", "x", "if"].map (renameName "if" "z")) (.rename "if" "z" (.shadowed "if")))
      (.applied "if") (.applied "z") :=
    .operand [] [] rfl (.head _ .self)
  exact ⟨rfl, Expr.evaluate_renamed (by decide) (by decide) rfl hplace Store.nested_wellFormed
    (show 2 < 3 by decide) (Store.nested_hostFree 2)⟩

end MiniLisp
