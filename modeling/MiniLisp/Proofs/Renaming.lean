import Mathlib.Data.List.Forall2
import MiniLisp.Proofs.Forms
import MiniLisp.Proofs.Matching
import MiniLisp.Proofs.Writable

/-!
# Renaming parameters

A parameter of a `lambda` may be given another name, if every place in the body that refers to it
is. Which places these are is told by the special forms: not the keyword at the head of one, nothing
inside where the name is bound again, and nothing that is never evaluated because the form around it
is malformed.

An expression and what it is renamed to are *alike* with respect to a correspondence of names: they
are made in the same way, and where one refers to a name the other refers to a corresponding one.
Binders change the correspondence for what stands inside.

## Main definitions

* `Expr.rename p q`: an expression with `q` in place of `p` where it is referred to
* `Expr.Replaces a a' e e'`: the expression `a'` stands in `e'` where `a` is evaluated in `e`
* `Expr.Alike R e e'`: the expressions are alike with respect to `R`

## Main results

* `Expr.Alike.self`, `Expr.Alike.rename`: an expression is like itself and like what it is renamed
  to
* `Expr.Alike.renameParameter`: a `lambda` is like what it becomes if one of its parameters is
  renamed
* `Expr.Replaces.alike`: expressions are alike that differ in a place where others that are alike
  stand
-/

namespace MiniLisp

/-! ## The renaming -/

/-- The name `q` in place of `p`. -/
def renameName (p q s : String) : String := if s = p then q else s

namespace Expr

mutual

/-- The expression with `q` in place of `p` wherever it refers to a variable of that name. -/
def rename (p q : String) : Expr → Expr
  | atom (.symbol s) => symbol (renameName p q s)
  | list (head :: operands) =>
    match Evaluator.keyword? head with
    | some .lambda => list (head :: renameLambda p q operands)
    | some .letIn => list (head :: renameLet p q operands)
    | some .ifElse => list (head :: renameIf p q operands)
    | none => list (rename p q head :: renameAll p q operands)
  | e => e

/-- The expressions, each with `q` in place of `p`. -/
def renameAll (p q : String) : List Expr → List Expr
  | [] => []
  | e :: es => rename p q e :: renameAll p q es

/-- The operands of `lambda`. The body of a well-formed one refers to `p` unless that is one of the
parameters. -/
def renameLambda (p q : String) : List Expr → List Expr
  | [list params, body] =>
    match formalNames params with
    | .ok names => [list params, if p ∈ names then body else rename p q body]
    | .error _ => [list params, body]
  | operands => operands

/-- The operands of `let`. The body of a well-formed one refers to `p` unless that is one of the
names bound. -/
def renameLet (p q : String) : List Expr → List Expr
  | [list bindings, body] =>
    match bindingNames? bindings with
    | some names =>
      [list (renameBindings p q bindings), if p ∈ names then body else rename p q body]
    | none => [list (renameBindings p q bindings), body]
  | operands => operands

/-- The bindings of `let`, up to the first that is malformed. -/
def renameBindings (p q : String) : List Expr → List Expr
  | list [atom (.symbol n), e] :: bs => list [symbol n, rename p q e] :: renameBindings p q bs
  | bs => bs

/-- The operands of `if`, if there are two or three. -/
def renameIf (p q : String) : List Expr → List Expr
  | [c, t] => [rename p q c, rename p q t]
  | [c, t, e] => [rename p q c, rename p q t, rename p q e]
  | operands => operands

end

/-- `a.Replaces a' e e'`: at a place of `e` that may be evaluated stands `a`, and `e'` is `e` with
`a'` in that place. -/
inductive Replaces (a a' : Expr) : Expr → Expr → Prop
  | self : Replaces a a' a a'
  | head {e e' : Expr} (operands : List Expr) :
    Replaces a a' e e' → Replaces a a' (list (e :: operands)) (list (e' :: operands))
  | operand {head e e' : Expr} (before after : List Expr) :
    Evaluator.keyword? head = none → Replaces a a' e e' →
      Replaces a a' (list (head :: (before ++ e :: after))) (list (head :: (before ++ e' :: after)))
  | ifOperand {e e' : Expr} (before after : List Expr) :
    before.length + after.length = 1 ∨ before.length + after.length = 2 → Replaces a a' e e' →
      Replaces a a' (list (symbol "if" :: (before ++ e :: after)))
        (list (symbol "if" :: (before ++ e' :: after)))
  | lambdaBody {e e' : Expr} (names : List String) :
    Replaces a a' e e' → Replaces a a' (lambda names e) (lambda names e')
  -- the bindings after this one may be malformed
  | letInit {e e' : Expr} {names : List String} {before : List Expr} (n : String)
      (after : List Expr) (body : Expr) :
    bindingNames? before = some names → Replaces a a' e e' →
      Replaces a a' (list [symbol "let", list (before ++ list [symbol n, e] :: after), body])
        (list [symbol "let", list (before ++ list [symbol n, e'] :: after), body])
  | letBody {e e' : Expr} {names : List String} {bindings : List Expr} :
    bindingNames? bindings = some names → Replaces a a' e e' →
      Replaces a a' (list [symbol "let", list bindings, e]) (list [symbol "let", list bindings, e'])

end Expr

/-! ## Forms of which nothing is evaluated -/

/-- The form is malformed in such a way that nothing in it is evaluated. -/
def Keyword.Rejects (k : Keyword) (operands : List Expr) : Prop :=
  ∃ e, ∀ ev f, k.run ev f operands = Eval.raise e

namespace Expr

/-- The symbols in a list are those in its items. -/
theorem mem_symbols_list {x : String} {es : List Expr} :
    x ∈ (list es).symbols ↔ ∃ e ∈ es, x ∈ e.symbols := by
  rw [symbols]
  induction es with
  | nil => simp [symbolsAll]
  | cons e es ih => simp [symbolsAll, ih]

/-- A name that bindings bind stands at the head of one of them. -/
theorem exists_of_mem_bindingNames {bs : List Expr} {names : List String}
    (h : bindingNames? bs = some names) {n : String} (hn : n ∈ names) :
    ∃ e, list [symbol n, e] ∈ bs := by
  induction bs generalizing names with
  | nil =>
    cases h
    cases hn
  | cons b bs ih =>
    cases hb : b.binding? with
    | none =>
      rw [bindingNames?, hb] at h
      cases h
    | some me =>
      rw [bindingNames?_cons hb] at h
      obtain ⟨names', h', rfl⟩ := Option.map_eq_some_iff.mp h
      rw [binding?_eq_some_iff] at hb
      rcases List.mem_cons.mp hn with rfl | hn
      · exact ⟨me.2, hb ▸ List.mem_cons_self⟩
      · obtain ⟨e, he⟩ := ih h' hn
        exact ⟨e, List.mem_cons_of_mem _ he⟩

/-- Nothing of a `lambda` is evaluated whose operands are not names in a list and a body. -/
theorem rejects_lambda {operands : List Expr}
    (h : ∀ (names : List String) body, operands ≠ [list (names.map symbol), body]) :
    Keyword.lambda.Rejects operands := by
  have hrejects : ∀ {e}, (∀ f, lambdaForm f operands = .error e) →
      Keyword.lambda.Rejects operands := fun {e} he =>
    ⟨e, fun ev f => by rw [Keyword.run, he f]; rfl⟩
  unfold lambdaForm at hrejects
  split at hrejects
  · next params body =>
    cases hp : formalNames params with
    | ok names => exact absurd (by rw [formalNames_eq_ok_iff.mp hp]) (h names body)
    | error e =>
      simp only [hp] at hrejects
      exact hrejects fun _ => rfl
  · exact hrejects fun _ => rfl
  · exact hrejects fun _ => rfl

/-- Nothing of a `let` is evaluated whose operands are not bindings in a list and a body. -/
theorem rejects_let {operands : List Expr}
    (h : ∀ bindings body, operands ≠ [list bindings, body]) : Keyword.letIn.Rejects operands := by
  have hrejects : ∀ {e}, (∀ ev f, letForm ev f operands = Eval.raise e) →
      Keyword.letIn.Rejects operands := fun {e} he => ⟨e, he⟩
  unfold letForm at hrejects
  split at hrejects
  · exact absurd rfl (h _ _)
  · exact hrejects fun _ _ => rfl
  · exact hrejects fun _ _ => rfl

end Expr

/-! ## Expressions that are alike -/

namespace Expr

mutual

/-- The expressions are made in the same way, and where one refers to a name the other refers to one
that corresponds to it. -/
inductive Alike : Names → Expr → Expr → Prop
  | symbol {R : Names} {x y : String} : R x y → Alike R (symbol x) (symbol y)
  | literal {R : Names} {a : Atom} : (∀ x, a ≠ .symbol x) → Alike R (atom a) (atom a)
  | embedded {R : Names} (v : Value) : Alike R (embedded v) (embedded v)
  | nil {R : Names} : Alike R (list []) (list [])
  | items {R : Names} {head head' : Expr} {operands operands' : List Expr} :
    Evaluator.keyword? head = none → Evaluator.keyword? head' = none →
      AllAlike R (head :: operands) (head' :: operands') →
        Alike R (list (head :: operands)) (list (head' :: operands'))
  | lambda {R : Names} {names names' : List String} {body body' : Expr} :
    names.length = names'.length → Alike (R.bindAll names names') body body' →
      Alike R (lambda names body) (lambda names' body')
  | letIn {R : Names} {bindings bindings' : List Expr} {body body' : Expr} :
    BindingsAlike R bindings bindings' →
      (∀ names, bindingNames? bindings = some names →
        Alike (R.bindAll names names) body body') →
      (bindingNames? bindings = none → body = body') →
      Alike R (list [.symbol "let", list bindings, body])
        (list [.symbol "let", list bindings', body'])
  | ifElse {R : Names} {operands operands' : List Expr} :
    AllAlike R operands operands' →
      Alike R (list (.symbol "if" :: operands)) (list (.symbol "if" :: operands'))
  | rejected {R : Names} {k : Keyword} {operands : List Expr} :
    k.Rejects operands →
      Alike R (list (.symbol k.name :: operands)) (list (.symbol k.name :: operands))

/-- The expressions are alike one by one. -/
inductive AllAlike : Names → List Expr → List Expr → Prop
  | nil {R : Names} : AllAlike R [] []
  | cons {R : Names} {e e' : Expr} {es es' : List Expr} :
    Alike R e e' → AllAlike R es es' → AllAlike R (e :: es) (e' :: es')

/-- The bindings give the same names to expressions that are alike, up to the first that is
malformed; from there on they are the same. -/
inductive BindingsAlike : Names → List Expr → List Expr → Prop
  | nil {R : Names} : BindingsAlike R [] []
  | cons {R : Names} {n : String} {e e' : Expr} {bs bs' : List Expr} :
    Alike R e e' → BindingsAlike R bs bs' →
      BindingsAlike R (list [.symbol n, e] :: bs) (list [.symbol n, e'] :: bs')
  | malformed {R : Names} {b : Expr} {bs : List Expr} :
    b.binding? = none → BindingsAlike R (b :: bs) (b :: bs)

end

variable {R : Names}

theorem AllAlike.of_forall₂ {es es' : List Expr} (h : List.Forall₂ (Alike R) es es') :
    AllAlike R es es' := by
  induction h with
  | nil => exact .nil
  | cons he _ ih => exact .cons he ih

theorem AllAlike.forall₂ : ∀ {es es' : List Expr}, AllAlike R es es' → List.Forall₂ (Alike R) es es'
  | _, _, .nil => .nil
  | _, _, .cons he hes => .cons he hes.forall₂

/-- Bindings are like themselves if the expressions in them are. -/
theorem BindingsAlike.self {bs : List Expr} (h : ∀ n e, list [.symbol n, e] ∈ bs → Alike R e e) :
    BindingsAlike R bs bs := by
  induction bs with
  | nil => exact .nil
  | cons b bs ih =>
    cases hb : b.binding? with
    | none => exact .malformed hb
    | some ne =>
      obtain ⟨n, e⟩ := ne
      rw [binding?_eq_some_iff] at hb
      subst hb
      refine .cons (h n e List.mem_cons_self) (ih fun m e' he' => ?_)
      exact h m e' (List.mem_cons_of_mem _ he')

/-- An expression is like itself if each of its symbols corresponds to itself. -/
theorem Alike.self {e : Expr} (h : ∀ x ∈ e.symbols, R x x) : Alike R e e := by
  induction e using evaluationInduction generalizing R with
  | symbol x => exact .symbol (h x List.mem_cons_self)
  | literal a ha => exact .literal ha
  | embedded v => exact .embedded v
  | nil => exact .nil
  | items head operands hk ih =>
    refine .items hk hk (.of_forall₂ (List.forall₂_same.mpr fun e he => ih e he fun x hx => ?_))
    exact h x (mem_symbols_list.mpr ⟨e, he, hx⟩)
  | lambda names body ih =>
    refine .lambda rfl (ih fun x hx => Names.bindAll_self (.inl (h x ?_)))
    exact mem_symbols_list.mpr ⟨body, by simp, hx⟩
  | letIn bindings body ihInit ihBody =>
    refine .letIn (.self fun n e he => ihInit n e he fun x hx => h x ?_)
      (fun names _ => ihBody fun x hx => Names.bindAll_self (.inl (h x ?_))) fun _ => rfl
    · refine mem_symbols_list.mpr ⟨list bindings, by simp, mem_symbols_list.mpr ⟨_, he, ?_⟩⟩
      exact mem_symbols_list.mpr ⟨e, by simp, hx⟩
    · exact mem_symbols_list.mpr ⟨body, by simp, hx⟩
  | ifElse operands ih =>
    refine .ifElse (.of_forall₂ (List.forall₂_same.mpr fun e he => ih e he fun x hx => ?_))
    exact h x (mem_symbols_list.mpr ⟨e, List.mem_cons_of_mem _ he, hx⟩)
  | badLambda operands hops => exact .rejected (rejects_lambda hops)
  | badLet operands hops => exact .rejected (rejects_let hops)

mutual

/-- Expressions that are alike can be written together, as they differ in symbols only. -/
theorem Alike.isWritable_eq : ∀ {R : Names} {e e' : Expr}, Alike R e e' →
    e.isWritable = e'.isWritable
  | _, _, _, .symbol _ | _, _, _, .literal _ | _, _, _, .embedded _ => rfl
  | _, _, _, .nil | _, _, _, .rejected _ => rfl
  | _, _, _, .items _ _ hes => hes.allWritable_eq
  | _, _, _, .lambda _ hbody => by simp [Expr.isWritable, Expr.allWritable, hbody.isWritable_eq]
  | _, _, _, @Alike.letIn _ bindings _ body body' hbs hbody hsame => by
    have hbodies : body.isWritable = body'.isWritable := by
      cases hn : bindingNames? bindings with
      | none => rw [hsame hn]
      | some names => exact (hbody names hn).isWritable_eq
    simp [Expr.isWritable, Expr.allWritable, hbs.allWritable_eq, hbodies]
  | _, _, _, .ifElse hes => hes.allWritable_eq

theorem AllAlike.allWritable_eq : ∀ {R : Names} {es es' : List Expr}, AllAlike R es es' →
    Expr.allWritable es = Expr.allWritable es'
  | _, _, _, .nil => rfl
  | _, _, _, .cons he hes => congrArg₂ and he.isWritable_eq hes.allWritable_eq

theorem BindingsAlike.allWritable_eq : ∀ {R : Names} {bs bs' : List Expr}, BindingsAlike R bs bs' →
    Expr.allWritable bs = Expr.allWritable bs'
  | _, _, _, .nil | _, _, _, .malformed _ => rfl
  | _, _, _, .cons he hbs => by
    simp [Expr.isWritable, Expr.allWritable, he.isWritable_eq, hbs.allWritable_eq]

end

/-! ## Expressions and what they are renamed to -/

section Rename

variable {p q : String}

theorem rename_lambda (operands : List Expr) :
    rename p q (list (.symbol "lambda" :: operands)) =
      list (.symbol "lambda" :: renameLambda p q operands) := by
  rw [rename]
  rfl

theorem rename_let (operands : List Expr) :
    rename p q (list (.symbol "let" :: operands)) =
      list (.symbol "let" :: renameLet p q operands) := by
  rw [rename]
  rfl

theorem rename_if (operands : List Expr) :
    rename p q (list (.symbol "if" :: operands)) =
      list (.symbol "if" :: renameIf p q operands) := by
  rw [rename]
  rfl

/-- The operands of a malformed `lambda` are left alone. -/
theorem renameLambda_malformed {operands : List Expr}
    (h : ∀ (names : List String) body, operands ≠ [list (names.map .symbol), body]) :
    renameLambda p q operands = operands := by
  unfold renameLambda
  split
  · next params body =>
    split
    · next names hp => exact absurd (by rw [formalNames_eq_ok_iff.mp hp]) (h names body)
    · rfl
  · rfl

/-- The operands of a `let` without bindings in a list or without a body are left alone. -/
theorem renameLet_malformed {operands : List Expr}
    (h : ∀ bindings body, operands ≠ [list bindings, body]) :
    renameLet p q operands = operands := by
  unfold renameLet
  split
  · exact absurd rfl (h _ _)
  · rfl

theorem renameBindings_cons {b e : Expr} {n : String} (h : b.binding? = some (n, e))
    (bs : List Expr) :
    renameBindings p q (b :: bs) = list [.symbol n, rename p q e] :: renameBindings p q bs := by
  rw [binding?_eq_some_iff] at h
  rw [h, renameBindings]

theorem renameBindings_malformed {b : Expr} (h : b.binding? = none) (bs : List Expr) :
    renameBindings p q (b :: bs) = b :: bs := by
  unfold renameBindings
  split
  · next heq =>
    obtain ⟨rfl, rfl⟩ := List.cons.inj heq
    cases h
  · rfl

theorem renameAll_eq_map (es : List Expr) : renameAll p q es = es.map (rename p q) := by
  induction es with
  | nil => rfl
  | cons e es ih => rw [renameAll, ih, List.map_cons]

/-- Bindings are like what they are renamed to if the expressions in them are. -/
theorem BindingsAlike.rename {bs : List Expr}
    (h : ∀ n e, list [.symbol n, e] ∈ bs → Alike R e (e.rename p q)) :
    BindingsAlike R bs (renameBindings p q bs) := by
  induction bs with
  | nil => exact .nil
  | cons b bs ih =>
    cases hb : b.binding? with
    | none =>
      rw [renameBindings_malformed hb]
      exact .malformed hb
    | some ne =>
      obtain ⟨n, e⟩ := ne
      rw [renameBindings_cons hb]
      rw [binding?_eq_some_iff] at hb
      subst hb
      refine .cons (h n e List.mem_cons_self) (ih fun m e' he' => ?_)
      exact h m e' (List.mem_cons_of_mem _ he')

/-- Operands of `if` are like what they are renamed to, or nothing of them is evaluated. -/
theorem Alike.renameIf {operands : List Expr}
    (h : ∀ e ∈ operands, Alike R e (e.rename p q)) :
    Alike R (list (.symbol "if" :: operands))
      (list (.symbol "if" :: Expr.renameIf p q operands)) := by
  match operands with
  | [] => exact .rejected (k := .ifElse) ⟨_, fun _ _ => rfl⟩
  | [_] => exact .rejected (k := .ifElse) ⟨_, fun _ _ => rfl⟩
  | _ :: _ :: _ :: _ :: _ => exact .rejected (k := .ifElse) ⟨_, fun _ _ => rfl⟩
  | [c, t] => exact .ifElse (.cons (h c (by simp)) (.cons (h t (by simp)) .nil))
  | [c, t, e] =>
    exact .ifElse (.cons (h c (by simp)) (.cons (h t (by simp)) (.cons (h e (by simp)) .nil)))

/-- A renaming makes no keyword of what is none. -/
theorem keyword?_rename (hq : Keyword.ofName? q = none) {e : Expr}
    (h : Evaluator.keyword? e = none) : Evaluator.keyword? (e.rename p q) = none := by
  cases e with
  | atom a =>
    cases a with
    | symbol s =>
      rw [Expr.rename, renameName]
      split
      · exact hq
      · exact h
    | _ => rfl
  | embedded v => rfl
  | list items =>
    cases items with
    | nil => rfl
    | cons head operands =>
      rw [Expr.rename]
      split <;> rfl

/-- What it takes for an expression to be like what it is renamed to: `p` corresponds to `q`, which
does not occur in the expression, and the other symbols correspond to themselves. -/
structure Renamable (p q : String) (R : Names) (e : Expr) : Prop where
  renamed : R p q
  fresh : q ∉ e.symbols
  other : ∀ x ∈ e.symbols, x ≠ p → R x x

theorem Renamable.item {es : List Expr} (h : Renamable p q R (list es)) {e : Expr} (he : e ∈ es) :
    Renamable p q R e where
  renamed := h.renamed
  fresh hq := h.fresh (mem_symbols_list.mpr ⟨e, he, hq⟩)
  other x hx := h.other x (mem_symbols_list.mpr ⟨e, he, hx⟩)

/-- Under a binder that binds neither `p` nor `q` they correspond as before; and under one that
binds `p` an expression is not renamed. -/
theorem Renamable.under {e : Expr} (h : Renamable p q R e) {names : List String} (hq : q ∉ names)
    (ih : ∀ {R : Names}, Renamable p q R e → Alike R e (e.rename p q)) :
    Alike (R.bindAll names names) e (if p ∈ names then e else e.rename p q) := by
  split
  · next hp =>
    refine .self fun x hx => Names.bindAll_self ?_
    by_cases hxp : x = p
    · exact .inr (hxp ▸ hp)
    · exact .inl (h.other x hx hxp)
  · next hp =>
    refine ih ⟨Names.bindAll_of_notMem hp hq h.renamed, h.fresh, fun x hx hxp => ?_⟩
    exact Names.bindAll_self (.inl (h.other x hx hxp))

/-- An expression is like what it is renamed to. -/
theorem Alike.rename (hq : Keyword.ofName? q = none) {e : Expr} (h : Renamable p q R e) :
    Alike R e (e.rename p q) := by
  -- for all correspondences at once, since the names that an expression binds change it inside
  induction e using evaluationInduction generalizing R with
  | symbol x =>
    rw [Expr.rename, renameName]
    split
    · next hx => exact .symbol (hx ▸ h.renamed)
    · next hx => exact .symbol (h.other x List.mem_cons_self hx)
  | literal a ha =>
    cases a with
    | symbol x => exact absurd rfl (ha x)
    | _ => exact .literal ha
  | embedded v => exact .embedded v
  | nil => exact .nil
  | items head operands hk ih =>
    rw [Expr.rename, hk]
    refine .items hk (keyword?_rename hq hk) ?_
    rw [← renameAll, renameAll_eq_map]
    refine .of_forall₂ (List.forall₂_map_right_iff.mpr (List.forall₂_same.mpr fun e he => ?_))
    exact ih e he (h.item he)
  | lambda names body ih =>
    rw [rename_lambda]
    simp only [renameLambda, formalNames_eq_ok_iff.mpr rfl]
    refine .lambda rfl ((h.item (by simp)).under (fun hn => ?_) fun h => ih h)
    refine (h.item (e := list (names.map .symbol)) (by simp)).fresh ?_
    exact mem_symbols_list.mpr ⟨.symbol q, List.mem_map_of_mem hn, List.mem_cons_self⟩
  | letIn bindings body ihInit ihBody =>
    have hbs := h.item (e := list bindings) (by simp)
    have hinits : BindingsAlike R bindings (renameBindings p q bindings) :=
      .rename fun n e he => ihInit n e he ((hbs.item he).item (by simp))
    rw [rename_let]
    simp only [renameLet]
    cases hn : bindingNames? bindings with
    | none => exact .letIn hinits (fun _ h => nomatch hn.symm.trans h) fun _ => rfl
    | some names =>
      refine .letIn hinits (fun names' h' => ?_) fun h' => nomatch hn.symm.trans h'
      cases hn.symm.trans h'
      refine (h.item (by simp)).under (fun hq' => hbs.fresh ?_) fun h => ihBody h
      obtain ⟨e, he⟩ := exists_of_mem_bindingNames hn hq'
      have hsymbol : q ∈ (list [.symbol q, e]).symbols :=
        mem_symbols_list.mpr ⟨_, List.mem_cons_self, List.mem_cons_self⟩
      exact mem_symbols_list.mpr ⟨_, he, hsymbol⟩
  | ifElse operands ih =>
    rw [rename_if]
    exact .renameIf fun e he => ih e he (h.item (List.mem_cons_of_mem _ he))
  | badLambda operands hops =>
    rw [rename_lambda, renameLambda_malformed hops]
    exact .rejected (k := .lambda) (rejects_lambda hops)
  | badLet operands hops =>
    rw [rename_let, renameLet_malformed hops]
    exact .rejected (k := .letIn) (rejects_let hops)

/-- A `lambda` is like what it becomes if one of its parameters is renamed. -/
theorem Alike.renameParameter (hkey : Keyword.ofName? q = none) {names : List String} {body : Expr}
    (hp : p ∈ names) (hq : q ∉ (Expr.lambda names body).symbols) (hR : ∀ x, R x x) :
    Alike R (.lambda names body) (.lambda (names.map (renameName p q)) (body.rename p q)) := by
  have hbody : q ∉ body.symbols := fun h => hq (mem_symbols_list.mpr ⟨body, by simp, h⟩)
  have hnames : ∀ n ∈ names, n ≠ q := by
    rintro n hn rfl
    refine hq (mem_symbols_list.mpr ⟨list (names.map .symbol), by simp, ?_⟩)
    exact mem_symbols_list.mpr ⟨.symbol n, List.mem_map_of_mem hn, List.mem_cons_self⟩
  -- since `q` is new, the renaming tells the parameters from each other and from other names
  have hcorresponds : ∀ x, x ≠ q → (R x (renameName p q x) ∨ x ∈ names) →
      R.bindAll names (names.map (renameName p q)) x (renameName p q x) := by
    intro x hx h
    refine Names.bindAll_map _ (fun n hn hsame => ?_) h
    unfold renameName at hsame
    grind
  refine .lambda (by simp) (.rename hkey ⟨?_, hbody, fun x hx hxp => ?_⟩)
  · simpa [renameName] using hcorresponds p (hnames p hp) (.inr hp)
  · have hxq : x ≠ q := fun h => hbody (h ▸ hx)
    simpa [renameName, hxp] using hcorresponds x hxq (.inl (by simpa [renameName, hxp] using hR x))

end Rename

/-! ## Expressions that differ in one place -/

section Replaces

variable {a a' e e' : Expr}

theorem Replaces.keyword?_left (h : a.Replaces a' e e') (ha : Evaluator.keyword? a = none) :
    Evaluator.keyword? e = none := by
  cases h with
  | self => exact ha
  | _ => rfl

theorem Replaces.keyword?_right (h : a.Replaces a' e e') (ha' : Evaluator.keyword? a' = none) :
    Evaluator.keyword? e' = none := by
  cases h with
  | self => exact ha'
  | _ => rfl

/-- The same expressions but for one in the middle. -/
theorem AllAlike.middle (hR : ∀ x, R x x) (before after : List Expr) (h : Alike R e e') :
    AllAlike R (before ++ e :: after) (before ++ e' :: after) := by
  have hsame : ∀ es : List Expr, List.Forall₂ (Alike R) es es := fun es =>
    List.forall₂_same.mpr fun e _ => .self fun x _ => hR x
  exact .of_forall₂ (List.rel_append (hsame before) (.cons h (hsame after)))

/-- The same bindings but for the expression of one, which comes after well-formed ones. -/
theorem BindingsAlike.middle (hR : ∀ x, R x x) {before : List Expr} {names : List String}
    (hbefore : bindingNames? before = some names) (n : String) (after : List Expr)
    (h : Alike R e e') :
    BindingsAlike R (before ++ list [.symbol n, e] :: after)
      (before ++ list [.symbol n, e'] :: after) := by
  have hsame : ∀ e, Alike R e e := fun e => .self fun x _ => hR x
  induction before generalizing names with
  | nil => exact .cons h (.self fun _ e _ => hsame e)
  | cons b bs ih =>
    cases hb : b.binding? with
    | none =>
      rw [bindingNames?, hb] at hbefore
      cases hbefore
    | some me =>
      rw [bindingNames?_cons hb] at hbefore
      obtain ⟨names', h', -⟩ := Option.map_eq_some_iff.mp hbefore
      rw [binding?_eq_some_iff] at hb
      subst hb
      exact .cons (hsame _) (ih h')

/-- Expressions are alike that differ in a place where others that are alike stand. -/
theorem Replaces.alike (h : a.Replaces a' e e') (hk : Evaluator.keyword? a = none)
    (hk' : Evaluator.keyword? a' = none) (ha : ∀ {R : Names}, (∀ x, R x x) → Alike R a a')
    (hR : ∀ x, R x x) : Alike R e e' := by
  have hbound : ∀ {R : Names} (names : List String), (∀ x, R x x) →
      ∀ x, R.bindAll names names x x := fun names hR x => Names.bindAll_self (.inl (hR x))
  induction h generalizing R with
  | self => exact ha hR
  | head operands h ih =>
    exact .items (h.keyword?_left hk) (h.keyword?_right hk') (.middle hR [] operands (ih hR))
  | operand before after hhead h ih =>
    exact .items hhead hhead (.middle hR (_ :: before) after (ih hR))
  | ifOperand before after hlen h ih => exact .ifElse (.middle hR before after (ih hR))
  | lambdaBody names h ih => exact .lambda rfl (ih (hbound names hR))
  | letInit n after body hbefore h ih =>
    refine .letIn (.middle hR hbefore n after (ih hR)) (fun names _ => ?_) fun _ => rfl
    exact .self fun x _ => hbound names hR x
  | letBody hn h ih =>
    refine .letIn (.self fun _ e _ => .self fun x _ => hR x) (fun names _ => ih (hbound names hR))
      fun h' => nomatch hn.symm.trans h'

end Replaces

end Expr

end MiniLisp
