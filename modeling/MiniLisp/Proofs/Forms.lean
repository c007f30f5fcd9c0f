import Mathlib.Data.List.Basic
import MiniLisp.Eval.Basic

/-!
# Special forms as expressions

What a special form says before it is evaluated: which names a `let` binds, which parts of an
expression may be evaluated, and which of its symbols are free, so that their meaning is taken from
the frame of the evaluation.

## Main definitions

* `bindingNames?`: the names that the bindings of `let` bind, if these are well formed
* `Expr.lambda`: a well-formed `lambda`
* `Expr.symbols`: the symbols in an expression
* `Expr.free`: the free symbols of an expression

## Main results

* `formalNames_eq_ok_iff`: parameters are well formed if they are symbols
* `Evaluator.evaluateWith_lambda`: a well-formed `lambda` makes a closure
* `Expr.evaluationInduction`: induction on the parts of an expression that may be evaluated
* `Expr.free_subset_symbols`: free symbols are symbols
* `Expr.free_subset_freeLet`, `Expr.mem_freeLet_of_mem_body`, `Expr.mem_freeLambda_of_mem_body`: the
  free symbols of the parts of a form
-/

namespace MiniLisp

/-! ## Parameters and bindings -/

/-- Parameters are well formed if they are symbols. -/
theorem formalNames_eq_ok_iff {params : List Expr} {names : List String} :
    formalNames params = .ok names ↔ params = names.map .symbol := by
  induction params generalizing names with
  | nil => cases names <;> simp [formalNames]
  | cons p ps ih =>
    unfold formalNames Expr.symbol?
    split
    · next n hp =>
      split at hp
      · cases hp
        cases names with
        | nil => cases formalNames ps <;> simp [Except.map]
        | cons m names =>
          simp only [List.map_cons, List.cons.injEq, Expr.atom.injEq, Atom.symbol.injEq, ← ih]
          cases formalNames ps <;> simp [Except.map]
      · cases hp
    · next hp =>
      cases names with
      | nil => simp
      | cons m names =>
        refine iff_of_false nofun fun h => ?_
        rw [(List.cons.inj h).1] at hp
        cases hp

/-- A well-formed `lambda` makes a closure. -/
theorem Evaluator.evaluateWith_lambda (r : Evaluator) (names : List String) (body : Expr)
    (f : FrameId) :
    r.evaluateWith (.list [.symbol "lambda", .list (names.map .symbol), body]) f =
      Eval.emit (.specialForm .lambda) >>= fun _ => pure (.closure names body f) := by
  have hform : lambdaForm f [.list (names.map .symbol), body] = .ok (.closure names body f) := by
    rw [lambdaForm, formalNames_eq_ok_iff.mpr rfl]
    rfl
  rw [show "lambda" = Keyword.lambda.name from rfl, evaluateWith_keyword, Keyword.run, hform]
  rfl

/-- The only fault of a list of parameters is a parameter that is no symbol. -/
theorem formalNames_error {params : List Expr} {e : Error} (h : formalNames params = .error e) :
    ∃ p ∈ params, e = .lambdaParameter p := by
  induction params with
  | nil => cases h
  | cons p ps ih =>
    unfold formalNames at h
    split at h
    · cases hps : formalNames ps with
      | ok names => rw [hps] at h; cases h
      | error e' =>
        rw [hps] at h
        cases h
        obtain ⟨q, hq, rfl⟩ := ih hps
        exact ⟨q, List.mem_cons_of_mem _ hq, rfl⟩
    · cases h
      exact ⟨p, List.mem_cons_self, rfl⟩

/-- The names that the bindings of `let` bind, in order, if all of them are well formed. -/
def bindingNames? : List Expr → Option (List String)
  | [] => some []
  | b :: bs =>
    match b.binding? with
    | some (n, _) => (bindingNames? bs).map (n :: ·)
    | none => none

theorem bindingNames?_cons {b : Expr} {n : String} {e : Expr} (h : b.binding? = some (n, e))
    (bs : List Expr) : bindingNames? (b :: bs) = (bindingNames? bs).map (n :: ·) := by
  rw [bindingNames?, h]

theorem Expr.binding?_eq_some_iff {b : Expr} {n : String} {e : Expr} :
    b.binding? = some (n, e) ↔ b = .list [.symbol n, e] := by
  constructor
  · intro h
    unfold binding? at h
    split at h
    · cases h
      rfl
    · cases h
  · rintro rfl
    rfl

/-! ## Parts that may be evaluated -/

namespace Expr

/-- A well-formed `lambda`. -/
abbrev lambda (names : List String) (body : Expr) : Expr :=
  list [symbol "lambda", list (names.map symbol), body]

/-- Induction on the parts of an expression that may be evaluated. -/
@[elab_as_elim]
theorem evaluationInduction {motive : Expr → Prop} (symbol : ∀ x, motive (.symbol x))
    (literal : ∀ a, (∀ x, a ≠ .symbol x) → motive (.atom a))
    (embedded : ∀ v, motive (.embedded v)) (nil : motive (.list []))
    (items : ∀ head operands, Evaluator.keyword? head = none →
      (∀ e ∈ head :: operands, motive e) → motive (.list (head :: operands)))
    (lambda : ∀ names body, motive body → motive (.lambda names body))
    (letIn : ∀ bindings body, (∀ n e, .list [.symbol n, e] ∈ bindings → motive e) → motive body →
      motive (.list [.symbol "let", .list bindings, body]))
    (ifElse : ∀ operands, (∀ e ∈ operands, motive e) →
      motive (.list (.symbol "if" :: operands)))
    (badLambda : ∀ operands,
      (∀ (names : List String) body, operands ≠ [.list (names.map .symbol), body]) →
      motive (.list (.symbol "lambda" :: operands)))
    (badLet : ∀ operands, (∀ bindings body, operands ≠ [.list bindings, body]) →
      motive (.list (.symbol "let" :: operands))) (e : Expr) : motive e := by
  induction hsize : sizeOf e using Nat.strongRecOn generalizing e with
  | ind size ih =>
    subst hsize
    match e with
    | .atom (.symbol x) => exact symbol x
    | .atom (.number n) => exact literal _ nofun
    | .atom (.str s) => exact literal _ nofun
    | .embedded v => exact embedded v
    | .list [] => exact nil
    | .list (head :: operands) =>
      have hpart : ∀ e ∈ head :: operands, motive e := fun e he => by
        have := List.sizeOf_lt_of_mem he
        exact ih (sizeOf e) (by simp at this ⊢; omega) e rfl
      cases hk : Evaluator.keyword? head with
      | none => exact items head operands hk hpart
      | some k =>
        rw [Evaluator.keyword?_eq_some_iff] at hk
        subst hk
        have hoperand : ∀ e ∈ operands, motive e := fun e he => hpart e (List.mem_cons_of_mem _ he)
        cases k with
        | ifElse => exact ifElse operands hoperand
        | lambda =>
          by_cases h : ∃ (names : List String) (body : Expr),
              operands = [.list (names.map .symbol), body]
          · obtain ⟨names, body, rfl⟩ := h
            exact lambda names body (hoperand body (by simp))
          · exact badLambda operands fun names body hops => h ⟨names, body, hops⟩
        | letIn =>
          by_cases h : ∃ bindings body, operands = [.list bindings, body]
          · obtain ⟨bindings, body, rfl⟩ := h
            refine letIn bindings body (fun n e he => ?_) (hoperand body (by simp))
            have := List.sizeOf_lt_of_mem he
            exact ih (sizeOf e) (by simp at this ⊢; omega) e rfl
          · exact badLet operands fun bindings body hops => h ⟨bindings, body, hops⟩

end Expr

/-! ## Free symbols -/

namespace Expr

mutual

/-- The symbols in an expression, wherever they stand. -/
def symbols : Expr → List String
  | atom (.symbol s) => [s]
  | atom _ => []
  | list items => symbolsAll items
  | embedded _ => []

/-- The symbols in the expressions. -/
def symbolsAll : List Expr → List String
  | [] => []
  | e :: es => symbols e ++ symbolsAll es

end

mutual

/-- The free symbols of an expression. In a malformed `lambda` or `let` all symbols count, but for
the keyword. -/
def free : Expr → List String
  | atom (.symbol s) => [s]
  | atom _ => []
  | list [] => []
  | list (head :: operands) =>
    match Evaluator.keyword? head with
    | some .lambda => freeLambda operands
    | some .letIn => freeLet operands
    | some .ifElse => freeAll operands
    | none => free head ++ freeAll operands
  | embedded _ => []

/-- The free symbols of the expressions. -/
def freeAll : List Expr → List String
  | [] => []
  | e :: es => free e ++ freeAll es

/-- The free symbols of `lambda` with the given operands. -/
def freeLambda : List Expr → List String
  | [list params, body] =>
    match formalNames params with
    | .ok names => (free body).filter (· ∉ names)
    | .error _ => symbolsAll params ++ symbols body
  | operands => symbolsAll operands

/-- The free symbols of `let` with the given operands. -/
def freeLet : List Expr → List String
  | [list bindings, body] =>
    match bindingNames? bindings with
    | some names => freeBindings bindings ++ (free body).filter (· ∉ names)
    | none => symbolsAll bindings ++ symbols body
  | operands => symbolsAll operands

/-- The free symbols of the expressions that bindings give. -/
def freeBindings : List Expr → List String
  | [] => []
  | list [_, e] :: bs => free e ++ freeBindings bs
  | _ :: bs => freeBindings bs

end

variable {x : String}

/-- What is free in one of the expressions is free in all of them. -/
theorem free_subset_freeAll {e : Expr} {es : List Expr} (he : e ∈ es) (hx : x ∈ e.free) :
    x ∈ freeAll es := by
  induction es with
  | nil => cases he
  | cons e' es ih =>
    rw [freeAll, List.mem_append]
    rcases List.mem_cons.mp he with rfl | he
    · exact .inl hx
    · exact .inr (ih he)

mutual

/-- Free symbols are symbols. -/
theorem free_subset_symbols : ∀ e : Expr, e.free ⊆ e.symbols
  | atom (.symbol _) => fun _ h => h
  | atom (.number _) => fun _ h => h
  | atom (.str _) => fun _ h => h
  | list [] => fun _ h => h
  | list (head :: operands) => by
    intro x hx
    rw [symbols, symbolsAll, List.mem_append]
    rw [free] at hx
    split at hx
    · exact .inr (freeLambda_subset_symbolsAll operands hx)
    · exact .inr (freeLet_subset_symbolsAll operands hx)
    · exact .inr (freeAll_subset_symbolsAll operands hx)
    · rw [List.mem_append] at hx
      exact hx.imp (free_subset_symbols head ·) (freeAll_subset_symbolsAll operands ·)
  | embedded _ => fun _ h => h

theorem freeAll_subset_symbolsAll : ∀ es : List Expr, freeAll es ⊆ symbolsAll es
  | [] => fun _ h => h
  | e :: es => by
    intro x hx
    rw [freeAll, List.mem_append] at hx
    rw [symbolsAll, List.mem_append]
    exact hx.imp (free_subset_symbols e ·) (freeAll_subset_symbolsAll es ·)

theorem freeLambda_subset_symbolsAll (operands : List Expr) :
    freeLambda operands ⊆ symbolsAll operands := by
  unfold freeLambda
  split
  · next params body =>
    simp only [symbolsAll, symbols, List.append_nil]
    split
    · intro x hx
      rw [List.mem_append]
      exact .inr (free_subset_symbols body (List.mem_of_mem_filter hx))
    · exact fun _ hx => hx
  · exact fun _ hx => hx

theorem freeLet_subset_symbolsAll (operands : List Expr) :
    freeLet operands ⊆ symbolsAll operands := by
  unfold freeLet
  split
  · next bindings body =>
    simp only [symbolsAll, symbols, List.append_nil]
    split
    · intro x hx
      rw [List.mem_append] at hx ⊢
      refine hx.imp (freeBindings_subset_symbolsAll bindings ·) fun hx => ?_
      exact free_subset_symbols body (List.mem_of_mem_filter hx)
    · exact fun _ hx => hx
  · exact fun _ hx => hx

theorem freeBindings_subset_symbolsAll : ∀ bs : List Expr, freeBindings bs ⊆ symbolsAll bs
  | [] => fun _ h => h
  | b :: bs => by
    intro x hx
    rw [symbolsAll, List.mem_append]
    unfold freeBindings at hx
    split at hx
    · cases hx
    · next n e bs' heq =>
      obtain ⟨rfl, rfl⟩ := List.cons.inj heq
      rw [List.mem_append] at hx
      refine hx.imp (fun hx => ?_) (freeBindings_subset_symbolsAll bs ·)
      simpa [symbols, symbolsAll] using .inr (free_subset_symbols e hx)
    · next heq =>
      obtain ⟨rfl, rfl⟩ := List.cons.inj heq
      exact .inr (freeBindings_subset_symbolsAll bs hx)

end

/-- What is free in the expression of a binding is free in its `let`. -/
theorem free_subset_freeLet {bindings : List Expr} {body b e : Expr} {n : String}
    (hb : b ∈ bindings) (he : b.binding? = some (n, e)) (hx : x ∈ e.free) :
    x ∈ freeLet [list bindings, body] := by
  have hbs : x ∈ freeBindings bindings := by
    induction bindings with
    | nil => cases hb
    | cons b' bs ih =>
      rcases List.mem_cons.mp hb with rfl | hb'
      · rw [binding?_eq_some_iff] at he
        subst he
        rw [freeBindings, List.mem_append]
        exact .inl hx
      · unfold freeBindings
        split
        · next heq => cases heq
        · next heq =>
          obtain ⟨rfl, rfl⟩ := List.cons.inj heq
          exact List.mem_append.mpr (.inr (ih hb'))
        · next heq =>
          obtain ⟨rfl, rfl⟩ := List.cons.inj heq
          exact ih hb'
  rw [freeLet]
  split
  · exact List.mem_append.mpr (.inl hbs)
  · exact List.mem_append.mpr (.inl (freeBindings_subset_symbolsAll bindings hbs))

/-- What is free in the body of a well-formed `let` is bound by it or free in it. -/
theorem mem_freeLet_of_mem_body {bindings : List Expr} {body : Expr} {names : List String}
    (hn : bindingNames? bindings = some names) (hx : x ∈ body.free) (hxn : x ∉ names) :
    x ∈ freeLet [list bindings, body] := by
  rw [freeLet, hn]
  exact List.mem_append.mpr (.inr (List.mem_filter.mpr ⟨hx, by simpa using hxn⟩))

/-- What is free in the body of a well-formed `lambda` is a parameter or free in it. -/
theorem mem_freeLambda_of_mem_body {params : List Expr} {body : Expr} {names : List String}
    (hn : formalNames params = .ok names) (hx : x ∈ body.free) (hxn : x ∉ names) :
    x ∈ freeLambda [list params, body] := by
  rw [freeLambda, hn]
  exact List.mem_filter.mpr ⟨hx, by simpa using hxn⟩

end Expr

end MiniLisp
