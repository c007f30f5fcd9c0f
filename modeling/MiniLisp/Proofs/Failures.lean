import MiniLisp.Proofs.Confinement
import MiniLisp.Proofs.Inert
import MiniLisp.Proofs.ReadAgain

/-!
# Failures of programs

A program that was read and that has nothing in reach but data, built-in procedures and closures of
such programs fails in few ways: a form or a procedure is given too many or too few operands, a
`lambda` or `let` is malformed, or a procedure for lists is given something else. Nothing that is no
procedure is applied, no value stands where an expression is expected and nothing but names is
bound. No integer gets into the failure or the log that has too many digits to be written, so to
put the failure into words does not fail.

## Main definitions

* `Value.Plain`: no integer has too many digits, and there are no host procedures
* `Error.Writable`, `Event.Writable`: what the failure or the entry is about is plain
* `Error.Documented es err`: what a program may fail with, where `es` is what it has logged

## Main results

* `Regime.plain_laws`: evaluation keeps all that is in reach plain
* `evaluate_documented`: programs fail in the documented ways, and symbols that are not bound are no
  failures
-/

namespace MiniLisp

/-! ## Plain data and programs -/

namespace Value

/-- The value itself is no host procedure, no integer in it has too many digits, and there are no
values in the body of a closure. -/
def IsPlain : Value → Prop
  | number n => n.Short
  | closure _ body _ => body.MadeOf Atom.Short
  | procedure p => p.IsBuiltin
  | _ => True

/-- All that the value holds is plain. -/
abbrev Plain (v : Value) : Prop := v.Each IsPlain

mutual

/-- What is plain can be written. -/
theorem isWritable_of_plain : ∀ {v : Value}, v.Plain → v.isWritable = true
  | .number _, h => Number.isWritable_iff.mpr h.self
  | .str _, _ => rfl
  | .list _, h => allWritable_of_plain ((each_list fun _ => trivial).mp h)
  | .undefined, _ => rfl
  | .closure _ _ _, h => Expr.MadeOf.isWritable h.self
  | .procedure _, _ => rfl

theorem allWritable_of_plain : ∀ {vs : List Value}, (∀ v ∈ vs, v.Plain) →
    Value.allWritable vs = true
  | [], _ => rfl
  | _ :: _, h => Bool.and_eq_true_iff.mpr
    ⟨isWritable_of_plain (List.forall_mem_cons.mp h).1,
      allWritable_of_plain (List.forall_mem_cons.mp h).2⟩

end

end Value

/-- What is read off a text, before a failure if there is one, is made of atoms that tokens
spell. -/
theorem madeOf_isRead_of_mem_parseAll {s : String} {e : Expr} (h : e ∈ (parseAll s).1) :
    e.MadeOf Atom.IsRead := by
  rw [parseAll_eq_readTokens] at h
  obtain ⟨ts, rest, hts, hspell, -⟩ :=
    exists_spellings_of_readTokens (Source.ofText s).drain.2 .nil (Source.ofText s).drain.1
  have hlexemes := (lexing_drain s.toList 0).isLexeme
  rw [show (Source.text s.toList 0).drain.1 = ts ++ rest from hts] at hlexemes
  refine Expr.allMadeOf_iff.mp (hspell.allMadeOf fun t ht a ha => ?_) e h
  exact ⟨t, hlexemes t (List.mem_append_left rest ht), ha⟩

/-! ## What failures and entries are about -/

/-- The expressions that a failure is about. -/
def Error.exprs : Error → List Expr
  | .lambdaParameters e | .lambdaParameter e | .letBindings e | .letBinding e => [e]
  | .closureArity _ body _ => [body]
  | _ => []

/-- The values that a failure is about. -/
def Error.values : Error → List Value
  | .listExpected _ v | .notApplicable v | .notExpression v | .notName v => [v]
  | _ => []

/-- A failure to find a form well formed is about the malformed part. -/
theorem Error.parts_of_malformed {err : Error} {k : Keyword} {part : Expr}
    (h : err.malformed? = some (k, part)) : err.exprs = [part] ∧ err.values = [] := by
  cases err with
  | lambdaParameters e | lambdaParameter e | letBindings e | letBinding e =>
    cases h
    exact ⟨rfl, rfl⟩
  | _ => cases h

/-- The expressions that an entry is about. -/
def Event.exprs : Event → List Expr
  | .parsed e | .evaluating e => [e]
  | .applying _ body _ => [body]
  | _ => []

/-- The values that an entry is about. -/
def Event.values : Event → List Value
  | .applying _ _ args => args
  | .printed v => [v]
  | _ => []

/-- What the failure is about can be written. -/
def Error.Writable (err : Error) : Prop :=
  (∀ e ∈ err.exprs, e.MadeOf Atom.Short) ∧ ∀ v ∈ err.values, v.Plain

theorem Error.Writable.isWritable {err : Error} (h : err.Writable) : err.isWritable = true := by
  obtain ⟨hexprs, hvalues⟩ := h
  cases err with
  | lambdaParameters e | lambdaParameter e | letBindings e | letBinding e =>
    exact (hexprs _ List.mem_cons_self).isWritable
  | closureArity formals body n => exact (hexprs _ List.mem_cons_self).isWritable
  | listExpected b v => exact Value.isWritable_of_plain (hvalues _ List.mem_cons_self)
  | notApplicable v | notExpression v | notName v =>
    exact Value.isWritable_of_plain (hvalues _ List.mem_cons_self)
  | _ => rfl

/-- What the entry is about can be written. -/
def Event.Writable (x : Event) : Prop :=
  (∀ e ∈ x.exprs, e.MadeOf Atom.Short) ∧ ∀ v ∈ x.values, v.Plain

/-- What a program may fail with. The entries `es` are what it has logged. -/
inductive Error.Documented (es : List Event) : Error → Prop
  | arity {err : Error} : err.kind = .arity → Documented es err
  /-- An operand, or part of one, is malformed, of a form whose evaluation had begun. -/
  | malformed {err : Error} {k : Keyword} {part : Expr} : err.kind = .form → err.position = none →
    err.malformed? = some (k, part) → .specialForm k ∈ es → Documented es err
  /-- A built-in procedure for lists was given a single argument, which is no list. -/
  | listExpected {b : Builtin} {v : Value} : b ≠ .print → (∀ vs, v ≠ .list vs) →
    Documented es (.listExpected b v)

/-- Failures of other kinds are not documented: those to read or to write, to apply what is no
procedure, to evaluate what is no expression, to bind or look up what is no name, and those of host
procedures. -/
theorem Error.Documented.ne {es : List Event} {err : Error} (h : err.Documented es) :
    (∀ e, err ≠ .read e) ∧ (∀ v, err ≠ .notApplicable v) ∧ (∀ v, err ≠ .notExpression v) ∧
      (∀ v, err ≠ .notName v) ∧ (∀ p, err ≠ .hostArguments p) ∧ err ≠ .unhashable ∧
        err ≠ .unwritable := by
  have hne : ∀ err', err'.kind ≠ .arity → err'.malformed? = none →
      (∀ b v, err' ≠ .listExpected b v) → err ≠ err' := by
    rintro err' hkind hmal hlist rfl
    cases h with
    | arity h => exact hkind h
    | malformed _ _ h _ => cases hmal.symm.trans h
    | listExpected => exact hlist _ _ rfl
  refine ⟨fun e => hne _ ?_ rfl (by simp), fun v => hne _ ?_ rfl (by simp),
    fun v => hne _ ?_ rfl (by simp), fun v => hne _ ?_ rfl (by simp),
    fun p => hne _ ?_ rfl (by simp), hne _ ?_ rfl (by simp), hne _ ?_ rfl (by simp)⟩
  · cases e <;> simp [Error.kind, ReadError.kind]
  all_goals simp [Error.kind]

/-! ## Evaluation -/

/-- What the value holds is plain, and its closures were made in frames of `G`. -/
abbrev Value.PlainIn (G : FrameId → Prop) (v : Value) : Prop :=
  v.Each fun u => u.IsPlain ∧ u.Within G

/-- What has been logged since the world `w₀`. -/
def World.Logged (w₀ w : World) (es : List Event) : Prop :=
  w.events.toList = w₀.events.toList ++ es

namespace World

variable {w₀ w : World} {es : List Event}

theorem logged_refl (w : World) : w.Logged w [] := (List.append_nil _).symm

theorem logged_log (w : World) (x : Event) : w.Logged (w.log x) [x] := Array.toList_push

theorem Logged.trans {w' : World} {es' : List Event} (h : w₀.Logged w es)
    (h' : w.Logged w' es') : w₀.Logged w' (es ++ es') := by
  rw [Logged, h', h, List.append_assoc]

end World

/-- A world in which all is plain that is in reach of the frame `f` or was made since the world
`w₀`, and all that was logged since can be written. -/
structure World.PlainSince (w₀ : World) (f : FrameId) (w : World) : Prop where
  size : w₀.store.nextId ≤ w.store.nextId
  region : w.store.Sealed (Invariant.reachable w₀.store f)
    (Value.PlainIn (Invariant.reachable w₀.store f))
  log : ∃ es, w₀.Logged w es ∧ ∀ x ∈ es, x.Writable

/-- All is plain in a world where all is plain that is in reach. -/
theorem World.plainSince_self {w : World} {f : FrameId}
    (h : ∀ g, w.store.Reaches f g → ∀ b ∈ (w.store.frame g).bindings, b.2.Plain) :
    w.PlainSince f w where
  size := Nat.le_refl _
  region := by
    have hfree : w.store.HostFree f := fun g hg b hb p hp => h g hg b hb _ hp
    have hsealed : w.store.Sealed (w.store.Reaches f) (Value.PlainIn (w.store.Reaches f)) :=
      ⟨hfree.sealed.outer, fun {g b} hg hb u hu =>
        ⟨h g hg b hb u hu, hfree.sealed.value hg hb u hu⟩⟩
    refine hsealed.union_new.imp fun v hv => hv.imp fun u hu => ?_
    exact ⟨hu.1, hu.2.mono fun g => .inl⟩
  log := ⟨[], w.logged_refl, by simp⟩

namespace World.PlainSince

variable {w₀ w : World} {f : FrameId}

theorem log_push (h : w₀.PlainSince f w) {x : Event} (hx : x.Writable) :
    w₀.PlainSince f (w.log x) where
  size := h.size
  region := h.region
  log := by
    obtain ⟨es, hes, hwritable⟩ := h.log
    refine ⟨es ++ [x], hes.trans (w.logged_log x), fun y hy => ?_⟩
    rcases List.mem_append.mp hy with hy | hy
    · exact hwritable y hy
    · rwa [List.mem_singleton.mp hy]

theorem enter (h : w₀.PlainSince f w) {b : Bindings} {o : FrameId}
    (ho : Invariant.reachable w₀.store f o)
    (hb : ∀ e ∈ b, e.2.PlainIn (Invariant.reachable w₀.store f)) :
    w₀.PlainSince f (w.enter b (some o)) where
  size := by
    show w₀.store.nextId ≤ (w.store.push b (some o)).nextId
    rw [Store.nextId_push]
    exact Nat.le_succ_of_le h.size
  region := h.region.push ho hb
  log := h.log

end World.PlainSince

/-- All is plain, and failures are the documented ones. -/
def Regime.plain (w₀ : World) (f : FrameId) : Regime where
  world := w₀.PlainSince f
  after w w' := ∃ es, w.Logged w' es
  scope _ := Invariant.reachable w₀.store f
  frame _ := Invariant.reachable w₀.store f
  expr := Expr.MadeOf Atom.Short
  value _ := Value.PlainIn (Invariant.reachable w₀.store f)
  error w err := err.Writable ∧ ∀ es, w₀.Logged w es → err.Documented es
  begun w k := ∃ es, w₀.Logged w es ∧ .specialForm k ∈ es

namespace Regime

variable {w₀ : World} {f : FrameId}

theorem plain_log {w : World} (hw : w₀.PlainSince f w) {x : Event} (hx : x.Writable) :
    (plain w₀ f).Step w (w.log x) :=
  ⟨⟨[x], w.logged_log x⟩, hw.log_push hx⟩

theorem plain_laws (w₀ : World) (f : FrameId) : (plain w₀ f).Laws where
  raised h := by rwa [Error.raised_of_isWritable h.1.isWritable]
  unwritable hv h := by
    have hplain := Value.isWritable_of_plain (hv.imp fun _ hu => hu.1)
    rw [h] at hplain
    cases hplain
  refl w := ⟨[], w.logged_refl⟩
  trans := by
    rintro w w₁ w₂ ⟨es, hes⟩ ⟨es', hes'⟩
    exact ⟨_, hes.trans hes'⟩
  frame_mono _ h := h
  scope_mono _ h := h
  value_mono _ h := h
  begun_mono := by
    rintro w w' k ⟨es, hes⟩ ⟨es₀, hes₀, hk⟩
    exact ⟨_, hes₀.trans hes, List.mem_append_left es hk⟩
  item h hmem := Expr.allMadeOf_iff.mp h _ hmem
  literal {a} _ h := by
    refine Value.Each.of_not_list ?_ ?_
    · cases a <;> simp [Atom.value]
    · cases a with
      | number n => exact ⟨h, trivial⟩
      | str s => exact ⟨trivial, trivial⟩
      | symbol n => exact ⟨trivial, trivial⟩
  undefined _ := Value.Each.of_not_list (by simp) ⟨trivial, trivial⟩
  list := Value.each_list fun _ => ⟨trivial, trivial⟩
  lookup k hw hf := hw.region.lookup (Value.Each.of_not_list (by simp) ⟨trivial, trivial⟩) hf k
  scope h := h
  closure {_ params formals body g} he _ hg := by
    have hbody : body.MadeOf Atom.Short := Expr.allMadeOf_iff.mp he body (by simp)
    exact Value.Each.of_not_list (by simp) ⟨hbody, hg⟩
  body h := h.self
  enter {w entries o} hw ho hv :=
    ⟨⟨⟨[], (List.append_nil _).symm⟩, hw.enter ho fun e he => hv _ (Bindings.mem_ofNames he)⟩,
      .inr hw.size⟩
  specialForm {w} k hw := by
    obtain ⟨es, hes, -⟩ := hw.log
    refine ⟨plain_log hw ⟨by simp [Event.exprs], by simp [Event.values]⟩, es ++ [.specialForm k],
      hes.trans (w.logged_log _), by simp⟩
  applying {w formals body args} hw hbody hargs := by
    refine plain_log hw ⟨?_, fun v hv => (hargs v hv).imp fun _ hu => hu.1⟩
    exact List.forall_mem_singleton.mpr hbody
  print {w v} hw hv := by
    have hlog : (plain w₀ f).Step w (w.log (.printed v)) := by
      refine plain_log hw ⟨by simp [Event.exprs], List.forall_mem_singleton.mpr ?_⟩
      exact hv.imp fun _ hu => hu.1
    exact ⟨hlog.1, ⟨hlog.2.size, hlog.2.region, hlog.2.log⟩⟩
  evaluating {w e} hw he :=
    plain_log hw ⟨List.forall_mem_singleton.mpr he, by simp [Event.values]⟩
  arity {w err} hkind hbody := by
    refine ⟨?_, fun es _ => .arity hkind⟩
    cases err with
    | closureArity formals body n =>
      exact ⟨List.forall_mem_singleton.mpr (hbody formals body n rfl), by simp [Error.values]⟩
    | lambdaParameters e | lambdaParameter e | letBindings e | letBinding e => cases hkind
    | listExpected b v => cases hkind
    | notApplicable v | notExpression v | notName v => cases hkind
    | _ => simp [Error.Writable, Error.exprs, Error.values]
  malformed {w err k part} hmal hbegun hpart := by
    obtain ⟨hkind, hpos⟩ := Error.form_of_malformed hmal
    obtain ⟨hexprs, hvalues⟩ := Error.parts_of_malformed hmal
    obtain ⟨es, hes, hk⟩ := hbegun
    refine ⟨⟨?_, by simp [hvalues]⟩, fun es' hes' => .malformed hkind hpos hmal ?_⟩
    · rw [hexprs]
      exact List.forall_mem_singleton.mpr hpart
    · rwa [← List.append_cancel_left (hes.symm.trans hes')]
  listExpected {w b v} hb hv hplain := by
    refine ⟨⟨by simp [Error.exprs], List.forall_mem_singleton.mpr ?_⟩, fun es _ =>
      .listExpected hb hv⟩
    exact hplain.imp fun _ hu => hu.1
  notExpression h := h.elim
  host h := h.self.1.elim

end Regime

/-- **Programs fail in the documented ways.** When an expression that was read off a text is
evaluated, and only data, built-in procedures and closures of such expressions can be reached from
the frame of the evaluation, then it can only fail because of the number of operands, because of a
malformed `lambda` or `let` that was being evaluated, or because a procedure for lists was given
something else. What the failure and the new entries of the log are about can be written. A symbol
that is bound nowhere is no failure and stands for the undefined value. -/
theorem evaluate_documented {s : String} {e : Expr} (he : parse s = .ok e ∨ e ∈ (parseAll s).1)
    {f : FrameId} {w : World}
    (hw : ∀ g, w.store.Reaches f g → ∀ b ∈ (w.store.frame g).bindings, b.2.Plain) :
    (∀ r w', Finishes e f w (r, w') → ∃ es, w.Logged w' es ∧ (∀ x ∈ es, x.Writable) ∧
      ∀ err, r = .error err → err.Documented es ∧ err.Writable ∧
        (∀ e, err ≠ .read e) ∧ (∀ v, err ≠ .notApplicable v) ∧ (∀ v, err ≠ .notExpression v) ∧
          (∀ v, err ≠ .notName v) ∧ (∀ p, err ≠ .hostArguments p) ∧ err ≠ .unhashable ∧
            err ≠ .unwritable) ∧
    ∀ x, w.store.find? f (.name x) = none → Finishes (.symbol x) f w (.ok .undefined, w) := by
  have hread : e.MadeOf Atom.IsRead := he.elim madeOf_isRead_of_parse madeOf_isRead_of_mem_parseAll
  have hshort : e.MadeOf Atom.Short := hread.imp fun _ => Atom.IsRead.short
  refine ⟨?_, fun x hx => ?_⟩
  · rintro r w' ⟨n, hr⟩
    have L := Regime.plain_laws w f
    obtain ⟨⟨-, hw'⟩, ho⟩ := L.evaluate n hshort (.inl .self) w r w' (L.refl w)
      (World.plainSince_self hw) hr
    obtain ⟨es, hes, hwritable⟩ := hw'.log
    refine ⟨es, hes, hwritable, ?_⟩
    rintro err rfl
    have hdocumented := ho.2 es hes
    exact ⟨hdocumented, ho.1, hdocumented.ne⟩
  · have hx' := finishes_atom (.symbol x) f w
    rwa [Atom.valueIn, Store.lookup, hx] at hx'

theorem Store.nested_plain (g : FrameId) : ∀ b ∈ (nested.frame g).bindings, b.2.Plain := by
  intro b hb
  obtain ⟨fr, hfr, hbfr⟩ := exists_mem_frames hb
  have hone : digitCount 1 ≤ maxIntegerDigits := by decide
  have hzero : digitCount 0 ≤ maxIntegerDigits := by decide
  simp only [nested, builtinBindings, push, empty, Array.toList_push, List.nil_append,
    List.cons_append, List.mem_cons, List.not_mem_nil, or_false] at hfr
  rcases hfr with rfl | rfl | rfl <;>
    simp only [List.mem_cons, List.not_mem_nil, or_false] at hbfr <;>
    rcases hbfr with rfl | rfl | rfl <;> refine Value.Each.of_not_list (by simp) ?_
  case inr.inl.inl => exact hone
  case inr.inl.inr => exact ⟨trivial, trivial, trivial⟩
  case inr.inr.inl => exact hzero
  all_goals trivial

/-- The form that an evaluation finds malformed. -/
def malformedForm? : Except Error Value → Option Keyword
  | .error err => err.malformed?.map Prod.fst
  | .ok _ => none

/-- In a closure a `let` is found malformed, after the value of its first binding was printed. -/
theorem evaluate_documented_malformedLet : ∃ e err w' es,
    parse "(f ((lambda (z) (let ((a (print z)) z) a)) x))" = .ok e ∧
      Finishes e 2 ⟨.nested, true, "", #[]⟩ (.error err, w') ∧
      malformedForm? (.error err) = some .letIn ∧
      World.Logged ⟨.nested, true, "", #[]⟩ w' es ∧ (∀ x ∈ es, x.Writable) ∧
      err.Documented es ∧ err.Writable := by
  have hruns : ((parse "(f ((lambda (z) (let ((a (print z)) z) a)) x))").toOption.bind fun e =>
      (evaluate 9 e 2 ⟨.nested, true, "", #[]⟩).bind fun p => malformedForm? p.1) =
        some .letIn := by decide +kernel
  obtain ⟨e, he, hruns⟩ := Option.bind_eq_some_iff.mp hruns
  obtain ⟨⟨r, w'⟩, hr, hmal⟩ := Option.bind_eq_some_iff.mp hruns
  have hparse : parse "(f ((lambda (z) (let ((a (print z)) z) a)) x))" = .ok e := by
    cases hp : parse "(f ((lambda (z) (let ((a (print z)) z) a)) x))" with
    | ok e' =>
      rw [hp] at he
      cases he
      rfl
    | error x =>
      rw [hp] at he
      cases he
  cases r with
  | ok v => cases hmal
  | error err =>
    obtain ⟨es, hes, hwritable, herr⟩ := (evaluate_documented (.inl hparse)
      (w := ⟨.nested, true, "", #[]⟩) (f := 2) fun g _ => Store.nested_plain g).1 _ w' ⟨9, hr⟩
    obtain ⟨hdocumented, herrWritable, -⟩ := herr err rfl
    exact ⟨e, err, w', es, hparse, ⟨9, hr⟩, hmal, hes, hwritable, hdocumented, herrWritable⟩

end MiniLisp
