import MiniLisp.Proofs.Failures
import MiniLisp.Proofs.Matching
import MiniLisp.Proofs.Orderly

/-!
# The texts of closures

A closure is shown as the `lambda` that makes it. For that text to be read back, its parameters have
to be words that are symbols, and its body has to be made of what can be read. No step of an
evaluation guarantees this by itself, for a closure is assembled from parts of an expression and
handed on in frames, lists and arguments. But what a host program has evaluated are expressions that
were read, and all closures stem from parts of these.

## Main definitions

* `Value.FromText`: the closures in the value have parameters and bodies that were read
* `Host.Reads`: a step of a host program that has nothing evaluated but what was read
* `Host.Sees`: what a host program gets hold of

## Main results

* `interpret_closureText`: what the text of a closure evaluates to
* `Regime.fromText_laws`: evaluation makes closures from what was read only
* `Host.interpret_display_of_sees`: the text of a closure evaluates to the closure
-/

namespace MiniLisp

/-! ## The text of a `lambda` -/

theorem Expr.texts_map_symbol (names : List String) : Expr.texts (names.map .symbol) = names := by
  induction names with
  | nil => rfl
  | cons n names ih => exact congrArg (n :: ·) ih

/-- A closure is shown as the `lambda` that makes it. -/
theorem Expr.text_lambda (formals : List String) (body : Expr) :
    (Expr.lambda formals body).text = closureText formals body.text := by
  have hparams : (Expr.list (formals.map .symbol)).text = listText formals := by
    rw [Expr.text, Expr.texts_map_symbol]
  rw [Expr.text, Expr.texts, Expr.texts, Expr.texts, Expr.texts, hparams]
  simp [listText, closureText, Expr.text, Atom.text, String.ext_iff]

theorem Expr.reread_lambda (formals : List String) (body : Expr) :
    (Expr.lambda formals body).reread = Expr.lambda formals body.reread := by
  have hparams : Expr.rereadAll (formals.map .symbol) = formals.map .symbol := by
    induction formals with
    | nil => rfl
    | cons n formals ih => exact congrArg (Expr.symbol n :: ·) ih
  simp only [Expr.reread, Expr.rereadAll, hparams, Atom.reread]

theorem Expr.madeOf_lambda {P : Atom → Prop} {formals : List String} {body : Expr} :
    (Expr.lambda formals body).MadeOf P ↔
      P (.symbol "lambda") ∧ (∀ n ∈ formals, P (.symbol n)) ∧ body.MadeOf P := by
  have hparams : Expr.AllMadeOf P (formals.map .symbol) ↔ ∀ n ∈ formals, P (.symbol n) := by
    rw [Expr.allMadeOf_iff, List.forall_mem_map]
    rfl
  simp only [Expr.MadeOf, Expr.AllMadeOf, hparams, and_true]

theorem Atom.isRead_lambda : (Atom.symbol "lambda").IsRead := by
  have hchars : "lambda".toList.all isWordChar = true := rfl
  refine ⟨⟨.word, "lambda", 0⟩, ⟨by decide, List.all_eq_true.mp hchars⟩, ?_⟩
  exact .word rfl rfl

/-- What the text of a closure evaluates to, if its parameters and its body were read: a closure
with these parameters and with the body that is read again. -/
theorem interpret_closureText {formals : List String} {body : Expr}
    (hformals : ∀ n ∈ formals, (Atom.symbol n).IsRead) (hbody : body.MadeOf Atom.IsRead) (n : Nat)
    (f : FrameId) (w : World) :
    interpret (n + 1) (closureText formals body.text) f w =
      some (.ok (.closure formals body.reread f),
        (w.log (.parsed (.lambda formals body.reread))).log (.specialForm .lambda)) := by
  have hread : (Expr.lambda formals body).MadeOf Atom.IsRead :=
    Expr.madeOf_lambda.mpr ⟨Atom.isRead_lambda, hformals, hbody⟩
  have hparse : parse (closureText formals body.text) = .ok (.lambda formals body.reread) := by
    rw [← Expr.text_lambda, ← Expr.text_reread, (Expr.readable_reread hread).parse_text,
      Expr.reread_lambda]
  have heval : ∀ w, evaluate (n + 1) (.lambda formals body.reread) f w =
      some (.ok (.closure formals body.reread f), w.log (.specialForm .lambda)) := fun w =>
    congrFun (Evaluator.evaluateWith_lambda (.upTo n) formals body.reread f) w
  rw [interpret, Eval.bind_apply, Eval.parse, hparse]
  exact heval _

/-! ## Deciding what an expression is made of -/

instance : DecidablePred Atom.IsInfinite
  | .number (.double (.infinite _)) => .isTrue trivial
  | .number (.double (.finite _ _)) => .isFalse id
  | .number (.double .nan) => .isFalse id
  | .number (.int _) => .isFalse id
  | .str _ => .isFalse id
  | .symbol _ => .isFalse id

mutual

/-- What an expression is made of can be told if it can be told of its atoms. -/
def Expr.decidableMadeOf {P : Atom → Prop} [DecidablePred P] : (e : Expr) → Decidable (e.MadeOf P)
  | .atom a => inferInstanceAs (Decidable (P a))
  | .list es => Expr.decidableAllMadeOf es
  | .embedded _ => .isFalse id

def Expr.decidableAllMadeOf {P : Atom → Prop} [DecidablePred P] :
    (es : List Expr) → Decidable (Expr.AllMadeOf P es)
  | [] => .isTrue trivial
  | e :: es =>
    @instDecidableAnd _ _ (Expr.decidableMadeOf e) (Expr.decidableAllMadeOf es)

end

instance {P : Atom → Prop} [DecidablePred P] (e : Expr) : Decidable (e.MadeOf P) :=
  e.decidableMadeOf

/-! ## Closures from texts -/

namespace Value

/-- The parameters of a closure are symbols that were read, and so is what its body is made of. -/
def IsFromText : Value → Prop
  | closure formals body _ =>
    (∀ n ∈ formals, (Atom.symbol n).IsRead) ∧ body.MadeOf Atom.IsRead
  | _ => True

/-- All closures that the value holds are made of what was read. -/
abbrev FromText (v : Value) : Prop := v.Each IsFromText

theorem fromText_of_data {v : Value} (hv : ∀ vs, v ≠ list vs)
    (hc : ∀ formals body f, v ≠ closure formals body f) : v.FromText := by
  refine Each.of_not_list hv ?_
  cases v with
  | closure formals body f => exact absurd rfl (hc formals body f)
  | _ => trivial

end Value

/-- All closures that are bound in frames or stand in the log are made of what was read. -/
structure World.FromText (w : World) : Prop where
  bound (f : FrameId) : ∀ b ∈ (w.store.frame f).bindings, b.2.FromText
  logged : ∀ x ∈ w.events, ∀ v ∈ x.values, v.FromText

namespace World.FromText

variable {w : World}

theorem sealed (h : w.FromText) : w.store.Sealed (fun _ => True) Value.FromText :=
  ⟨fun _ _ => trivial, fun {f _} _ he => h.bound f _ he⟩

theorem log (h : w.FromText) {x : Event} (hx : ∀ v ∈ x.values, v.FromText) :
    (w.log x).FromText where
  bound := h.bound
  logged y hy := by
    rcases Array.mem_push.mp hy with hy | rfl
    · exact h.logged y hy
    · exact hx

theorem print (h : w.FromText) {v : Value} (hv : v.FromText) : (w.print v).FromText where
  bound := h.bound
  logged := (h.log (x := .printed v) (List.forall_mem_singleton.mpr hv)).logged

theorem enter (h : w.FromText) {b : Bindings} (hb : ∀ e ∈ b, e.2.FromText)
    (o : Option FrameId) : (w.enter b o).FromText where
  bound f e he := by
    rcases w.store.frame_push b o f with ⟨-, hf⟩ | hf
    · exact hb e (by rwa [World.enter, hf] at he)
    · exact h.bound f e (by rwa [World.enter, hf] at he)
  logged := h.logged

/-- The built-in procedures are no closures. -/
theorem enterGlobal (h : w.FromText) : (w.enter builtinBindings none).FromText := by
  refine h.enter (fun e he => ?_) none
  simp only [builtinBindings, List.mem_cons, List.not_mem_nil, or_false] at he
  rcases he with rfl | rfl | rfl <;> exact Value.fromText_of_data (by simp) (by simp)

theorem bind (h : w.FromText) (f : FrameId) (n : String) {v : Value} (hv : v.FromText) :
    (w.bind f n v).FromText where
  bound _ _ he := (h.sealed.bind f n hv).value trivial he
  logged := h.logged

end World.FromText

/-- Expressions were read, and so were the parts of closures. -/
def Regime.fromText : Regime where
  world := World.FromText
  after _ _ := True
  scope _ _ := True
  frame _ _ := True
  expr := Expr.MadeOf Atom.IsRead
  value _ := Value.FromText
  error _ _ := True
  begun _ _ := True

namespace Regime

theorem fromText_hostLaws : fromText.HostLaws where
  error _ _ := trivial
  integer _ _ := Value.fromText_of_data (by simp) (by simp)
  text _ _ := Value.fromText_of_data (by simp) (by simp)
  bind n hw _ hv := ⟨trivial, hw.bind _ n hv⟩
  parse := madeOf_isRead_of_parse
  parsed hw _ := ⟨trivial, hw.log (by simp [Event.values])⟩

theorem fromText_laws : fromText.Laws where
  raised h := h
  unwritable _ _ := trivial
  refl _ := trivial
  trans _ _ := trivial
  frame_mono _ h := h
  scope_mono _ h := h
  value_mono _ h := h
  begun_mono _ h := h
  item h hmem := Expr.allMadeOf_iff.mp h _ hmem
  literal {a} _ _ := by
    refine Value.fromText_of_data ?_ ?_ <;> cases a <;> simp [Atom.value]
  undefined _ := Value.fromText_of_data (by simp) (by simp)
  list := Value.each_list fun _ => trivial
  lookup k hw _ := hw.sealed.lookup (Value.fromText_of_data (by simp) (by simp)) trivial k
  scope h := h
  closure {_ params formals body f} he hp _ := by
    obtain rfl := formalNames_eq_ok_iff.mp hp
    exact Value.Each.of_not_list (by simp) (Expr.madeOf_lambda.mp he).2
  body h := ⟨h.self.2, trivial⟩
  enter hw _ hv :=
    ⟨⟨trivial, hw.enter (fun e he => hv _ (Bindings.mem_ofNames he)) _⟩, trivial⟩
  specialForm k hw := ⟨⟨trivial, hw.log (by simp [Event.values])⟩, trivial⟩
  applying hw _ hargs := ⟨trivial, hw.log hargs⟩
  print hw hv := ⟨trivial, hw.print hv⟩
  evaluating hw _ := ⟨trivial, hw.log (by simp [Event.values])⟩
  arity _ _ := trivial
  malformed _ _ _ := trivial
  listExpected _ _ _ := trivial
  notExpression _ := trivial
  host _ := fromText_hostLaws

end Regime

/-! ## Host programs -/

namespace Host

/-- What a host program does that has nothing evaluated but expressions that were read, and hands
over no closures but those that it was given. Each of these may succeed or fail. -/
inductive Reads : Host → Host → Prop
  /-- A session is opened with bindings that the host program has. -/
  | opened {h : Host} {b : Bindings} {r : Except Error FrameId} {w : World} :
    (∀ e ∈ b, h.Has e.2) → openSession b h.world = some (r, w) → Reads h ⟨w, h.given⟩
  /-- A request is made to the session of a frame. -/
  | asked {h : Host} {n : Nat} {f : FrameId} {q : Request} {r : Except Error Reply} {w : World} :
    (∀ v ∈ q.value?, h.Has v) → serve n f q h.world = some (r, w) →
      Reads h ⟨w, (r.toOption.bind Reply.value?).toList ++ h.given⟩
  /-- An expression that was read is evaluated in a frame, and that may be broken off. -/
  | evaluated {h : Host} {stop : Hook} {n : Nat} {s : String} {e : Expr} {f : FrameId}
      {r : Except Error Value} {w : World} :
    (parse s = .ok e ∨ e ∈ (parseAll s).1) →
      (Evaluator.stopping stop n).evaluate e f h.world = some (r, w) →
        Reads h ⟨w, r.toOption.toList ++ h.given⟩
  /-- A value is applied to arguments, and that may be broken off. -/
  | applied {h : Host} {stop : Hook} {n : Nat} {head : Value} {args : List Value} {f : FrameId}
      {r : Except Error Value} {w : World} :
    h.Has head → (∀ v ∈ args, h.Has v) →
      (Evaluator.stopping stop n).apply head args f h.world = some (r, w) →
        Reads h ⟨w, r.toOption.toList ++ h.given⟩

/-- The value stands in a result that the host program was given, in a frame or in the log. -/
inductive Sees (h : Host) (u : Value) : Prop
  | given {v : Value} : v ∈ h.given → v.Holds u → Sees h u
  | bound {f : FrameId} {b : Key × Value} :
    b ∈ (h.world.store.frame f).bindings → b.2.Holds u → Sees h u
  | logged {x : Event} {v : Value} : x ∈ h.world.events → v ∈ x.values → v.Holds u → Sees h u

/-- All closures that the host program gets hold of are made of what was read. -/
structure FromText (h : Host) : Prop where
  world : h.world.FromText
  given : ∀ v ∈ h.given, v.FromText

variable {h h' : Host}

theorem fromText_start (echo : Bool) : (start echo).FromText where
  world :=
    { bound := by simp [start, World.fresh, Store.frame, Store.empty]
      logged := by simp [start, World.fresh] }
  given := by simp [start]

namespace FromText

theorem has (hh : h.FromText) {v : Value} (hv : h.Has v) : v.FromText := by
  intro u hu
  cases u with
  | closure formals body f =>
    obtain ⟨v', hv', hc⟩ := hv formals body f hu
    exact hh.given v' hv' _ hc
  | _ => trivial

theorem sees (hh : h.FromText) {u : Value} (hu : h.Sees u) : u.IsFromText := by
  cases hu with
  | given hv hu => exact hh.given _ hv _ hu
  | bound hb hu => exact hh.world.bound _ _ hb _ hu
  | logged hx hv hu => exact hh.world.logged _ hx _ hv _ hu

/-- What the host program is given at a step comes to what it was given before. -/
theorem next (hh : h.FromText) {w : World} (hw : w.FromText) {v : Option Value}
    (hv : ∀ u ∈ v, u.FromText) : FromText ⟨w, v.toList ++ h.given⟩ where
  world := hw
  given u hu := by
    rcases List.mem_append.mp hu with hu | hu
    · exact hv u (Option.mem_toList.mp hu)
    · exact hh.given u hu

/-- A step of the host program gives it no closures but such that are made of what was read. -/
theorem step (hh : h.FromText) (hs : Reads h h') : h'.FromText := by
  have L := Regime.fromText_laws
  have H := Regime.fromText_hostLaws
  have hX : ∀ w e, Regime.fromText.error w e := fun _ _ => trivial
  cases hs with
  | opened hb hr =>
    obtain ⟨⟨-, hw⟩, -⟩ := L.openSession (w := h.world) H (fun e he => hh.has (hb e he))
      (fun w₁ _ hw => ⟨⟨trivial, hw.enterGlobal⟩, trivial⟩) h.world _ _ trivial hh.world hr
    exact hh.next hw (v := none) (by simp)
  | @asked n f q r w hq hr =>
    obtain ⟨⟨-, hw⟩, ha⟩ := L.serve (w := h.world) (f := f) H
      (fun s e he => madeOf_isRead_of_mem_parseAll he) n trivial (fun v hv => hh.has (hq v hv))
      h.world r w trivial hh.world hr
    exact hh.next hw ha.toOption_bind
  | @evaluated stop n s e f r w he hr =>
    have hread : e.MadeOf Atom.IsRead :=
      he.elim madeOf_isRead_of_parse madeOf_isRead_of_mem_parseAll
    obtain ⟨⟨-, hw⟩, ha⟩ := (L.respects_stopping hX stop n).evaluate (w := h.world) (f := f)
      hread trivial h.world r w trivial hh.world hr
    exact hh.next hw ha.toOption
  | @applied stop n head args f r w hhead hargs hr =>
    obtain ⟨⟨-, hw⟩, ha⟩ := (L.respects_stopping hX stop n).apply (w := h.world) (f := f)
      (.inr H) (hh.has hhead) (fun v hv => hh.has (hargs v hv)) trivial h.world r w trivial
      hh.world hr
    exact hh.next hw ha.toOption

theorem steps (hh : h.FromText) (hs : Relation.ReflTransGen Reads h h') : h'.FromText := by
  induction hs with
  | refl => exact hh
  | tail _ hstep ih => exact ih.step hstep

end FromText

/-- **The text of a closure denotes the closure.** Let a host program have texts evaluated from its
beginning on, in any sessions, and get hold of a closure: as a result, in a frame, or as a value
that some evaluation came to on its way. It can be written, and if no double in its body is
infinite, then its text, evaluated in the frame that it has captured, gives a closure with the same
parameters, the same body and the same frame, which has the same text. This is so in every world and
at any depth but zero. -/
theorem interpret_display_of_sees {echo : Bool}
    (hstart : Relation.ReflTransGen Reads (start echo) h) {formals : List String} {body : Expr}
    {f : FrameId} (hsees : h.Sees (.closure formals body f))
    (hfinite : body.MadeOf fun a => ¬ a.IsInfinite) (n : Nat) (w : World) :
    (Value.closure formals body f).display? false =
        some ((Value.closure formals body f).display false) ∧
      interpret (n + 1) ((Value.closure formals body f).display false) f w =
        some (.ok (.closure formals body f),
          (w.log (.parsed (.lambda formals body))).log (.specialForm .lambda)) := by
  obtain ⟨hformals, hbody⟩ := ((fromText_start echo).steps hstart).sees hsees
  have hsame : body.reread = body := (Expr.reread_eq_iff hbody).mpr hfinite
  have hwritable : (Value.closure formals body f).isWritable = true :=
    (hbody.imp fun _ => Atom.IsRead.short).isWritable
  refine ⟨Value.display?_of_isWritable hwritable false, ?_⟩
  rw [Value.display, interpret_closureText hformals hbody, hsame]

/-- The closure that a value is. -/
def closure? : Value → Option Closure
  | .closure formals body f => some ⟨formals, body, f⟩
  | _ => none

/-- In a session with a procedure that evaluates texts, such a text makes a closure inside of a
`let`, with a keyword for a parameter, twice. -/
theorem interpret_display_keywordParameter : ∃ (h : Host) (c : Closure),
    Relation.ReflTransGen Reads (start true) h ∧ h.Sees (.closure c.formals c.body c.scope) ∧
      (c.body.MadeOf fun a => ¬ a.IsInfinite) ∧ c.formals = ["if", "x", "if"] ∧ c.scope = 1 ∧
      (Value.closure c.formals c.body c.scope).display? false =
        some "(lambda (if x if) (y (x -0.5)))" ∧
      ∀ n w, interpret (n + 1) ((Value.closure c.formals c.body c.scope).display false) c.scope w =
        some (.ok (.closure c.formals c.body c.scope),
          (w.log (.parsed (.lambda c.formals c.body))).log (.specialForm .lambda)) := by
  have hruns : ((openSession [(.name "read", .procedure (.host .readEval))] (.fresh true)).bind
      fun p₁ => (serve 9 0 (.eval "(let ((y 1)) (read \"(lambda (if x if) (y (x -.5)))\"))")
        p₁.2).bind fun p₂ => ((p₂.1.toOption.bind Reply.value?).bind closure?).map fun c =>
          (c.formals, c.scope, (Value.closure c.formals c.body c.scope).display false,
            decide (c.body.MadeOf fun a => ¬ a.IsInfinite))) =
        some (["if", "x", "if"], 1, "(lambda (if x if) (y (x -0.5)))", true) := by
    decide +kernel
  obtain ⟨⟨r₁, w₁⟩, h₁, hruns⟩ := Option.bind_eq_some_iff.mp hruns
  obtain ⟨⟨r₂, w₂⟩, h₂, hruns⟩ := Option.bind_eq_some_iff.mp hruns
  obtain ⟨c, hc, hresult⟩ := Option.map_eq_some_iff.mp hruns
  simp only [Prod.mk.injEq, decide_eq_true_eq] at hresult
  obtain ⟨hformals, hscope, htext, hfinite⟩ := hresult
  have hopened : Relation.ReflTransGen Reads (start true) ⟨w₁, []⟩ :=
    .single (.opened (by simp [Has]) h₁)
  have hstart := hopened.tail (.asked (by simp [Request.value?]) h₂)
  have hsees : Sees ⟨w₂, (r₂.toOption.bind Reply.value?).toList ++ []⟩
      (.closure c.formals c.body c.scope) := by
    obtain ⟨v, hv, hc⟩ := Option.bind_eq_some_iff.mp hc
    cases v with
    | closure formals body f =>
      cases hc
      exact .given (List.mem_append_left _ (Option.mem_toList.mpr hv)) (.self _)
    | _ => cases hc
  have hall := interpret_display_of_sees hstart hsees hfinite
  exact ⟨_, c, hstart, hsees, hfinite, hformals, hscope, htext ▸ (hall 0 w₂).1,
    fun n w => (hall n w).2⟩

end Host

end MiniLisp
