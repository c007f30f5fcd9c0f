import MiniLisp.Proofs.Links

/-!
# Lexical scope

What an expression does depends on the frame in which it is evaluated through the values of its
free symbols alone. Two frames that agree on these are as good as each other: how many frames
stand around them, what else is bound there and whether the keywords are bound makes no
difference.

Two evaluations are run side by side. A frame of the one is linked to a frame of the other with some
names corresponding to themselves, and these have matching values in the two; a closure matches
another one of the same text if the free symbols of the body that are no parameters correspond to
themselves in the frames in which the two were made.

## Main definitions

* `Scopes.SameText`: closures that match
* `Scopes.simulation`: runs of the same expression in frames that are linked for its free symbols
* `World.messages`: the log as it is read
* `Indistinct`: answers that cannot be told apart by their texts

## Main results

* `evaluate_congr_of_free`: frames that agree on the free symbols of an expression are as good as
  each other
-/

namespace MiniLisp

/-- An entry of the log as it is read. -/
def Event.entry (e : Event) : Topic × Option String := (e.topic, e.message)

/-- The log as it is read. -/
def World.messages (w : World) : List (Topic × Option String) := w.events.toList.map Event.entry

namespace Scopes

/-- Closures of the same text. The free symbols of the body that are no parameters correspond to
themselves. -/
def SameText (R : Names) (c c' : Closure) : Prop :=
  c.formals = c'.formals ∧ c.body = c'.body ∧ ∀ x ∈ c.body.free, x ∉ c.formals → R x x

/-- Values that match, with closures of the same text and no host procedures. -/
abbrev value (l : Links Names) : Value → Value → Prop := l.value SameText

/-- What was printed and logged is the same, and the stores are linked. -/
structure Worlds (l : Links Names) (w w' : World) : Prop where
  stores : l.NamesMatch SameText w.store w'.store
  traces : World.SameTraces Event.entry w w'

/-- Failures of the same kind, at the same place and with the same message. -/
structure SameFailure (e e' : Error) : Prop where
  kind : e.kind = e'.kind
  position : e.position = e'.position
  message : e.message = e'.message

/-- Runs of the same expression, in frames that are linked with its free symbols corresponding to
themselves. -/
def simulation : Simulation (Links Names) where
  worlds := Worlds
  closure := Links.closure SameText
  procedure := Procedure.IsBuiltin
  error := SameFailure
  task l e f e' f' := e = e' ∧ ∃ R, l f f' R ∧ ∀ x ∈ e.free, R x x

variable {l : Links Names}

/-- Closures that match have the same text. -/
theorem text_eq {c c' : Closure} (h : l.closure SameText c c') : c.text = c'.text := by
  obtain ⟨R, -, hf, hb, -⟩ := h
  rw [Closure.text, Closure.text, hf, hb]

theorem isWritable_eq {c c' : Closure} (h : l.closure SameText c c') :
    c.body.isWritable = c'.body.isWritable := by
  obtain ⟨R, -, -, hb, -⟩ := h
  rw [hb]

theorem display_eq {v v' : Value} (h : value l v v') (nested : Bool) :
    v.display nested = v'.display nested :=
  Value.Matches.display_eq (fun _ _ => text_eq) nested h

theorem display?_eq {v v' : Value} (h : value l v v') (nested : Bool) :
    v.display? nested = v'.display? nested := by
  rw [Value.display?, Value.display?, display_eq h,
    Value.Matches.isWritable_eq (fun _ _ => isWritable_eq) h]

/-! ## Single steps -/

theorem Worlds.log {w w' : World} (h : Worlds l w w') {x x' : Event} (hx : x.entry = x'.entry) :
    Worlds l (w.log x) (w'.log x') :=
  ⟨h.stores, h.traces.log hx⟩

/-- Bindings of the same names to matching values, in new frames inside frames that are linked. -/
theorem lockstep_enter {p q : FrameId} {R : Names} (hR : l p q R)
    {es es' : List (String × Value)} (he : EntriesMatch (value l) es es') :
    simulation.Lockstep l (fun l' g g' => l' g g' (R.bindAll (es.map Prod.fst) (es.map Prod.fst)))
      (Eval.enter (.ofNames es) (some p)) (Eval.enter (.ofNames es') (some q)) := by
  refine Links.lockstep_enter ?_
  intro l' w w' hl hw
  refine ⟨?_, hw.traces.echo, hw.traces.output, hw.traces.events⟩
  have hs := hw.stores.push (hl _ _ _ hR) (he.mono fun _ _ => Links.value_mono hl).map_snd
  rwa [← he.map_fst] at hs

theorem lockstep_lookup {p q : FrameId} {R : Names} (hR : l p q R) {x : String} (hx : R x x) :
    simulation.Lockstep l simulation.value (Eval.lookup p (.name x)) (Eval.lookup q (.name x)) :=
  fun l' hl _ _ hw => .ok (le_refl l') hw (hw.stores.lookup (hl _ _ _ hR) hx)

theorem SameFailure.refl (e : Error) : SameFailure e e := ⟨rfl, rfl, rfl⟩

theorem listExpected {b : Builtin} {v v' : Value} (hv : value l v v') :
    SameFailure (.listExpected b v) (.listExpected b v') := by
  constructor
  · rfl
  · rfl
  · show b.name ++ _ ++ v.display false = b.name ++ _ ++ v'.display false
    rw [display_eq hv]

/-- The application of closures of the same text to matching arguments is logged in the same
words. -/
theorem entry_applying {c c' : Closure} (hc : l.closure SameText c c') {args args' : List Value}
    (ha : List.Forall₂ (value l) args args') :
    (Event.applying c.formals c.body args).entry =
      (Event.applying c'.formals c'.body args').entry := by
  obtain ⟨R, -, hf, hb, -⟩ := hc
  have hargs : value l (.list args) (.list args') := Value.matches_list.mpr ha
  have hinspect := Value.Matches.inspect_eq (fun _ _ => text_eq (l := l)) hargs
  have hwritable := Value.Matches.isWritable_eq (fun _ _ => isWritable_eq (l := l)) hargs
  simp only [Event.entry, Event.message, Event.topic, Value.inspect?, hf, hb, hinspect, hwritable]

theorem laws : simulation.Laws where
  closure_mono hl h := Links.closure_mono hl h
  length_eq := by
    rintro l c c' ⟨R, -, hf, -⟩
    rw [hf]
  isWritable_eq h := isWritable_eq h
  error_refl := SameFailure.refl
  listExpected hv := listExpected hv
  closureArity := by
    rintro l c c' n ⟨R, -, hf, hb, -⟩
    rw [hf, hb]
    exact .refl _
  specialForm _ hw := hw.log rfl
  print {l v v' w w'} hv hw := by
    have hd := display_eq hv false
    have hx : (Event.printed v).entry = (Event.printed v').entry := by
      simp only [Event.entry, Event.message, Event.topic, hd]
    exact ⟨hw.stores, hw.traces.print hd hx⟩
  applying hc ha hw := hw.log (entry_applying hc ha)
  enter {l c c' args args'} hc ha hlen := by
    obtain ⟨R, hR, hf, hb, hfree⟩ := hc
    rw [← hf, ← hb]
    refine (lockstep_enter hR (EntriesMatch.zip c.formals ha)).imp fun l' g g' _ hg => ?_
    refine ⟨rfl, _, hg, fun x hx => Names.bindAll_self ?_⟩
    rw [List.map_fst_zip (Nat.le_of_eq hlen.symm)]
    exact or_iff_not_imp_right.mpr (hfree x hx)

theorem selfLaws : simulation.SelfLaws where
  lookup := by
    rintro l x f f' ⟨-, R, hR, hfree⟩
    exact lockstep_lookup hR (hfree x List.mem_cons_self)
  item := by
    rintro l head e operands f f' hk ⟨-, R, hR, hfree⟩ he
    refine ⟨rfl, R, hR, fun x hx => hfree x ?_⟩
    rw [Expr.free, hk]
    exact Expr.free_subset_freeAll he hx
  ifOperand := by
    rintro l e operands f f' ⟨-, R, hR, hfree⟩ he
    exact ⟨rfl, R, hR, fun x hx => hfree x (Expr.free_subset_freeAll he hx)⟩
  lambda := by
    rintro l params names body f f' ⟨-, R, hR, hfree⟩ hp
    refine ⟨R, hR, rfl, rfl, fun x hx hxn => hfree x ?_⟩
    exact Expr.mem_freeLambda_of_mem_body hp hx hxn
  letInit := by
    rintro l bs b e body n f f' ⟨-, R, hR, hfree⟩ hb he
    exact ⟨rfl, R, hR, fun x hx => hfree x (Expr.free_subset_freeLet hb he hx)⟩
  letEnter := by
    rintro l l' bs body es es' f f' ⟨-, R, hR, hfree⟩ hl he hn
    refine (lockstep_enter (hl _ _ _ hR) he).imp fun l'' g g' _ hg => ⟨rfl, _, hg, fun x hx => ?_⟩
    refine Names.bindAll_self (or_iff_not_imp_right.mpr fun hxn => hfree x ?_)
    exact Expr.mem_freeLet_of_mem_body hn hx hxn

/-- At each depth, expressions run in lockstep with themselves. The bodies of closures are no parts
of the expression, so this goes by the depth. -/
theorem follows_upTo (n : Nat) : simulation.Follows (.upTo n) (.upTo n) := by
  induction n with
  | zero => exact fun _ => Simulation.Lockstep.exhausted
  | succ n ih =>
    rintro l e _ f f' ⟨rfl, hR⟩
    exact selfLaws.lockstep_evaluateWith laws ih
      (Simulation.HostFollows.of_builtin fun _ => id) ⟨rfl, hR⟩

/-! ## Two frames of one store -/

/-- Names that are in `X` correspond to themselves. -/
def within (X : List String) : Names := fun x y => x = y ∧ x ∈ X

/-- What can be reached from `f` or `g` is linked to itself, and `f` is linked to `g` with the names
of `X` corresponding to themselves. -/
def initial (s : Store) (f g : FrameId) (X : List String) : Links Names :=
  (Links.still fun p => s.Reaches f p ∨ s.Reaches g p).add f g (within X)

/-- Frames that agree on the names of `X` may be linked for them. -/
theorem initial_namesMatch {s : Store} (hs : s.WellFormed) {f g : FrameId} (hf : f < s.nextId)
    (hg : g < s.nextId) (hhf : s.HostFree f) (hhg : s.HostFree g) {X : List String}
    (h : ∀ x ∈ X, s.lookup f (.name x) = s.lookup g (.name x)) :
    (initial s f g X).NamesMatch SameText s s := by
  have hleft : ∀ v : Value, v.Each (Value.Within (s.Reaches f)) →
      v.Each (Value.Within fun p => s.Reaches f p ∨ s.Reaches g p) :=
    fun v hv => hv.imp fun u hu => hu.mono fun _ => .inl
  have hright : ∀ v : Value, v.Each (Value.Within (s.Reaches g)) →
      v.Each (Value.Within fun p => s.Reaches f p ∨ s.Reaches g p) :=
    fun v hv => hv.imp fun u hu => hu.mono fun _ => .inr
  have hsealed := (hhf.sealed.imp hleft).union (hhg.sealed.imp hright)
  have hstill := Links.still_namesMatch (K := SameText) (fun _ => ⟨rfl, rfl, fun _ _ _ => rfl⟩)
    hsealed (fun p hp => hp.elim (hs.reaches_lt hf) (hs.reaches_lt hg)) (Nat.le_refl _)
    fun _ _ _ => rfl
  refine hstill.add hf hg ?_
  rintro x _ ⟨rfl, hx⟩
  rw [← h x hx]
  exact hstill.lookup ⟨rfl, .inl .self, rfl⟩ rfl

end Scopes

/-- Answers that cannot be told apart by their texts: failures of the same kind, at the same place
and with the same message, or values that are displayed in the same way, if they can be written. -/
def Indistinct : Except Error Value → Except Error Value → Prop
  | .error e, .error e' => Scopes.SameFailure e e'
  | .ok v, .ok v' => v.display? false = v'.display? false
  | _, _ => False

/-- **Lexical scope.** Frames that agree on the free symbols of an expression are as good as each
other: the evaluations in them run forever together, or print the same, log the same and have
answers that cannot be told apart. -/
theorem evaluate_congr_of_free {e : Expr} {f g : FrameId} {w : World} (hs : w.store.WellFormed)
    (hf : f < w.store.nextId) (hg : g < w.store.nextId) (hhf : w.store.HostFree f)
    (hhg : w.store.HostFree g)
    (h : ∀ x ∈ e.free, w.store.lookup f (.name x) = w.store.lookup g (.name x)) :
    RunsForever e f w ∧ RunsForever e g w ∨
      ∃ r r' w₁ w₂, Finishes e f w (r, w₁) ∧ Finishes e g w (r', w₂) ∧
        w₁.output = w₂.output ∧ w₁.messages = w₂.messages ∧ Indistinct r r' := by
  have hw : Scopes.Worlds (Scopes.initial w.store f g e.free) w w :=
    ⟨Scopes.initial_namesMatch hs hf hg hhf hhg h, .refl w⟩
  have hstep : ∀ n, Scopes.simulation.Answers (Scopes.initial w.store f g e.free)
      Scopes.simulation.value (evaluate n e f w) (evaluate n e g w) := fun n =>
    Scopes.follows_upTo n ⟨rfl, _, .inr ⟨rfl, rfl, rfl⟩, fun _ hx => ⟨rfl, hx⟩⟩ _ (le_refl _) w w hw
  obtain hforever | ⟨⟨r, w₁⟩, ⟨r', w₂⟩, hr, hr', ha⟩ := Simulation.ends_or_runsForever hstep
  · exact .inl hforever
  · refine .inr ⟨r, r', w₁, w₂, hr, hr', ?_⟩
    cases ha with
    | ok _ hw hv => exact ⟨hw.traces.output, hw.traces.events, Scopes.display?_eq hv false⟩
    | error _ hw he => exact ⟨hw.traces.output, hw.traces.events, he⟩

/-- `(if (f x) ((lambda (y) (f y)) "text"))` -/
def Expr.twoCalls : Expr :=
  .list [.symbol "if", .list [.symbol "f", .symbol "x"],
    .list [.list [.symbol "lambda", .list [.symbol "y"], .list [.symbol "f", .symbol "y"]],
      .atom (.str "text")]]

/-- Whether `if` and `y` are bound around an expression is the same to it, though they stand
in it. -/
theorem evaluate_twoCalls :
    (∀ x ∈ Expr.twoCalls.free,
        Store.nested.lookup 1 (.name x) = Store.nested.lookup 2 (.name x)) ∧
      (RunsForever .twoCalls 1 ⟨.nested, true, "", #[]⟩ ∧
          RunsForever .twoCalls 2 ⟨.nested, true, "", #[]⟩ ∨
        ∃ r r' w₁ w₂, Finishes .twoCalls 1 ⟨.nested, true, "", #[]⟩ (r, w₁) ∧
          Finishes .twoCalls 2 ⟨.nested, true, "", #[]⟩ (r', w₂) ∧
          w₁.output = w₂.output ∧ w₁.messages = w₂.messages ∧ Indistinct r r') := by
  have h : ∀ x ∈ Expr.twoCalls.free,
      Store.nested.lookup 1 (.name x) = Store.nested.lookup 2 (.name x) := by
    have hf : Expr.twoCalls.free = ["f", "x", "f"] := rfl
    intro x hx
    rw [hf] at hx
    simp only [List.mem_cons, List.not_mem_nil, or_false] at hx
    rcases hx with rfl | rfl | rfl <;> cbv
  refine ⟨h, evaluate_congr_of_free Store.nested_wellFormed ?_ ?_ (Store.nested_hostFree 1)
    (Store.nested_hostFree 2) h⟩
  · exact show 1 < 3 by decide
  · exact show 2 < 3 by decide

end MiniLisp
