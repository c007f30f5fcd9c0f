import MiniLisp.Proofs.Conversation
import MiniLisp.Proofs.Links

/-!
# The order of names

The order in which the names of a frame were first given shows in the text of the frame, and nowhere
else. Two sessions whose stores differ in such orders alone have the same answers, the same output
and the same log, request by request, as long as the texts of frames are out of their reach: they
are not asked for the listing of their bindings, and no host procedure that shows frames can be
reached.

The two sessions are run side by side. As lookups in them are the same, so are their values, which
refer to the same frames; these lie in the region of frames that reach no procedure that shows them.

## Main definitions

* `Procedure.ShowsFrames`: the procedures to which the order of names matters
* `Store.Discreet s f`, `Value.Discreet s v`: no such procedure can be reached
* `Store.SameUpToOrder s s'`: the stores bind the same keys to the same values
* `Reordering.simulation s`: runs of the same expression in stores that differ in order alone
* `Exchange.Same x y`: requests with the same answer, output and log

## Main results

* `Store.SameUpToOrder.lookup`: lookups in such stores are the same
* `Reordering.follows_upTo`: evaluation and application do not depend on the order of names
* `converse_sameUpToOrder`: nor do the answers of a session
-/

namespace MiniLisp

/-! ## What shows frames -/

/-- The procedure shows bindings as text, and so the order of their names. -/
def Procedure.ShowsFrames : Procedure → Prop
  | host .frameText | host .chainText => True
  | _ => False

/-- No procedure that shows frames can be reached from `f`. -/
def Store.Discreet (s : Store) (f : FrameId) : Prop :=
  ∀ g, s.Reaches f g → ∀ e ∈ (s.frame g).bindings, ∀ p, e.2.Holds (.procedure p) → ¬ p.ShowsFrames

/-- What a value has to be for no procedure that shows frames to be reached from it, if it is no
list. -/
def Value.Hides (s : Store) : Value → Prop
  | procedure p => ¬ p.ShowsFrames
  | closure _ _ f => s.Discreet f
  | _ => True

/-- No procedure that shows frames can be reached from the value. -/
def Value.Discreet (s : Store) (v : Value) : Prop := v.Each (Hides s)

namespace Store

variable {s : Store}

/-- What can be reached from a frame that was not made is that frame alone, which is empty. -/
theorem discreet_of_le {f : FrameId} (h : s.nextId ≤ f) : s.Discreet f := by
  have hempty := frame_of_le h
  have hself : ∀ g, s.Reaches f g → g = f := by
    intro g hg
    induction hg with
    | self => rfl
    | outer _ ho ih =>
      rw [ih, hempty] at ho
      cases ho
    | captured _ he _ ih =>
      rw [ih, hempty] at he
      cases he
  intro g hg e he
  rw [hself g hg, hempty] at he
  cases he

/-- No procedure that shows frames can be reached if none is bound. -/
theorem discreet_of_forall (h : ∀ fr ∈ s.frames.toList, ∀ e ∈ fr.bindings, ∀ p,
    e.2.Holds (.procedure p) → ¬ p.ShowsFrames) (f : FrameId) : s.Discreet f := by
  intro g _ e he
  obtain ⟨fr, hfr, hefr⟩ := exists_mem_frames he
  exact h fr hfr e hefr

/-- The frames from which no procedure that shows frames can be reached are a region. -/
theorem sealed_discreet (s : Store) : s.Sealed s.Discreet (Value.Discreet s) where
  outer hf ho := fun g hg => hf g ((Reaches.self.outer ho).trans hg)
  value {f e} hf he u hu := by
    cases u with
    | procedure p => exact hf f .self e he p hu
    | closure => exact fun g hg => hf g ((Reaches.self.captured he hu).trans hg)
    | _ => trivial

end Store

/-! ## Stores that differ in order -/

namespace Store

/-- The stores have the same frames, which bind the same keys to the same values, in whatever
order. -/
structure SameUpToOrder (s s' : Store) : Prop where
  nextId : s.nextId = s'.nextId
  outer : ∀ f, (s.frame f).outer = (s'.frame f).outer
  get? : ∀ f k, (s.frame f).bindings.get? k = (s'.frame f).bindings.get? k

namespace SameUpToOrder

variable {s s' : Store} (h : s.SameUpToOrder s')
include h

theorem lookup (f : FrameId) (k : Key) : s.lookup f k = s'.lookup f k :=
  lookup_congr (fun g _ => h.get? g k) fun g _ => h.outer g

theorem push (b : Bindings) (o : Option FrameId) :
    (s.push b o).SameUpToOrder (s'.push b o) := by
  have hframe : ∀ f, (s.push b o).frame f = (s'.push b o).frame f ∨
      (s.push b o).frame f = s.frame f ∧ (s'.push b o).frame f = s'.frame f := by
    intro f
    by_cases hf : f = s.nextId
    · refine .inl ?_
      rw [hf, frame_push_self, h.nextId, frame_push_self]
    · exact .inr ⟨frame_push_of_ne s b o hf, frame_push_of_ne s' b o (h.nextId ▸ hf)⟩
  constructor
  · rw [nextId_push, nextId_push, h.nextId]
  · intro f
    rcases hframe f with hf | ⟨hf, hf'⟩
    · rw [hf]
    · rw [hf, hf', h.outer f]
  · intro f k
    rcases hframe f with hf | ⟨hf, hf'⟩
    · rw [hf]
    · rw [hf, hf', h.get? f k]

theorem bind (f : FrameId) (n : String) (v : Value) :
    (s.bind f n v).SameUpToOrder (s'.bind f n v) := by
  rcases Nat.lt_or_ge f s.nextId with hlt | hle
  · constructor
    · rw [nextId_bind, nextId_bind, h.nextId]
    · intro g
      rw [outer_bind, outer_bind, h.outer g]
    · intro g k
      by_cases hg : g = f
      · rw [hg, frame_bind_self s n v hlt, frame_bind_self s' n v (h.nextId ▸ hlt)]
        rw [Bindings.get?_set, Bindings.get?_set, h.get? f k]
      · rw [frame_bind_of_ne s n v hg, frame_bind_of_ne s' n v hg, h.get? g k]
  · rwa [bind_of_le hle, bind_of_le (h.nextId ▸ hle)]

end SameUpToOrder

end Store

/-! ## Side by side -/

namespace Reordering

/-- Frames correspond to themselves throughout, so there is one link only. -/
inductive Link
  | same

instance : Preorder Link where
  le _ _ := True
  le_refl _ := trivial
  le_trans _ _ _ _ _ := trivial

variable (s₀ : Store)

/-- The same closure, made in a frame from which no procedure that shows frames can be reached. -/
def closure (c c' : Closure) : Prop := c = c' ∧ s₀.Discreet c.scope

/-- The same value, from which no procedure that shows frames can be reached. -/
def value : Value → Value → Prop := Value.Matches (fun p => ¬ p.ShowsFrames) (closure s₀)

/-- What was printed and logged is the same, and the stores differ in order alone. What could show
it cannot be reached from the frames that are discreet in `s₀`; the new ones are. -/
structure Worlds (w w' : World) : Prop where
  stores : w.store.SameUpToOrder w'.store
  sealed : w.store.Sealed s₀.Discreet fun v => value s₀ v v
  size : s₀.nextId ≤ w.store.nextId
  traces : World.SameTraces id w w'

/-- Runs of the same expression in the same frame, in stores that differ in order alone. -/
def simulation : Simulation Link where
  worlds _ := Worlds s₀
  closure _ := closure s₀
  procedure p := ¬ p.ShowsFrames
  error := Eq
  task _ e f e' f' := e = e' ∧ f = f' ∧ s₀.Discreet f

variable {s₀}

theorem value_eq {v v' : Value} (h : value s₀ v v') : v = v' :=
  Value.Matches.eq (fun _ _ hc => hc.1) h

theorem values_eq {vs vs' : List Value} (h : List.Forall₂ (value s₀) vs vs') : vs = vs' :=
  List.forall₂_eq_eq_eq ▸ h.imp fun _ _ => value_eq

theorem entries_eq {es es' : List (String × Value)} (h : EntriesMatch (value s₀) es es') :
    es = es' :=
  List.forall₂_eq_eq_eq ▸ h.imp fun _ _ he => Prod.ext he.1 (value_eq he.2)

/-- A value from which no procedure that shows frames can be reached matches itself. -/
theorem value_self {v : Value} (h : v.Discreet s₀) : value s₀ v v := by
  refine Value.Matches.of_each (h.imp fun u hu => ?_)
  unfold Value.SelfMatching
  split
  · exact ⟨rfl, hu⟩
  · exact hu
  · trivial

/-! ### Single steps -/

section Steps

variable {l : Link}

theorem Worlds.log {w w' : World} (h : Worlds s₀ w w') (x : Event) :
    Worlds s₀ (w.log x) (w'.log x) :=
  ⟨h.stores, h.sealed, h.size, h.traces.log rfl⟩

theorem lockstep_lookup {f : FrameId} (hf : s₀.Discreet f) (k : Key) :
    (simulation s₀).Lockstep l (simulation s₀).value (Eval.lookup f k) (Eval.lookup f k) := by
  unfold Eval.lookup
  split
  · intro l' _ w w' hw
    have hv : value s₀ (w.store.lookup f k) (w'.store.lookup f k) := by
      rw [← hw.stores.lookup f k]
      exact hw.sealed.lookup trivial hf k
    exact .ok (le_refl l') hw hv
  · exact Simulation.Lockstep.raise rfl

/-- A binding in the same frame of both stores. -/
theorem lockstep_define {f : FrameId} (k : Key) {v : Value} (hv : value s₀ v v) :
    (simulation s₀).Lockstep l (fun _ _ _ => True) (Eval.define f k v) (Eval.define f k v) := by
  cases k with
  | name n =>
    intro l' _ w w' hw
    refine .ok (le_refl l') ⟨hw.stores.bind f n v, hw.sealed.bind f n hv, ?_, hw.traces.echo,
      hw.traces.output, hw.traces.events⟩ trivial
    show s₀.nextId ≤ (w.store.bind f n v).nextId
    rw [Store.nextId_bind]
    exact hw.size
  | other u => exact Simulation.Lockstep.raise rfl

/-- The same new frame in both stores; it is discreet. -/
theorem lockstep_enter {o : FrameId} (ho : s₀.Discreet o) {es : List (String × Value)}
    (he : EntriesMatch (value s₀) es es) :
    (simulation s₀).Lockstep l (fun _ g g' => g = g' ∧ s₀.Discreet g)
      (Eval.enter (.ofNames es) (some o)) (Eval.enter (.ofNames es) (some o)) := by
  intro l' _ w w' hw
  have hvalues : ∀ e ∈ Bindings.ofNames es, value s₀ e.2 e.2 := by
    intro e hmem
    obtain ⟨e', he', heq⟩ := List.mem_map.mp (Bindings.mem_ofNames hmem)
    rw [← heq]
    exact (List.forall₂_same.mp he e' he').2
  refine .ok (le_refl l') ⟨hw.stores.push _ _, hw.sealed.push ho hvalues, ?_, hw.traces.echo,
    hw.traces.output, hw.traces.events⟩ ⟨hw.stores.nextId, Store.discreet_of_le hw.size⟩
  show s₀.nextId ≤ (w.store.push _ _).nextId
  rw [Store.nextId_push]
  exact Nat.le_succ_of_le hw.size

end Steps

theorem laws : (simulation s₀).Laws where
  closure_mono _ h := h
  length_eq h := congrArg (·.formals.length) h.1
  isWritable_eq h := congrArg (·.body.isWritable) h.1
  error_refl _ := rfl
  listExpected {_ b _ _} hv := congrArg (Error.listExpected b) (value_eq hv)
  closureArity := by
    rintro l c c' n ⟨rfl, -⟩
    rfl
  specialForm _ hw := hw.log _
  print {_ v v' _ _} hv hw := by
    obtain rfl := value_eq hv
    exact ⟨hw.stores, hw.sealed, hw.size, hw.traces.print rfl rfl⟩
  applying {l c c' args args' _ _} hc ha hw := by
    obtain ⟨rfl, -⟩ := hc
    obtain rfl := values_eq ha
    exact hw.log _
  enter {l c c' args args'} hc ha _ := by
    obtain ⟨rfl, hscope⟩ := hc
    obtain rfl := values_eq ha
    exact (lockstep_enter hscope (EntriesMatch.zip c.formals ha)).imp fun _ _ _ _ hg => ⟨rfl, hg⟩

theorem selfLaws : (simulation s₀).SelfLaws where
  lookup := by
    rintro l x f _ ⟨-, rfl, hf⟩
    exact lockstep_lookup hf _
  item := by
    rintro l head e operands f _ - ⟨-, rfl, hf⟩ -
    exact ⟨rfl, rfl, hf⟩
  ifOperand := by
    rintro l e operands f _ ⟨-, rfl, hf⟩ -
    exact ⟨rfl, rfl, hf⟩
  lambda := by
    rintro l params names body f _ ⟨-, rfl, hf⟩ -
    exact ⟨rfl, hf⟩
  letInit := by
    rintro l bs b e body n f _ ⟨-, rfl, hf⟩ - -
    exact ⟨rfl, rfl, hf⟩
  letEnter := by
    rintro l l' bs body es es' f _ ⟨-, rfl, hf⟩ - he -
    obtain rfl := entries_eq he
    exact (lockstep_enter hf he).imp fun _ _ _ _ hg => ⟨rfl, hg⟩

/-! ### Host procedures -/

section Host

variable {l : Link}

theorem lockstep_parse (s : String) :
    (simulation s₀).Lockstep l (fun _ e e' => e = e') (Eval.parse s) (Eval.parse s) := by
  have hread : (simulation s₀).Lockstep l (fun _ e e' => e = e')
      (Eval.ofExcept ((parse s).mapError .read)) (Eval.ofExcept ((parse s).mapError .read)) := by
    cases (parse s).mapError Error.read with
    | ok e => exact Simulation.Lockstep.pure fun _ _ => rfl
    | error e => exact Simulation.Lockstep.raise rfl
  refine hread.bind fun l₁ e _ _ he => ?_
  subst he
  have hlog : (simulation s₀).Lockstep l₁ (fun _ _ _ => True) (Eval.emit (.parsed e))
      (Eval.emit (.parsed e)) := .emit fun _ hw => hw.log _
  exact hlog.bind fun _ _ _ _ _ => Simulation.Lockstep.pure fun _ _ => rfl

/-- The evaluator applies values to arguments in the same way in both stores. -/
def Applies (s₀ : Store) (r : Evaluator) : Prop :=
  ∀ {v : Value} {args : List Value} {f : FrameId}, value s₀ v v →
    List.Forall₂ (value s₀) args args → s₀.Discreet f →
      (simulation s₀).Lockstep .same (simulation s₀).value (r.apply v args f) (r.apply v args f)

/-- A host procedure that does not show frames does the same in both stores. -/
theorem hostFollows {r : Evaluator} (hr : (simulation s₀).Follows r r) (ha : Applies s₀ r)
    {f : FrameId} (hf : s₀.Discreet f) : (simulation s₀).HostFollows l r r f f := by
  intro l' h args args' _ hp hargs
  obtain rfl := values_eq hargs
  have hvalue : ∀ v ∈ args, value s₀ v v := List.forall₂_same.mp hargs
  unfold HostProcedure.invoke
  split
  · exact Simulation.Lockstep.pure fun _ _ => rfl
  · exact Simulation.Lockstep.pure fun _ _ => Value.matches_list.mpr hargs
  · exact (hp trivial).elim
  · exact (hp trivial).elim
  · exact lockstep_lookup hf _
  · next k v _ =>
    have hv := hvalue v (by simp)
    exact (lockstep_define _ hv).bind fun _ _ _ _ _ => Simulation.Lockstep.pure fun _ _ => hv
  · next head vs _ =>
    have hvs := Value.matches_list.mp (hvalue (.list vs) (by simp))
    exact ha (hvalue head (by simp)) hvs hf
  · refine (lockstep_parse _).bind fun l₁ e _ _ he => ?_
    subst he
    exact hr ⟨rfl, rfl, hf⟩
  · exact Simulation.Lockstep.raise rfl

end Host

/-- **The order of names does not matter to evaluation**, nor to application, at any depth. -/
theorem follows_upTo (n : Nat) :
    (simulation s₀).Follows (.upTo n) (.upTo n) ∧ Applies s₀ (.upTo n) := by
  -- host procedures evaluate and apply, so the two go together, by the depth
  induction n with
  | zero => exact ⟨fun _ => Simulation.Lockstep.exhausted,
      fun _ _ _ => Simulation.Lockstep.exhausted⟩
  | succ n ih =>
    obtain ⟨hr, ha⟩ := ih
    constructor
    · rintro l e _ f _ ⟨rfl, rfl, hf⟩
      exact selfLaws.lockstep_evaluateWith laws hr (hostFollows hr ha hf) ⟨rfl, rfl, hf⟩
    · intro v args f hv hargs hf
      exact laws.applyWith hr (hostFollows hr ha hf) (.inr rfl) hv hargs

/-! ### Requests -/

variable {f : FrameId} (hf : s₀.Discreet f)
include hf

theorem lockstep_run (n : Nat) (s : String) :
    (simulation s₀).Lockstep .same (simulation s₀).value (run n s f) (run n s f) :=
  laws.run (fun _ hw => hw.log _) (fun _ => (follows_upTo n).1 ⟨rfl, rfl, hf⟩) s

/-- A request but for the listing has the same answer in both stores. -/
theorem lockstep_serve (n : Nat) {q : Request} (hq : q ≠ .listing)
    (hv : ∀ v ∈ q.value?, v.Discreet s₀) :
    (simulation s₀).Lockstep .same (fun _ a a' => a = a') (serve n f q) (serve n f q) := by
  have hdone : ∀ {l : Link}, (simulation s₀).Lockstep l (fun _ a a' => a = a')
      (pure Reply.done) (pure Reply.done) := Simulation.Lockstep.pure fun _ _ => rfl
  have hreply : ∀ {l : Link} {v v' : Value}, value s₀ v v' → (simulation s₀).Lockstep l
      (fun _ a a' => a = a') (pure (Reply.value v)) (pure (Reply.value v')) :=
    fun hv => Simulation.Lockstep.pure fun _ _ => congrArg Reply.value (value_eq hv)
  cases q with
  | eval code => exact (lockstep_run hf n code).bind fun _ _ _ _ => hreply
  | interpret code =>
    have hinterpret : (simulation s₀).Lockstep .same (simulation s₀).value (interpret n code f)
        (interpret n code f) := by
      refine (lockstep_parse code).bind fun l₁ e _ _ he => ?_
      subst he
      exact (follows_upTo n).1 ⟨rfl, rfl, hf⟩
    exact hinterpret.bind fun _ _ _ _ => hreply
  | define k v =>
    exact (lockstep_define k (value_self (hv v rfl))).bind fun _ _ _ _ _ => hdone
  | bind k code =>
    refine (lockstep_run hf n code).bind fun _ v v' _ hv => ?_
    obtain rfl := value_eq hv
    exact (lockstep_define k hv).bind fun _ _ _ _ _ => hdone
  | lookup k => exact (lockstep_lookup hf k).bind fun _ _ _ _ => hreply
  | listing => exact absurd rfl hq

end Reordering

/-! ## Conversations -/

/-- The request shows no frames: it does not ask for the listing, and the value that it hands over
reaches no procedure that shows them. -/
def Request.Discreet (s : Store) (q : Request) : Prop :=
  q ≠ .listing ∧ ∀ v ∈ q.value?, v.Discreet s

/-- The requests have the same answer, and the output and the log after them are the same. -/
structure Exchange.Same (x y : Exchange) : Prop where
  answer : x.answer = y.answer
  output : x.after.output = y.after.output
  events : x.after.events = y.after.events

/-- **The order of names does not matter to a session**: in worlds that differ in it alone, requests
that show no frames have the same answers, the same output and the same log. -/
theorem converse_sameUpToOrder {s₀ : Store} {f : FrameId} (hf : s₀.Discreet f) (n : Nat)
    {qs : List Request} (hq : ∀ q ∈ qs, q.Discreet s₀) {w w' : World}
    (hw : Reordering.Worlds s₀ w w') :
    Option.Rel (List.Forall₂ Exchange.Same) (converse n f w qs) (converse n f w' qs) := by
  induction qs generalizing w w' with
  | nil => exact .some .nil
  | cons q qs ih =>
    obtain ⟨⟨hlisting, hvalue⟩, hqs⟩ := List.forall_mem_cons.mp hq
    have hserve := Reordering.lockstep_serve hf n hlisting hvalue .same (le_refl _) w w' hw
    simp only [converse, ask]
    generalize serve n f q w = o, serve n f q w' = o' at hserve
    have hcons : ∀ {a : Except Error Reply} {w₁ w₁' : World}, Reordering.Worlds s₀ w₁ w₁' →
        Option.Rel (List.Forall₂ Exchange.Same)
          ((converse n f w₁ qs).bind fun xs => some (⟨w, a, w₁⟩ :: xs))
          ((converse n f w₁' qs).bind fun xs => some (⟨w', a, w₁'⟩ :: xs)) := by
      intro a w₁ w₁' hw₁
      have hrest := ih hqs hw₁
      generalize converse n f w₁ qs = o, converse n f w₁' qs = o' at hrest
      cases hrest with
      | none => exact .none
      | some hxs => exact .some (.cons ⟨rfl, hw₁.traces.output, hw₁.traces.events_eq⟩ hxs)
    cases hserve with
    | exhausted => exact .none
    | ok _ hw₁ ha =>
      subst ha
      exact hcons hw₁
    | error _ hw₁ he =>
      cases he
      exact hcons hw₁

end MiniLisp
