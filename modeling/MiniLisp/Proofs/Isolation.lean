import MiniLisp.Proofs.Confinement
import MiniLisp.Proofs.Conversation
import MiniLisp.Proofs.LexicalScope
import MiniLisp.Proofs.Traces

/-!
# Texts that are run one after the other

Where no host procedures are in reach, running a text leaves nothing behind that a later one could
notice: frames that were there stay as they were, and new ones are out of its reach. So of texts
that are run one after the other, each has the answer that it has by itself, in whatever order they
come, and whether those before it failed or not.

The runs after other texts and by themselves go side by side, each frame that can be reached being
linked to itself.

## Main definitions

* `Reply.texts`: what is shown of a reply
* `Exchange.Indistinct x y`: answers, output and log of two requests cannot be told apart

## Main results

* `Scopes.lockstep_eval`: runs of the same text in frames that are linked for all names
* `ask_isolated`: one text after others, where the frames are still as they were
* `converse_isolated`: texts one after the other have the answers that each has by itself
-/

namespace MiniLisp

/-- What is shown of a reply, each text being there if it can be written. -/
def Reply.texts : Reply → List (Option String)
  | value v => [v.display? false]
  | done => []
  | listing frame chain => [some frame, some chain]

/-! ## Runs of the same text -/

namespace Scopes

variable {l : Links Names} {f f' : FrameId} (hf : l f f' Eq)
include hf

theorem lockstep_run (n : Nat) (s : String) :
    simulation.Lockstep l simulation.value (run n s f) (run n s f') :=
  laws.run (fun _ hw => hw.log rfl) (fun _ => follows_upTo n ⟨rfl, _, hf, fun _ _ => rfl⟩) s

/-- To run a text in frames that are linked for all names has answers with the same texts. -/
theorem lockstep_eval (n : Nat) (s : String) :
    simulation.Lockstep l (fun _ r r' => r.texts = r'.texts) (serve n f (.eval s))
      (serve n f' (.eval s)) := by
  refine (lockstep_run hf n s).bind fun l₁ v v' _ hv => Simulation.Lockstep.pure fun _ _ => ?_
  rw [Reply.texts, Reply.texts, display?_eq hv]

end Scopes

/-! ## Frames that are as they were -/

namespace Store

variable {s s₀ : Store} {N : Nat}

/-- Where frames are as they were, so are lookups. -/
theorem Same.lookup (h : s.Same s₀ N none) {g : FrameId} (hg : g < N) (k : Key) :
    s.lookup g k = s₀.lookup g k := by
  have hframe : ∀ g' ≤ g, s.frame g' = s₀.frame g' :=
    fun g' hg' => h.frame g' (Nat.lt_of_le_of_lt hg' hg) nofun
  exact lookup_congr (fun g' hg' => by rw [hframe g' hg']) fun g' hg' => by rw [hframe g' hg']

end Store

/-- Frames in reach that are as they were may be linked to what they were. -/
theorem Scopes.still_namesMatch {s s₀ : Store} (hs : s₀.WellFormed) {f : FrameId}
    (hf : f < s₀.nextId) (hh : s₀.HostFree f) (h : s.Same s₀ s₀.nextId none) :
    (Links.still (s₀.Reaches f)).NamesMatch SameText s s₀ :=
  Links.still_namesMatch (fun _ => ⟨rfl, rfl, fun _ _ _ => rfl⟩) hh.sealed
    (fun _ => hs.reaches_lt hf) h.size fun _ hp _ => h.lookup (hs.reaches_lt hf hp) _

/-! ## Traces -/

namespace World

theorem messages_after (w w' : World) : (w.after w').messages = w.messages ++ w'.messages := by
  simp [messages, after]

theorem output_after (w w' : World) :
    (w.after w').output = w.output ++ if w.echo then w'.lines else "" := by
  unfold after
  split <;> simp

end World

/-- What an entry puts on the output can be read off the log. -/
theorem Event.line_eq_of_entry {e e' : Event} (h : e.entry = e'.entry) : e.line = e'.line := by
  have htopic : e.topic = e'.topic := congrArg Prod.fst h
  have hmessage : e.message = e'.message := congrArg Prod.snd h
  cases e <;> cases e' <;> first | rfl | cases htopic
  next v v' =>
    have htext : v.display false = v'.display false :=
      String.append_right_inj _ |>.mp (Option.some.inj hmessage)
    rw [line, line, htext]

theorem World.lines_eq_of_messages {w w' : World} (h : w.messages = w'.messages) :
    w.lines = w'.lines := by
  unfold messages at h
  unfold lines
  congr 1
  generalize w.events.toList = es, w'.events.toList = es' at h
  induction es generalizing es' with
  | nil => cases es' <;> simp_all
  | cons e es ih =>
    cases es' with
    | nil => cases h
    | cons e' es' =>
      obtain ⟨he, hes⟩ := List.cons.inj h
      rw [List.map_cons, List.map_cons, Event.line_eq_of_entry he, ih es' hes]

/-! ## Texts one after the other -/

/-- The answers are failures of the same kind, at the same place and with the same message, or
replies with the same texts; and what was printed and logged is the same. -/
structure Exchange.Indistinct (x y : Exchange) : Prop where
  answer : (∃ e e', x.answer = .error e ∧ y.answer = .error e' ∧ Scopes.SameFailure e e') ∨
    ∃ r r', x.answer = .ok r ∧ y.answer = .ok r' ∧ r.texts = r'.texts
  output : ∃ text, x.after.output = x.before.output ++ text ∧
    y.after.output = y.before.output ++ text
  messages : ∃ ms, x.after.messages = x.before.messages ++ ms ∧
    y.after.messages = y.before.messages ++ ms

/-- Traces that are the same, after any others. -/
theorem Exchange.indistinct_after {v w w₁ w₂ : World} (hecho : v.echo = w.echo)
    (h : w₁.messages = w₂.messages) {a b : Except Error Reply}
    (hab : (∃ e e', a = .error e ∧ b = .error e' ∧ Scopes.SameFailure e e') ∨
      ∃ r r', a = .ok r ∧ b = .ok r' ∧ r.texts = r'.texts) :
    Exchange.Indistinct ⟨v, a, v.after w₁⟩ ⟨w, b, w.after w₂⟩ := by
  refine ⟨hab, ⟨_, World.output_after _ _, ?_⟩, ⟨_, World.messages_after _ _, ?_⟩⟩
  · rw [World.output_after, hecho, World.lines_eq_of_messages h]
  · rw [World.messages_after, h]

section

variable {w : World} {f : FrameId} (hs : w.store.WellFormed) (hf : f < w.store.nextId)
  (hh : w.store.HostFree f)

/-- Running a text keeps the frames as they were. -/
theorem serve_eval_keeps (n : Nat) (c : String) :
    Eval.Keeps (Invariant.hostFree w.store f).store (fun _ => True) (fun _ => True)
      (serve n f (.eval c)) := by
  have hrun := (Invariant.hostFree_laws w.store f).run (.inl .self) n (s := c)
    (fun _ _ => trivial) fun _ => trivial
  exact (hrun.imp fun _ _ => trivial).bind fun _ _ => Eval.keeps_pure trivial

include hs hf hh

/-- A text is run in the world `v`, where what was in the world `w` is as it was: its answer cannot
be told apart from that in `w`, and all is still as it was. -/
theorem ask_isolated (n : Nat) {v : World} (hv : (Invariant.hostFree w.store f).store v.store)
    (hecho : v.echo = w.echo) (c : String) :
    Option.Rel (fun x y => x.Indistinct y ∧
        (Invariant.hostFree w.store f).store x.after.store ∧ x.after.echo = w.echo)
      (ask n f v (.eval c)) (ask n f w (.eval c)) := by
  have hlink : Links.still (w.store.Reaches f) f f Eq := ⟨rfl, .self, rfl⟩
  have hw : Scopes.Worlds (Links.still (w.store.Reaches f)) (.silent v.store) (.silent w.store) :=
    ⟨Scopes.still_namesMatch hs hf hh hv.1, rfl, rfl, rfl⟩
  -- the two runs side by side give the same answer, and the one alone keeps the frames
  have ha := Scopes.lockstep_eval hlink n c _ (le_refl _) _ _ hw
  have hk := serve_eval_keeps (w := w) (f := f) n c (.silent v.store)
  rw [ask, ask, serve_writeOnly n f (.eval c) v, serve_writeOnly n f (.eval c) w]
  generalize serve n f (.eval c) (.silent v.store) = o,
    serve n f (.eval c) (.silent w.store) = o' at ha hk
  cases ha with
  | exhausted => exact .none
  | ok _ hw' hr =>
    refine .some ⟨?_, (hk _ _ hv rfl).1, hecho⟩
    exact Exchange.indistinct_after hecho hw'.traces.events (.inr ⟨_, _, rfl, rfl, hr⟩)
  | error _ hw' he =>
    refine .some ⟨?_, (hk _ _ hv rfl).1, hecho⟩
    exact Exchange.indistinct_after hecho hw'.traces.events (.inl ⟨_, _, rfl, rfl, he⟩)

theorem converse_isolated_of_same (n : Nat) (cs : List String) {v : World}
    (hv : (Invariant.hostFree w.store f).store v.store) (hecho : v.echo = w.echo) :
    Option.Rel (List.Forall₂ fun x y => x.Indistinct y ∧
        ∀ g < w.store.nextId, x.after.store.frame g = w.store.frame g)
      (converse n f v (cs.map .eval)) ((cs.map .eval).mapM (ask n f w)) := by
  induction cs generalizing v with
  | nil => exact .some .nil
  | cons c cs ih =>
    have hc := ask_isolated hs hf hh n hv hecho c
    simp only [List.map_cons, converse, List.mapM_cons]
    generalize ask n f v (.eval c) = o, ask n f w (.eval c) = o' at hc
    cases hc with
    | none => exact .none
    | @some x y hxy =>
      obtain ⟨hind, hstore, hecho'⟩ := hxy
      have hrest := ih hstore hecho'
      simp only [Option.bind_eq_bind, Option.bind_some]
      generalize converse n f x.after (cs.map .eval) = o,
        (cs.map .eval).mapM (ask n f w) = o' at hrest
      cases hrest with
      | none => exact .none
      | some hxs => exact .some (.cons ⟨hind, fun g hg => hstore.1.frame g hg (by simp)⟩ hxs)

/-- **Texts do not disturb each other.** In a session where no host procedures can be reached,
texts that are run one after the other have the answers that each has by itself, at any depth:
they end together, and neither the texts of the answers nor what is printed and logged can be told
apart. This is so in any order and after any repetition, whether the texts before failed or not. All
frames stay as they were. -/
theorem converse_isolated (n : Nat) (cs : List String) :
    Option.Rel (List.Forall₂ fun x y => x.Indistinct y ∧
        ∀ g < w.store.nextId, x.after.store.frame g = w.store.frame g)
      (converse n f w (cs.map .eval)) ((cs.map .eval).mapM (ask n f w)) :=
  converse_isolated_of_same hs hf hh n cs (Invariant.hostFree_store _ _ hh) rfl

end

/-- A text that fails on the way, one that applies closures and breaks off in a list, and the first
one again. -/
def threeTexts : List Request :=
  ["(print (f x)) (first 1) (f 2)", "((lambda (f) (f (lambda (x) y))) f) (",
    "(print (f x)) (first 1) (f 2)"].map .eval

/-- The texts come to an end one after the other, and have the answers that each has by itself. -/
theorem converse_isolated_threeTexts :
    (converse 9 2 ⟨.nested, true, "", #[]⟩ threeTexts).isSome ∧
      Option.Rel (List.Forall₂ fun x y => x.Indistinct y ∧
          ∀ g < 3, x.after.store.frame g = Store.nested.frame g)
        (converse 9 2 ⟨.nested, true, "", #[]⟩ threeTexts)
        (threeTexts.mapM (ask 9 2 ⟨.nested, true, "", #[]⟩)) :=
  ⟨by decide +kernel, converse_isolated (w := ⟨.nested, true, "", #[]⟩) Store.nested_wellFormed
    (show 2 < 3 by decide) (Store.nested_hostFree 2) 9 _⟩

end MiniLisp
