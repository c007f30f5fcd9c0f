import MiniLisp.Proofs.Conversation
import MiniLisp.Proofs.LexicalScope
import MiniLisp.Proofs.Traces
import MiniLisp.Session.Setting

/-!
# The echo

The switch for the echo decides whether printed text goes to the output, and nothing else. Two
sessions that differ in it have the same answers, frames and logs, request by request; and what
stands on the output is what the log says was printed, or nothing.

## Main definitions

* `World.Twins w w'`: the worlds have the same frames and the same log
* `World.OutputAsLogged b w`: the output follows from the log
* `SameButOutput a b o o'`: two sessions with the switches `a` and `b` are the same but for the
  output, which follows from the log

## Main results

* `Eval.WriteOnly.twins`: write-only computations do the same in worlds that are twins
* `session_echo`: the switch matters to the output alone
-/

namespace MiniLisp

namespace World

/-- The worlds have the same frames and the same log. -/
structure Twins (w w' : World) : Prop where
  store : w.store = w'.store
  events : w.events = w'.events

/-- With an echo, the output is what was printed according to the log; without one, there is
none. -/
structure Told (b : Bool) (w : World) : Prop where
  echo : w.echo = b
  output : w.output = if b then w.lines else ""

/-- The built-in procedures log each text that is printed, and nothing else. With an echo these
texts stand on the output, each with a line break after it; without one, nothing does. -/
def OutputAsLogged (b : Bool) (w : World) : Prop :=
  ∃ texts : List String,
    w.messages.filter (fun m => m.1 = .builtin) =
        texts.map (fun t => (Topic.builtin, some ("print " ++ t))) ∧
      w.output = if b then String.join (texts.map (· ++ "\n")) else ""

variable {b : Bool} {w : World}

theorem Told.after (h : Told b w) (w' : World) : Told b (w.after w') := by
  refine ⟨h.echo, ?_⟩
  rw [lines_after]
  simp only [World.after, h.echo, h.output]
  split <;> rfl

theorem Told.outputAsLogged (h : Told b w) : OutputAsLogged b w := by
  refine ⟨w.printed.map (Value.display false), ?_, ?_⟩
  · unfold messages printed
    induction w.events.toList with
    | nil => rfl
    | cons e es ih =>
      cases e <;>
        simpa [Event.entry, Event.topic, Event.message, Event.printed?, List.filterMap_cons]
          using ih
  · rw [h.output]
    unfold lines printed
    congr 1
    induction w.events.toList with
    | nil => rfl
    | cons e es ih => cases e <;> simpa [Event.line, Event.printed?, List.filterMap_cons] using ih

end World

/-- A write-only computation does the same in worlds that are twins, and so does it leave them. -/
theorem Eval.WriteOnly.twins {α : Type} {m : Eval α} (hm : m.WriteOnly) {a b : Bool}
    {w w' : World} (h : w.Twins w') (ha : w.Told a) (hb : w'.Told b) :
    Option.Rel (fun r r' => r.1 = r'.1 ∧ r.2.Twins r'.2 ∧ r.2.Told a ∧ r'.2.Told b)
      (m w) (m w') := by
  rw [hm w, hm w', h.store]
  cases m (.silent w'.store) with
  | none => exact .none
  | some r =>
    refine .some ⟨rfl, ⟨rfl, ?_⟩, ha.after _, hb.after _⟩
    exact congrArg (· ++ r.2.events) h.events

/-- The requests were answered in the same way, with the same frames and the same log after it; and
in both sessions, with the switches `a` and `b`, the output follows from the log. -/
structure Exchange.SameButOutput (a b : Bool) (x y : Exchange) : Prop where
  answer : x.answer = y.answer
  store : x.after.store = y.after.store
  events : x.after.events = y.after.events
  left : x.after.OutputAsLogged a
  right : y.after.OutputAsLogged b

/-- Both sessions are refused for the same reason, or the same is true of each request to them but
for the output. -/
def SameButOutput (a b : Bool) :
    Except Error (List Exchange) → Except Error (List Exchange) → Prop
  | .error e, .error e' => e = e'
  | .ok xs, .ok ys => List.Forall₂ (Exchange.SameButOutput a b) xs ys
  | _, _ => False

theorem converse_twins (n : Nat) (f : FrameId) (qs : List Request) {a b : Bool} {w w' : World}
    (h : w.Twins w') (ha : w.Told a) (hb : w'.Told b) :
    Option.Rel (List.Forall₂ (Exchange.SameButOutput a b)) (converse n f w qs)
      (converse n f w' qs) := by
  induction qs generalizing w w' with
  | nil => exact .some .nil
  | cons q qs ih =>
    have hq := (serve_writeOnly n f q).twins h ha hb
    simp only [converse, ask]
    generalize serve n f q w = o, serve n f q w' = o' at hq
    cases hq with
    | none => exact .none
    | @some r r' hr =>
      obtain ⟨hanswer, htwins, ha', hb'⟩ := hr
      have hrest := ih htwins ha' hb'
      simp only [Option.map_some, Option.bind_eq_bind, Option.bind_some]
      generalize converse n f r.2 qs = o, converse n f r'.2 qs = o' at hrest
      cases hrest with
      | none => exact .none
      | some hxs =>
        refine .some (.cons ?_ hxs)
        exact ⟨hanswer, htwins.store, htwins.events, ha'.outputAsLogged, hb'.outputAsLogged⟩

/-- **The switch for the echo matters to the output alone.** Under any two settings, sessions with
the same bindings and the same requests end together, at each depth: they are refused for the same
reason, or each request has the same answer and leaves the same frames and the same log. The output
is then what the log of the built-in procedures says was printed, if there is an echo, and nothing
otherwise. -/
theorem session_echo (n : Nat) (b : Bindings) (qs : List Request) (s : Store)
    (x y : Option String) :
    Option.Rel (SameButOutput (flagSetting true x) (flagSetting true y))
      (session n b qs ⟨s, flagSetting true x, "", #[]⟩)
      (session n b qs ⟨s, flagSetting true y, "", #[]⟩) := by
  have htwins : ∀ a b : Bool, World.Twins ⟨s, a, "", #[]⟩ ⟨s, b, "", #[]⟩ := fun _ _ => ⟨rfl, rfl⟩
  have htold : ∀ a : Bool, World.Told a ⟨s, a, "", #[]⟩ := fun a => ⟨rfl, by cases a <;> rfl⟩
  have hopen := (openSession_writeOnly b).twins (htwins (flagSetting true x) (flagSetting true y))
    (htold _) (htold _)
  unfold session
  generalize openSession b ⟨s, flagSetting true x, "", #[]⟩ = o,
    openSession b ⟨s, flagSetting true y, "", #[]⟩ = o' at hopen
  cases hopen with
  | none => exact .none
  | @some r r' hr =>
    obtain ⟨o, w⟩ := r
    obtain ⟨o', w'⟩ := r'
    obtain ⟨rfl, htwins, ha, hb⟩ := hr
    cases o with
    | error e => exact .some rfl
    | ok f =>
      have hxs := converse_twins n f qs htwins ha hb
      simp only
      generalize converse n f w qs = o, converse n f w' qs = o' at hxs
      cases hxs with
      | none => exact .none
      | some hxs => exact .some hxs

/-- A host procedure reads a text that prints, and its result is printed; then the text fails. -/
example : (session 9 [(.name "read", .procedure (.host .readEval))]
      [.eval "(print (read \"(print 1)\")) (first 2)", .eval "(print read)"]
      ⟨.empty, flagSetting true (some " On "), "", #[]⟩).map
    (fun | .ok xs => xs.map (·.after.output) | .error _ => []) =
      some ["1\n1\n", "1\n1\n#<builtin host:read-eval>\n"] := by
  decide +kernel

end MiniLisp
