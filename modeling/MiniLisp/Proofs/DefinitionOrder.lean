import MiniLisp.Proofs.Grammar
import MiniLisp.Proofs.Reordering

/-!
# Closures and later definitions

A closure holds the frame in which it was made, and not what was bound there at the time: what is
defined after it is seen by its calls. So to make a closure and to define another name can be done
in either order. The sessions that this leads to differ at most in the order in which the two names
are listed, and answer all further requests in the same way.

## Main definitions

* `World.madeClosure`: the log after a text that makes a closure
* `World.Swapped g e e' w w'`: the worlds differ at most in the order of two entries of a frame
* `World.CallSees`: what the call of a closure finds under a name

## Main results

* `Bindings.set_comm_or`: names given in either order
* `serve_bind_lambda`: binding a name to a closure that a text makes
* `converse_bind_define`: a closure and a definition, in either order
-/

namespace MiniLisp

/-! ## Names given in either order -/

/-- To give values to two names in either order is the same, but for the order of the names if both
are new. -/
theorem Bindings.set_comm_or (b : Bindings) {m n : String} (h : m ≠ n) (u v : Value) :
    (b.set (.name m) u).set (.name n) v = (b.set (.name n) v).set (.name m) u ∨
      (b.set (.name m) u).set (.name n) v = b ++ [(.name m, u), (.name n, v)] ∧
        (b.set (.name n) v).set (.name m) u = b ++ [(.name n, v), (.name m, u)] := by
  induction b with
  | nil => exact .inr ⟨by simp [set, h], by simp [set, h.symm]⟩
  | cons e b ih =>
    obtain ⟨k, w⟩ := e
    by_cases hm : k.same (.name m) = true
    · have hn : k.same (.name n) = false := by
        cases k with
        | name x =>
          rw [Key.same_name, beq_iff_eq] at hm
          simp [hm, h]
        | other u => rfl
      exact .inl (by simp [set, hm, hn])
    · by_cases hn : k.same (.name n) = true
      · exact .inl (by simp [set, hm, hn])
      · simpa [set, hm, hn] using ih

/-- Stores in which two names were bound in either order differ in order alone. -/
theorem Store.sameUpToOrder_bind (s : Store) {g : FrameId} (hg : g < s.nextId) {m n : String}
    (h : m ≠ n) (u v : Value) :
    ((s.bind g m u).bind g n v).SameUpToOrder ((s.bind g n v).bind g m u) := by
  constructor
  · simp only [nextId_bind]
  · intro f
    simp only [outer_bind]
  · intro f k
    by_cases hf : f = g
    · subst hf
      have hlt : ∀ x y, f < (s.bind f x y).nextId := fun x y => by rwa [nextId_bind]
      simp only [frame_bind_self _ _ _ (hlt _ _), frame_bind_self s _ _ hg, Bindings.get?_set]
      cases k with
      | name x =>
        by_cases hm : m = x
        · simp [← hm, h.symm]
        · simp [hm]
      | other u => rfl
    · simp only [frame_bind_of_ne _ _ _ hf]

/-- Of two names that were bound in a frame, both stand for what they were given. -/
theorem Store.lookup_bind_bind (s : Store) {g : FrameId} (hg : g < s.nextId) {m n : String}
    (h : m ≠ n) (u v : Value) :
    ((s.bind g m u).bind g n v).lookup g (.name m) = u ∧
      ((s.bind g m u).bind g n v).lookup g (.name n) = v := by
  have hg' : g < (s.bind g m u).nextId := by rwa [nextId_bind]
  constructor
  · refine lookup_of_get? _ ?_
    rw [frame_bind_self _ _ _ hg', frame_bind_self s _ _ hg, Bindings.get?_set_of_ne _ _ h,
      Bindings.get?_set_self]
  · refine lookup_of_get? _ ?_
    rw [frame_bind_self _ _ _ hg', Bindings.get?_set_self]

/-- The worlds are the same, but that two entries, which are the last of the frame `g`, may stand in
either order. -/
structure World.Swapped (g : FrameId) (e e' : Key × Value) (w w' : World) : Prop where
  echo : w.echo = w'.echo
  output : w.output = w'.output
  events : w.events = w'.events
  nextId : w.store.nextId = w'.store.nextId
  frame : ∀ f, f ≠ g → w.store.frame f = w'.store.frame f
  outer : (w.store.frame g).outer = (w'.store.frame g).outer
  bindings : (w.store.frame g).bindings = (w'.store.frame g).bindings ∨
    ∃ b, (w.store.frame g).bindings = b ++ [e, e'] ∧ (w'.store.frame g).bindings = b ++ [e', e]

theorem World.swapped_bind (w : World) {g : FrameId} (hg : g < w.store.nextId) {m n : String}
    (h : m ≠ n) (u v : Value) :
    Swapped g (.name m, u) (.name n, v) ((w.bind g m u).bind g n v)
      ((w.bind g n v).bind g m u) where
  echo := rfl
  output := rfl
  events := rfl
  nextId := by simp only [World.bind, Store.nextId_bind]
  frame f hf := by simp only [World.bind, Store.frame_bind_of_ne _ _ _ hf]
  outer := by simp only [World.bind, Store.outer_bind]
  bindings := by
    have hlt : ∀ x y, g < (w.store.bind g x y).nextId := fun x y => by rwa [Store.nextId_bind]
    simp only [World.bind, Store.frame_bind_self _ _ _ (hlt _ _), Store.frame_bind_self _ _ _ hg]
    exact ((w.store.frame g).bindings.set_comm_or h u v).imp_right fun hb => ⟨_, hb⟩

/-! ## Texts that make closures -/

section Closure

variable {code : String} {params : List String} {body : Expr}

/-- The world after a text that makes a closure: two entries in the log, and no change else. -/
def World.madeClosure (w : World) (params : List String) (body : Expr) : World :=
  (w.log (.evaluating (.list [.symbol "lambda", .list (params.map .symbol), body]))).log
    (.specialForm .lambda)

theorem run_lambda (hcode : parseAll code =
      ([.list [.symbol "lambda", .list (params.map .symbol), body]], none))
    (d : Nat) (g : FrameId) (w : World) :
    run (d + 1) code g w =
      some (.ok (.closure params body g), w.madeClosure params body) := by
  have hmake : evaluate (d + 1) (.list [.symbol "lambda", .list (params.map .symbol), body]) g =
      Eval.emit (.specialForm .lambda) >>= fun _ => pure (.closure params body g) :=
    (Evaluator.upTo d).evaluateWith_lambda params body g
  rw [run, hcode]
  simp only [runAll, hmake]
  rfl

/-- To bind a name to the closure that a text makes changes the frame of the session, and the
log. -/
theorem serve_bind_lambda (hcode : parseAll code =
      ([.list [.symbol "lambda", .list (params.map .symbol), body]], none))
    (d : Nat) (g : FrameId) (w : World) (m : String) :
    serve (d + 1) g (.bind (.name m) code) w =
      some (.ok .done, (w.madeClosure params body).bind g m (.closure params body g)) := by
  rw [serve, Eval.bind_apply, run_lambda hcode]
  rfl

/-- In the world `w` the call of a closure that was made in the frame `g` sees the value `v` under
the name `x`, unless that is a parameter. -/
def World.CallSees (w : World) (params : List String) (body : Expr) (g : FrameId) (x : String)
    (v : Value) : Prop :=
  x ∉ params → ∀ args f w', Eval.enterClosure params body g args w = some (.ok f, w') →
    w'.store.lookup f (.name x) = v

/-- A call sees what is bound in the frame of the closure when it takes place. -/
theorem World.callSees_lookup {w : World} {g : FrameId} (hg : g < w.store.nextId) (x : String) :
    w.CallSees params body g x (w.store.lookup g (.name x)) := by
  intro hx args f w' hcall
  unfold Eval.enterClosure at hcall
  split at hcall
  · cases hcall
    have hnone : (Bindings.ofNames (params.zip args)).get? (.name x) = none := by
      refine Bindings.get?_ofNames_of_notMem fun hmem => hx ?_
      obtain ⟨e, he, rfl⟩ := List.mem_map.mp hmem
      exact (List.of_mem_zip he).1
    rw [World.enter, Store.lookup_push_self _ hg, hnone]
    rfl
  · cases hcall

/-- **Closures see definitions made after their creation.** In the session of the frame `g`, let one
name be bound to the closure that a text makes, and let another be defined. Both orders succeed, at
any depth but zero. The worlds that they lead to differ at most in the order in which the two names
are listed, and answer all further requests in the same way: with the same answers, output and log.
In both of them a call of the closure sees the closure and the definition. No procedure that shows
frames must be in reach of the session, and it must not be asked for the listing. -/
theorem converse_bind_define {w : World} {g : FrameId} (hg : g < w.store.nextId)
    (hd : w.store.Discreet g) {m n : String} (h : m ≠ n)
    (hcode : parseAll code =
      ([.list [.symbol "lambda", .list (params.map .symbol), body]], none))
    {v : Value} (hv : v.Discreet w.store) :
    ∃ u u' w₁ w₂ : World,
      (∀ d, converse (d + 1) g w [.bind (.name m) code, .define (.name n) v] =
        some [⟨w, .ok .done, u⟩, ⟨u, .ok .done, w₁⟩]) ∧
      (∀ d, converse (d + 1) g w [.define (.name n) v, .bind (.name m) code] =
        some [⟨w, .ok .done, u'⟩, ⟨u', .ok .done, w₂⟩]) ∧
      World.Swapped g (.name m, .closure params body g) (.name n, v) w₁ w₂ ∧
      (∀ w' ∈ [w₁, w₂], w'.CallSees params body g m (.closure params body g) ∧
        w'.CallSees params body g n v) ∧
      ∀ d qs, (∀ q ∈ qs, q.Discreet w.store) →
        Option.Rel (List.Forall₂ Exchange.Same) (converse d g w₁ qs) (converse d g w₂ qs) := by
  have hsame := w.store.sameUpToOrder_bind hg h (.closure params body g) v
  have hdefine : ∀ d, serve (d + 1) g (.define (.name n) v) w = some (.ok .done, w.bind g n v) :=
    fun _ => rfl
  refine ⟨(w.madeClosure params body).bind g m (.closure params body g), w.bind g n v,
    ((w.madeClosure params body).bind g m (.closure params body g)).bind g n v,
    ((w.madeClosure params body).bind g n v).bind g m (.closure params body g), fun d => ?_,
    fun d => ?_, World.swapped_bind (w.madeClosure params body) hg h _ _, ?_, fun d qs hqs => ?_⟩
  · simp only [converse, ask, serve_bind_lambda hcode]
    rfl
  · simp only [converse, ask, hdefine, Option.map_some, Option.bind_eq_bind, Option.bind_some,
      serve_bind_lambda hcode]
    rfl
  · intro w' hw'
    have hlookup := w.store.lookup_bind_bind hg h (.closure params body g) v
    have hfound : g < w'.store.nextId ∧ w'.store.lookup g (.name m) = .closure params body g ∧
        w'.store.lookup g (.name n) = v := by
      rcases List.mem_pair.mp hw' with rfl | rfl
      · refine ⟨?_, hlookup⟩
        simpa [World.bind, World.madeClosure, World.log] using hg
      · refine ⟨?_, (hsame.lookup g _).symm.trans hlookup.1,
          (hsame.lookup g _).symm.trans hlookup.2⟩
        simpa [World.bind, World.madeClosure, World.log] using hg
    obtain ⟨hg', hm, hn⟩ := hfound
    have hseen : ∀ x, w'.CallSees params body g x (w'.store.lookup g (.name x)) :=
      World.callSees_lookup hg'
    exact ⟨hm ▸ hseen m, hn ▸ hseen n⟩
  · have hclosure : Reordering.value w.store (.closure params body g) (.closure params body g) :=
      Value.matches_closure.mpr ⟨rfl, hd⟩
    refine converse_sameUpToOrder hd d hqs ⟨hsame, ?_, ?_, rfl, rfl, rfl⟩
    · have hsealed := w.store.sealed_discreet.imp fun _ => Reordering.value_self
      exact (hsealed.bind g m hclosure).bind g n (Reordering.value_self hv)
    · show w.store.nextId ≤ ((w.store.bind g m _).bind g n v).nextId
      exact Nat.le_of_eq (by rw [Store.nextId_bind, Store.nextId_bind])

end Closure

/-- A session with a host procedure that adds numbers. -/
def Store.adding : Store :=
  empty.push (builtinBindings ++ [(.name "sum", .procedure (.host .sum))]) none

/-- `(lambda (k) (count (sum k -1)))`, made in the frame of the session. -/
def Value.countingStep : Value :=
  .closure ["k"] (.list [.symbol "count",
    .list [.symbol "sum", .symbol "k", .atom (.number (.int (-1)))]]) 0

theorem Store.adding_discreet (f : FrameId) : adding.Discreet f := by
  refine discreet_of_forall ?_ f
  intro fr hfr e he p hp
  simp only [adding, builtinBindings, push, empty, Array.toList_push, List.nil_append,
    List.cons_append, List.mem_cons, List.not_mem_nil, or_false] at hfr
  subst hfr
  simp only [List.mem_cons, List.not_mem_nil, or_false] at he
  rcases he with rfl | rfl | rfl | rfl <;> rw [Value.holds_procedure] at hp <;> cases hp <;>
    exact id

/-- Two closures that call each other, and one of them is made from a text. -/
theorem converse_bind_define_mutual :
    Store.adding.Discreet 0 ∧ Value.countingStep.Discreet .adding ∧
      ∃ u u' w₁ w₂ : World,
        (∀ d, converse (d + 1) 0 ⟨.adding, true, "", #[]⟩
            [.bind (.name "count") "(lambda (k) (if k (step k) k))",
              .define (.name "step") .countingStep] =
          some [⟨⟨.adding, true, "", #[]⟩, .ok .done, u⟩, ⟨u, .ok .done, w₁⟩]) ∧
        (∀ d, converse (d + 1) 0 ⟨.adding, true, "", #[]⟩
            [.define (.name "step") .countingStep,
              .bind (.name "count") "(lambda (k) (if k (step k) k))"] =
          some [⟨⟨.adding, true, "", #[]⟩, .ok .done, u'⟩, ⟨u', .ok .done, w₂⟩]) ∧
        ∀ d, Option.Rel (List.Forall₂ Exchange.Same) (converse d 0 w₁ [.eval "(count 2)"])
          (converse d 0 w₂ [.eval "(count 2)"]) := by
  have hdrain : (Source.ofText "(lambda (k) (if k (step k) k))").drain =
      ([⟨.opening, "(", 0⟩, ⟨.word, "lambda", 1⟩, ⟨.opening, "(", 8⟩, ⟨.word, "k", 9⟩,
        ⟨.closing, ")", 10⟩, ⟨.opening, "(", 12⟩, ⟨.word, "if", 13⟩, ⟨.word, "k", 16⟩,
        ⟨.opening, "(", 18⟩, ⟨.word, "step", 19⟩, ⟨.word, "k", 24⟩, ⟨.closing, ")", 25⟩,
        ⟨.word, "k", 27⟩, ⟨.closing, ")", 28⟩, ⟨.closing, ")", 29⟩], none) :=
    Source.drain_token rfl <| Source.drain_token rfl <| Source.drain_token rfl <|
      Source.drain_token rfl <| Source.drain_token rfl <| Source.drain_token rfl <|
      Source.drain_token rfl <| Source.drain_token rfl <| Source.drain_token rfl <|
      Source.drain_token rfl <| Source.drain_token rfl <| Source.drain_token rfl <|
      Source.drain_token rfl <| Source.drain_token rfl <| Source.drain_token rfl <|
      Source.drain_finished rfl
  have hcode : parseAll "(lambda (k) (if k (step k) k))" =
      ([.list [.symbol "lambda", .list (["k"].map .symbol), .list [.symbol "if", .symbol "k",
        .list [.symbol "step", .symbol "k"], .symbol "k"]]], none) := by
    rw [parseAll_eq_readTokens, hdrain]
    rfl
  have hstep : Value.countingStep.Discreet .adding :=
    Value.Each.of_not_list (by simp [Value.countingStep]) (Store.adding_discreet 0)
  obtain ⟨u, u', w₁, w₂, h₁, h₂, -, -, hsame⟩ := converse_bind_define
    (w := ⟨.adding, true, "", #[]⟩) (g := 0) Nat.zero_lt_one (Store.adding_discreet 0)
    (m := "count") (n := "step") (by decide) hcode hstep
  refine ⟨Store.adding_discreet 0, hstep, u, u', w₁, w₂, h₁, h₂, fun d => hsame d _ ?_⟩
  intro q hq
  rw [List.mem_singleton.mp hq]
  exact ⟨nofun, nofun⟩

/-- Counting down comes to an end in either order. -/
example : ∀ qs ∈ [[Request.bind (.name "count") "(lambda (k) (if k (step k) k))",
        .define (.name "step") .countingStep],
      [.define (.name "step") .countingStep,
        .bind (.name "count") "(lambda (k) (if k (step k) k))"]],
    (converse 20 0 ⟨.adding, true, "", #[]⟩ (qs ++ [.eval "(print (count 2))"])).map
      (fun xs => xs.map (·.after.output)) = some ["", "", "0\n"] := by
  decide +kernel

end MiniLisp
