import Mathlib.Logic.Relation
import MiniLisp.Proofs.Conversation
import MiniLisp.Proofs.Region

/-!
# The order of frames

Values and frames refer to each other: a closure may be bound in the very frame that it has
captured, or in an older one. All the same a frame is only ever made inside a frame that is there
already and never moves, so the way outwards from a frame is finite and meets frames that are there;
and nothing but names is bound. This is so whatever a host program asks of its sessions, whether
that succeeds or not, and also in the middle of an evaluation.

## Main definitions

* `Value.Placed s v`: the closures in the value were made in frames that are there
* `Store.Orderly s`: frames stand inside older ones, closures were made in frames that are there,
  and only names are bound
* `Store.Grown s s'`: no frame was lost or moved
* `Store.Outwards s f way`: the frames from `f` outwards, all of them there
* `Host`, `Host.Step`: a host program, and what it does

## Main results

* `Regime.orderly_laws`: evaluation keeps stores orderly
* `Host.orderly_of_reached`: so does everything that a host program does
-/

namespace MiniLisp

/-! ## What is bound -/

/-- The closures in the value were made in frames that are there. -/
def Value.Placed (s : Store) (v : Value) : Prop :=
  ∀ formals body f, v.Holds (.closure formals body f) → f < s.nextId

namespace Value

variable {s s' : Store} {v : Value}

theorem Placed.mono (hle : s.nextId ≤ s'.nextId) (h : v.Placed s) : v.Placed s' :=
  fun formals body f hc => Nat.lt_of_lt_of_le (h formals body f hc) hle

theorem placed_list {vs : List Value} : (list vs).Placed s ↔ ∀ v ∈ vs, v.Placed s := by
  constructor
  · intro h v hv formals body f hc
    exact h formals body f (.item hv hc)
  · rintro h formals body f (_ | ⟨hv, hc⟩)
    exact h _ hv formals body f hc

/-- Data have captured no frames. -/
theorem placed_of_data (hv : ∀ vs, v ≠ list vs)
    (hc : ∀ formals body f, v ≠ closure formals body f) : v.Placed s := by
  intro formals body f h
  rw [holds_iff_of_not_list hv] at h
  exact absurd h.symm (hc formals body f)

end Value

namespace Bindings

variable {b : Bindings}

/-- Nothing but names is bound. -/
def KeysAreNames (b : Bindings) : Prop := ∀ e ∈ b, ∃ n, e.1 = .name n

theorem KeysAreNames.set (h : b.KeysAreNames) (n : String) (v : Value) :
    (b.set (.name n) v).KeysAreNames := by
  induction b with
  | nil =>
    intro e he
    exact ⟨n, congrArg Prod.fst (List.mem_singleton.mp he)⟩
  | cons e b ih =>
    obtain ⟨he, hb⟩ := List.forall_mem_cons.mp h
    rw [Bindings.set]
    split
    · exact List.forall_mem_cons.mpr ⟨he, hb⟩
    · exact List.forall_mem_cons.mpr ⟨he, ih hb⟩

theorem KeysAreNames.setAll (h : b.KeysAreNames) (entries : List (String × Value)) :
    (b.setAll (entries.map fun e => (.name e.1, e.2))).KeysAreNames := by
  induction entries generalizing b with
  | nil => exact h
  | cons e entries ih => exact ih (h.set e.1 e.2)

theorem keysAreNames_ofNames (entries : List (String × Value)) :
    (ofNames entries).KeysAreNames :=
  KeysAreNames.setAll (b := []) (by simp [KeysAreNames]) entries

end Bindings

/-! ## Orderly stores -/

namespace Store

/-- Frames stand inside older ones, closures were made in frames that are there, and nothing but
names is bound. -/
structure Orderly (s : Store) : Prop extends WellFormed s where
  keys (f : FrameId) : (s.frame f).bindings.KeysAreNames

/-- No frame was lost, and none was moved into another one. -/
structure Grown (s s' : Store) : Prop where
  le : s.nextId ≤ s'.nextId
  outer : ∀ f < s.nextId, (s'.frame f).outer = (s.frame f).outer

/-- The frames from `f` outwards, one after the other, up to one with nothing outside. All of them
are there. -/
inductive Outwards (s : Store) : FrameId → List FrameId → Prop
  | last {f : FrameId} : f < s.nextId → (s.frame f).outer = none → Outwards s f [f]
  | further {f g : FrameId} {way : List FrameId} :
    f < s.nextId → (s.frame f).outer = some g → Outwards s g way → Outwards s f (f :: way)

variable {s s' s'' : Store}

theorem Grown.refl (s : Store) : s.Grown s := ⟨Nat.le_refl _, fun _ _ => rfl⟩

theorem Grown.trans (h : s.Grown s') (h' : s'.Grown s'') : s.Grown s'' :=
  ⟨Nat.le_trans h.le h'.le, fun f hf =>
    (h'.outer f (Nat.lt_of_lt_of_le hf h.le)).trans (h.outer f hf)⟩

theorem grown_push (s : Store) (b : Bindings) (o : Option FrameId) : s.Grown (s.push b o) := by
  refine ⟨?_, fun f hf => by rw [frame_push_of_lt s b o hf]⟩
  rw [nextId_push]
  exact Nat.le_succ _

theorem grown_bind (s : Store) (f : FrameId) (n : String) (v : Value) : s.Grown (s.bind f n v) :=
  ⟨Nat.le_of_eq (nextId_bind s f n v).symm, fun g _ => outer_bind s f n v g⟩

theorem orderly_empty : empty.Orderly where
  toWellFormed := wellFormed_empty
  keys f := by simp [frame, empty, Bindings.KeysAreNames]

theorem Orderly.push (h : s.Orderly) {b : Bindings} {o : Option FrameId}
    (ho : ∀ g ∈ o, g < s.nextId) (hb : ∀ e ∈ b, e.2.Placed s) (hn : b.KeysAreNames) :
    (s.push b o).Orderly where
  toWellFormed := h.toWellFormed.push ho fun e he formals body f hc =>
    Nat.le_of_lt (hb e he formals body f hc)
  keys f := by
    rcases frame_push s b o f with ⟨-, hf⟩ | hf
    · rwa [hf]
    · rw [hf]
      exact h.keys f

theorem Orderly.bind (h : s.Orderly) {v : Value} (hv : v.Placed s) (f : FrameId) (n : String) :
    (s.bind f n v).Orderly where
  outer_lt {g o} ho := by
    rw [outer_bind] at ho
    exact h.outer_lt ho
  scope_lt {g e formals body scope} he hc := by
    rw [nextId_bind]
    rcases bindings_bind s f n v g with hg | hg <;> rw [hg] at he
    · rcases Bindings.mem_set he with he | he
      · exact h.scope_lt he hc
      · exact hv formals body scope (he ▸ hc)
    · exact h.scope_lt he hc
  keys g := by
    rcases bindings_bind s f n v g with hg | hg <;> rw [hg]
    · exact (h.keys g).set n v
    · exact h.keys g

/-- What is bound can be looked up. -/
theorem Orderly.lookup (h : s.Orderly) (f : FrameId) (k : Key) : (s.lookup f k).Placed s := by
  have hsealed : s.Sealed (fun _ => True) (Value.Placed s) :=
    ⟨fun _ _ => trivial, fun _ he _ _ _ hc => h.scope_lt he hc⟩
  exact hsealed.lookup (Value.placed_of_data (by simp) (by simp)) trivial k

/-- The way outwards ends, and all the frames on it are there. -/
theorem Orderly.outwards (h : s.Orderly) {f : FrameId} (hf : f < s.nextId) :
    s.Outwards f (s.chain f) := by
  induction f using Nat.strongRecOn with
  | ind f ih =>
    rw [chain]
    cases ho : (s.frame f).outer with
    | none => exact .last hf ho
    | some g =>
      have hg : g < f := h.outer_lt ho
      simp only [hg, if_true]
      exact .further hf ho (ih g hg (Nat.lt_trans hg hf))

end Store

/-! ## Evaluation -/

/-- Stores are orderly, and frames and closures are those that are there. -/
def Regime.orderly : Regime where
  world w := w.store.Orderly
  after w w' := w.store.Grown w'.store
  scope w f := f < w.store.nextId
  frame w f := f < w.store.nextId
  expr _ := True
  value w v := v.Placed w.store
  error _ _ := True
  begun _ _ := True

namespace Regime

theorem orderly_hostLaws : orderly.HostLaws where
  error _ _ := trivial
  integer _ _ := Value.placed_of_data (by simp) (by simp)
  text _ _ := Value.placed_of_data (by simp) (by simp)
  bind {w f v} n hw _ hv := ⟨w.store.grown_bind f n v, hw.bind hv f n⟩
  parse _ := trivial
  parsed {w e} hw _ := ⟨.refl w.store, hw⟩

theorem orderly_laws : orderly.Laws where
  raised h := h
  unwritable _ _ := trivial
  refl w := .refl w.store
  trans h h' := h.trans h'
  frame_mono h hf := Nat.lt_of_lt_of_le hf h.le
  scope_mono h hf := Nat.lt_of_lt_of_le hf h.le
  value_mono h hv := hv.mono h.le
  begun_mono _ h := h
  item _ _ := trivial
  literal {a} w _ := by
    refine Value.placed_of_data ?_ ?_ <;> cases a <;> simp [Atom.value]
  undefined _ := Value.placed_of_data (by simp) (by simp)
  list := Value.placed_list
  lookup {w f} k hw _ := hw.lookup f k
  scope h := h
  closure {w params formals body f} _ _ hf := by
    intro formals' body' g hc
    rw [Value.holds_closure, Value.closure.injEq] at hc
    exact hc.2.2 ▸ hf
  body h := ⟨trivial, h _ _ _ (.self _)⟩
  enter {w entries o} hw ho hv := by
    refine ⟨⟨w.store.grown_push _ _, hw.push ?_ (fun e he => hv _ (Bindings.mem_ofNames he))
      (Bindings.keysAreNames_ofNames entries)⟩, ?_⟩
    · rintro g ⟨⟩
      exact ho
    · show w.store.nextId < (w.store.push _ _).nextId
      rw [Store.nextId_push]
      exact Nat.lt_succ_self _
  specialForm {w} k hw := ⟨⟨.refl w.store, hw⟩, trivial⟩
  applying {w _ _ _} hw _ _ := ⟨.refl w.store, hw⟩
  print {w v} hw _ := ⟨.refl w.store, hw⟩
  evaluating {w e} hw _ := ⟨.refl w.store, hw⟩
  arity _ _ := trivial
  malformed _ _ _ := trivial
  listExpected _ _ _ := trivial
  notExpression _ := trivial
  host _ := orderly_hostLaws

/-- The opening of a session leaves an orderly store with the frame of the session in it. -/
theorem orderly_openSession {w : World} {b : Bindings} (hb : ∀ e ∈ b, e.2.Placed w.store) :
    orderly.Keeps w orderly.frame (openSession b) := by
  refine orderly_laws.openSession orderly_hostLaws hb fun w₁ _ hw => ?_
  refine ⟨⟨w₁.store.grown_push _ _, hw.push (by simp) ?_ ?_⟩, ?_⟩
  · simp [builtinBindings, Value.Placed]
  · simp [builtinBindings, Bindings.KeysAreNames]
  · show w₁.store.nextId < (w₁.store.push _ _).nextId
    rw [Store.nextId_push]
    exact Nat.lt_succ_self _

end Regime

/-! ## Host programs -/

/-- A host program: the world that it finds, and the values that it was given so far. -/
structure Host where
  world : World
  given : List Value

namespace Host

/-- A host program at its beginning. -/
def start (echo : Bool) : Host := ⟨.fresh echo, []⟩

/-- The host program has the value: the closures in it stand in values that it was given. -/
def Has (h : Host) (v : Value) : Prop :=
  ∀ formals body f, v.Holds (.closure formals body f) →
    ∃ u ∈ h.given, u.Holds (.closure formals body f)

/-- What a host program does. Each of these may succeed or fail. -/
inductive Step : Host → Host → Prop
  /-- A session is opened with bindings that the host program has. -/
  | opened {h : Host} {b : Bindings} {r : Except Error FrameId} {w : World} :
    (∀ e ∈ b, h.Has e.2) → openSession b h.world = some (r, w) → Step h ⟨w, h.given⟩
  /-- A request is made to the session of a frame that is there. -/
  | asked {h : Host} {n : Nat} {f : FrameId} {q : Request} {r : Except Error Reply} {w : World} :
    f < h.world.store.nextId → (∀ v ∈ q.value?, h.Has v) → serve n f q h.world = some (r, w) →
      Step h ⟨w, (r.toOption.bind Reply.value?).toList ++ h.given⟩
  /-- An expression is evaluated in a frame that is there, and that may be broken off. -/
  | evaluated {h : Host} {stop : Hook} {n : Nat} {e : Expr} {f : FrameId}
      {r : Except Error Value} {w : World} :
    f < h.world.store.nextId → (Evaluator.stopping stop n).evaluate e f h.world = some (r, w) →
      Step h ⟨w, r.toOption.toList ++ h.given⟩

/-- The store is orderly, and the values that the host program was given are in their places. -/
structure Orderly (h : Host) : Prop where
  store : h.world.store.Orderly
  given : ∀ v ∈ h.given, v.Placed h.world.store

variable {h h' : Host}

theorem Orderly.has (ho : h.Orderly) {v : Value} (hv : h.Has v) : v.Placed h.world.store := by
  intro formals body f hc
  obtain ⟨u, hu, huc⟩ := hv formals body f hc
  exact ho.given u hu formals body f huc

/-- What the host program is given at a step comes to what it was given before. -/
theorem Orderly.next (ho : h.Orderly) {w : World} (hw : Regime.orderly.Step h.world w)
    {v : Option Value} (hv : ∀ u ∈ v, u.Placed w.store) : Orderly ⟨w, v.toList ++ h.given⟩ where
  store := hw.2
  given u hu := by
    rcases List.mem_append.mp hu with hu | hu
    · exact hv u (Option.mem_toList.mp hu)
    · exact (ho.given u hu).mono hw.1.le

/-- A step of the host program keeps all in order and moves no frame. -/
theorem Orderly.step (ho : h.Orderly) (hs : Step h h') :
    h'.Orderly ∧ h.world.store.Grown h'.world.store := by
  have L := Regime.orderly_laws
  cases hs with
  | opened hb hr =>
    obtain ⟨hw, -⟩ := Regime.orderly_openSession (fun e he => ho.has (hb e he)) h.world _ _
      (L.refl h.world) ho.store hr
    exact ⟨ho.next hw (v := none) (by simp), hw.1⟩
  | @asked n f q r w hf hq hr =>
    obtain ⟨hw, ha⟩ := L.serve Regime.orderly_hostLaws (fun _ _ _ => trivial) n hf
      (fun v hv => ho.has (hq v hv)) h.world r w (L.refl h.world) ho.store hr
    exact ⟨ho.next hw ha.toOption_bind, hw.1⟩
  | @evaluated stop n e f r w hf hr =>
    obtain ⟨hw, ha⟩ := (L.respects_stopping (fun _ _ => trivial) stop n).evaluate
      (w := h.world) (e := e) trivial hf h.world r w (L.refl h.world) ho.store hr
    exact ⟨ho.next hw ha.toOption, hw.1⟩

theorem Orderly.steps (ho : h.Orderly) (hs : Relation.ReflTransGen Step h h') :
    h'.Orderly ∧ h.world.store.Grown h'.world.store := by
  induction hs with
  | refl => exact ⟨ho, .refl _⟩
  | tail _ hstep ih =>
    obtain ⟨ho', hgrown⟩ := ih.1.step hstep
    exact ⟨ho', ih.2.trans hgrown⟩

/-- **Frames are in order.** Whatever a host program does from its beginning on, each frame stands
inside an older one or in none and is never moved, closures that are bound, in lists or by
themselves, or that were given as results, were made in frames that are there, and nothing but
names is bound. So the way outwards from any frame ends and meets frames that are there, and it is
the one that lookups and listings go. -/
theorem orderly_of_reached {echo : Bool} (hstart : Relation.ReflTransGen Step (start echo) h)
    (hlater : Relation.ReflTransGen Step h h') :
    h.world.store.Orderly ∧ (∀ v ∈ h.given, v.Placed h.world.store) ∧
      h.world.store.Grown h'.world.store ∧
      ∀ f < h.world.store.nextId, h.world.store.Outwards f (h.world.store.chain f) := by
  have hempty : (start echo).Orderly := ⟨Store.orderly_empty, by simp [start]⟩
  obtain ⟨ho, -⟩ := hempty.steps hstart
  exact ⟨ho.store, ho.given, (ho.steps hlater).2, fun f hf => ho.store.outwards hf⟩

/-- The frame that a closure has captured. -/
def captured? : Value → Option FrameId
  | .closure _ _ f => some f
  | _ => none

/-- Fails where a symbol is to be evaluated. -/
def atSymbol (x : String) : Hook := fun e _ v _ =>
  if e.symbol? = some x ∧ v.isNone then some .letOperands else none

/-- In a session with a procedure that binds names, a closure is bound in the frame that it has
captured, and one that has captured a newer frame in an older one. Then an application is broken off
in the body of the closure, in a frame that was made for it. -/
theorem orderly_selfCapturing : ∃ h h' : Host,
    Relation.ReflTransGen Step (start true) h ∧ Relation.ReflTransGen Step h h' ∧
      captured? (h.world.store.lookup 0 (.name "f")) = some 0 ∧
      captured? (h.world.store.lookup 0 (.name "g")) = some 1 ∧
      h.world.store.nextId = 2 ∧ h'.world.store.nextId = 3 ∧
      h.world.store.Orderly ∧ h.world.store.Grown h'.world.store ∧
      h.world.store.Outwards 1 (h.world.store.chain 1) := by
  have hruns : ((openSession [(.name "set", .procedure (.host .set))] (.fresh true)).bind fun p₁ =>
      (serve 9 0 (.bind (.name "f") "(lambda () f)") p₁.2).bind fun p₂ =>
      (serve 9 0 (.eval "(set \"g\" (let ((y 1)) (lambda () y)))") p₂.2).bind fun p₃ =>
      ((Evaluator.stopping (atSymbol "y") 9).evaluate (.list [.symbol "g"]) 0 p₃.2).map fun p₄ =>
        ((p₁.2.store.nextId, p₂.2.store.nextId, p₃.2.store.nextId, p₄.2.store.nextId),
          captured? (p₃.2.store.lookup 0 (.name "f")),
          captured? (p₃.2.store.lookup 0 (.name "g")))) =
        some ((1, 1, 2, 3), some 0, some 1) := by decide +kernel
  obtain ⟨⟨r₁, w₁⟩, h₁, hruns⟩ := Option.bind_eq_some_iff.mp hruns
  obtain ⟨⟨r₂, w₂⟩, h₂, hruns⟩ := Option.bind_eq_some_iff.mp hruns
  obtain ⟨⟨r₃, w₃⟩, h₃, hruns⟩ := Option.bind_eq_some_iff.mp hruns
  obtain ⟨⟨r₄, w₄⟩, h₄, hresult⟩ := Option.map_eq_some_iff.mp hruns
  simp only [Prod.mk.injEq] at hresult
  obtain ⟨⟨hn₁, hn₂, hn₃, hn₄⟩, hf, hg⟩ := hresult
  have hlt : ∀ {w : World} {n f : Nat}, w.store.nextId = n → f < n → f < w.store.nextId :=
    fun hn hf => hn ▸ hf
  have hopened : Relation.ReflTransGen Step (start true) ⟨w₁, []⟩ :=
    .single (.opened (by simp [Has]) h₁)
  have hbound := hopened.tail (.asked (hlt hn₁ Nat.one_pos) (by simp [Request.value?]) h₂)
  have hstart := hbound.tail (.asked (hlt hn₂ Nat.one_pos) (by simp [Request.value?]) h₃)
  obtain ⟨ho, -, hgrown, hway⟩ :=
    orderly_of_reached hstart (.single (.evaluated (hlt hn₃ Nat.two_pos) h₄))
  exact ⟨_, _, hstart, .single (.evaluated (hlt hn₃ Nat.two_pos) h₄), hf, hg, hn₃, hn₄, ho, hgrown,
    hway 1 (hlt hn₃ Nat.one_lt_two)⟩

end Host

end MiniLisp
