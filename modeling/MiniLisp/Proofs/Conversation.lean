import MiniLisp.Proofs.Depth
import MiniLisp.Proofs.Invariant
import MiniLisp.Session.Basic

/-!
# Conversations

A session answers one request after the other. A request that fails ends nothing: the next one
finds the world as it was left. As with expressions, answers stay the same at greater depth.

## Main definitions

* `Exchange`: a request that was answered
* `ask`, `converse`: one request, and requests one after the other
* `session`: a session is opened and requests are made to it

## Main results

* `serve_mono`, `converse_mono`, `session_mono`: answers stay the same at greater depth
* `Regime.Laws.run`, `Invariant.Laws.run`: to run a text keeps what evaluation keeps
* `Regime.Laws.openSession`, `Regime.Laws.serve`: so do the opening of a session and its requests
-/

namespace MiniLisp

/-- A request that was answered: the world before it, the answer, and the world after it. -/
structure Exchange where
  before : World
  answer : Except Error Reply
  after : World

/-- Makes a request to the session of frame `f` in the world `w`, at depth `n`. -/
def ask (n : Nat) (f : FrameId) (w : World) (q : Request) : Option Exchange :=
  (serve n f q w).map fun r => ⟨w, r.1, r.2⟩

/-- Makes requests to the session of frame `f`, one after the other, from the world `w` on. -/
def converse (n : Nat) (f : FrameId) (w : World) : List Request → Option (List Exchange)
  | [] => some []
  | q :: qs => do
    let x ← ask n f w q
    let xs ← converse n f x.after qs
    some (x :: xs)

/-- Opens a session with the given bindings and makes requests to it. The session may be refused,
if there is a key that is no name. -/
def session (n : Nat) (b : Bindings) (qs : List Request) (w : World) :
    Option (Except Error (List Exchange)) :=
  match openSession b w with
  | some (.ok f, w') => (converse n f w' qs).map .ok
  | some (.error e, _) => some (.error e)
  | none => none

/-- The value that a request hands over. -/
def Request.value? : Request → Option Value
  | .define _ v => some v
  | _ => none

/-- The value that a reply hands over. -/
def Reply.value? : Reply → Option Value
  | .value v => some v
  | _ => none

/-! ## Depth -/

section Depth

variable {n m : Nat} (h : n ≤ m) (f : FrameId)
include h

theorem runAll_mono (v : Value) (es : List Expr) : runAll n f v es ≤ runAll m f v es := by
  induction es generalizing v with
  | nil => exact le_refl _
  | cons e es ih =>
    exact Eval.bind_mono (le_refl _) fun _ => Eval.bind_mono (evaluate_mono h e f) ih

theorem run_mono (s : String) : run n s f ≤ run m s f :=
  Eval.bind_mono (runAll_mono h f .undefined _) fun _ => le_refl _

theorem serve_mono (q : Request) : serve n f q ≤ serve m f q := by
  cases q with
  | eval code => exact Eval.bind_mono (run_mono h f code) fun _ => le_refl _
  | interpret code =>
    exact Eval.bind_mono (Eval.bind_mono (le_refl _) fun e => evaluate_mono h e f) fun _ =>
      le_refl _
  | bind k code => exact Eval.bind_mono (run_mono h f code) fun _ => le_refl _
  | define k v => exact le_refl _
  | lookup k => exact le_refl _
  | listing => exact le_refl _

theorem ask_mono {q : Request} {w : World} {x : Exchange} (hx : ask n f w q = some x) :
    ask m f w q = some x := by
  obtain ⟨r, hr, rfl⟩ := Option.map_eq_some_iff.mp hx
  rw [ask, serve_mono h f q w r hr]
  rfl

/-- The answers of a conversation stay the same at greater depth. -/
theorem converse_mono {qs : List Request} {w : World} {xs : List Exchange}
    (hxs : converse n f w qs = some xs) : converse m f w qs = some xs := by
  induction qs generalizing w xs with
  | nil => exact hxs
  | cons q qs ih =>
    obtain ⟨x, hx, hrest⟩ := Option.bind_eq_some_iff.mp hxs
    obtain ⟨ys, hys, hcons⟩ := Option.bind_eq_some_iff.mp hrest
    cases hcons
    rw [converse, ask_mono h f hx]
    show (converse m f x.after qs >>= fun xs => some (x :: xs)) = _
    rw [ih hys]
    rfl

omit f in
/-- What a session comes to stays the same at greater depth. -/
theorem session_mono {b : Bindings} {qs : List Request} {w : World}
    {o : Except Error (List Exchange)} (ho : session n b qs w = some o) :
    session m b qs w = some o := by
  unfold session at ho ⊢
  split at ho
  · obtain ⟨xs, hxs, rfl⟩ := Option.map_eq_some_iff.mp ho
    rw [converse_mono h _ hxs]
    rfl
  · exact ho
  · cases ho

end Depth

/-! ## What sessions keep -/

namespace Regime.Laws

variable {R : Regime} (L : R.Laws) {w : World} {f : FrameId}
include L

theorem runAll (n : Nat) (hf : R.frame w f) {v : Value} (hv : R.value w v) {es : List Expr}
    (he : ∀ e ∈ es, R.expr e) : R.Keeps w R.value (runAll n f v es) := by
  induction es generalizing w v with
  | nil => exact L.keeps_value hv
  | cons e es ih =>
    obtain ⟨he, hes⟩ := List.forall_mem_cons.mp he
    refine L.keeps_bind (Q := fun _ _ => True)
      (keeps_step fun w₁ _ hw => ⟨L.evaluating hw he, trivial⟩) fun w₁ ha _ _ => ?_
    refine L.keeps_bind (L.evaluate n he (L.frame_mono ha hf)) fun w₂ ha₂ u hu => ?_
    exact ih (L.frame_mono (L.trans ha ha₂) hf) hu hes

/-- To run a text keeps to a regime that admits the expressions of the text and the failures to
read. -/
theorem run (n : Nat) (hf : R.frame w f) {s : String} (he : ∀ e ∈ (parseAll s).1, R.expr e)
    (hread : ∀ w e, R.error w (.read e)) : R.Keeps w R.value (run n s f) := by
  refine L.keeps_bind (L.runAll n hf (L.undefined w) he) fun w₁ _ v hv => ?_
  split
  · exact L.keeps_value hv
  · exact L.keeps_raise fun w₂ _ _ => hread w₂ _

/-- To open a session keeps to a regime that admits a frame with the built-in procedures. -/
theorem openSession (H : R.HostLaws) {b : Bindings} (hb : ∀ e ∈ b, R.value w e.2)
    (hglobal : ∀ w₁, R.after w w₁ → R.world w₁ → R.Step w₁ (w₁.enter builtinBindings none) ∧
      R.frame (w₁.enter builtinBindings none) w₁.store.nextId) :
    R.Keeps w R.frame (openSession b) := by
  refine L.keeps_bind (Q := R.frame) (keeps_step hglobal) fun w₁ ha f hf => ?_
  have hb₁ : ∀ e ∈ b, R.value w₁ e.2 := fun e he => L.value_mono ha (hb e he)
  exact L.keeps_bind (L.defineAll H hf hb₁) fun w₂ ha₂ _ _ =>
    L.keeps_pure fun w₃ ha₃ => L.frame_mono (L.trans ha₂ ha₃) hf

/-- To answer a request keeps to a regime that admits all expressions that are read, where host
procedures may occur. -/
theorem serve (H : R.HostLaws) (he : ∀ s, ∀ e ∈ (parseAll s).1, R.expr e) (n : Nat)
    (hf : R.frame w f) {q : Request} (hq : ∀ v ∈ q.value?, R.value w v) :
    R.Keeps w (fun w a => ∀ v ∈ a.value?, R.value w v) (serve n f q) := by
  have hrun : ∀ s, R.Keeps w R.value (MiniLisp.run n s f) := fun s =>
    L.run n hf (he s) fun w e => H.error w _
  cases q with
  | eval code =>
    refine L.keeps_bind (hrun code) fun w₁ _ v hv => L.keeps_pure fun w₂ ha => ?_
    simpa [Reply.value?] using L.value_mono ha hv
  | interpret code =>
    refine L.keeps_bind (Q := R.value) ?_ fun w₁ _ v hv => L.keeps_pure fun w₂ ha => ?_
    · exact L.keeps_bind (L.parse H code) fun w₁ ha e he => L.evaluate n he (L.frame_mono ha hf)
    · simpa [Reply.value?] using L.value_mono ha hv
  | define k v =>
    exact L.keeps_bind (L.define H hf k (hq v rfl)) fun w₁ _ _ _ =>
      L.keeps_pure (by simp [Reply.value?])
  | bind k code =>
    refine L.keeps_bind (hrun code) fun w₁ ha v hv => ?_
    exact L.keeps_bind (L.define H (L.frame_mono ha hf) k hv) fun w₂ _ _ _ =>
      L.keeps_pure (by simp [Reply.value?])
  | lookup k =>
    refine L.keeps_bind (Q := R.value) ?_ fun w₁ _ v hv => L.keeps_pure fun w₂ ha => ?_
    · exact L.keeps_lookup k hf fun _ w => H.error w _
    · simpa [Reply.value?] using L.value_mono ha hv
  | listing =>
    have htext : ∀ {w t}, R.Keeps w (fun _ _ => True) (Eval.textOfStore t) :=
      L.keeps_textOfStore fun w => H.error w _
    refine L.keeps_bind htext fun w₁ _ _ _ => L.keeps_bind htext fun w₂ _ _ _ => ?_
    exact L.keeps_pure (by simp [Reply.value?])

end Regime.Laws

/-- To run a text keeps an invariant that admits the expressions of the text and the failures to
read. -/
theorem Invariant.Laws.run {I : Invariant} (L : I.Laws) {f : FrameId} (hf : I.frame f) (n : Nat)
    {s : String} (he : ∀ e ∈ (parseAll s).1, I.expr e) (hread : ∀ e, I.error (.read e)) :
    Eval.Keeps I.store I.value I.error (run n s f) :=
  keeps_of_regime fun w => L.regime.run (w := w) n hf he fun _ => hread

end MiniLisp
