import MiniLisp.Proofs.Depth
import MiniLisp.Proofs.Invariant
import MiniLisp.Proofs.Region

/-!
# Where evaluation writes

An evaluation in a frame binds names in that frame, through the host procedures that it calls, and
in frames that it makes itself. It never writes to any other frame: not to one around its own and
not to one that a closure has captured, and not even for a while. Without host procedures in reach
it writes to no frame at all that was there before.

## Main results

* `evaluate_frame`: the frames that were there before, but for the one of the evaluation, stay as
  they were, throughout; and that one too if no host procedure can be reached from it
-/

namespace MiniLisp

namespace Store

variable {s s₀ : Store} {N : Nat} {f g : FrameId}

/-- The frames below `N`, but for `f`, are as they are in `s₀`. -/
structure Same (s s₀ : Store) (N : Nat) (f : Option FrameId) : Prop where
  size : N ≤ s.nextId
  frame : ∀ g < N, f ≠ some g → s.frame g = s₀.frame g

theorem Same.refl (s : Store) (f : Option FrameId) : s.Same s s.nextId f :=
  ⟨Nat.le_refl _, fun _ _ _ => rfl⟩

theorem Same.push {f : Option FrameId} (h : s.Same s₀ N f) (b : Bindings) (o : Option FrameId) :
    (s.push b o).Same s₀ N f := by
  refine ⟨?_, fun g hg hf => ?_⟩
  · rw [nextId_push]
    exact Nat.le_succ_of_le h.size
  · rw [frame_push_of_lt s b o (Nat.lt_of_lt_of_le hg h.size)]
    exact h.frame g hg hf

/-- A binding in `f`, or in a frame from `N` on, is no change. -/
theorem Same.bind (h : s.Same s₀ N (some f)) (hg : g = f ∨ N ≤ g) (n : String) (v : Value) :
    (s.bind g n v).Same s₀ N (some f) := by
  refine ⟨?_, fun g' hg' hf => ?_⟩
  · rw [nextId_bind]
    exact h.size
  · have hne : g' ≠ g := by
      rintro rfl
      rcases hg with rfl | hN
      · exact hf rfl
      · exact absurd hg' (Nat.not_lt.mpr hN)
    rw [frame_bind_of_ne s n v hne]
    exact h.frame g' hg' hf

end Store

namespace Invariant

variable (s₀ : Store) (f : FrameId)

/-- Evaluation takes place in `f` and in new frames, and the others stay as they are in `s₀`. -/
def confined : Invariant where
  store s := s.Same s₀ s₀.nextId (some f)
  scope _ := True
  frame g := g = f ∨ s₀.nextId ≤ g
  expr _ := True
  value _ := True
  error _ := True

theorem confined_laws : (confined s₀ f).Laws where
  raised _ := trivial
  unwritable _ _ := trivial
  item _ _ := trivial
  literal _ := trivial
  undefined := trivial
  list := by simp [confined]
  lookup _ _ _ := trivial
  scope _ := trivial
  closure _ _ _ := trivial
  body _ := ⟨trivial, trivial⟩
  enter h _ _ := ⟨h.push _ _, .inr h.size⟩
  arity _ := trivial
  form _ _ := trivial
  listExpected _ := trivial
  notExpression _ := trivial
  host _ :=
    { error := fun _ => trivial
      integer := fun _ => trivial
      text := fun _ => trivial
      bind := fun n h hg _ => h.bind hg n _
      parse := fun _ => trivial }

/-- The frames that can be reached from `f` in `s₀`, and the new ones. -/
def reachable (g : FrameId) : Prop := s₀.Reaches f g ∨ s₀.nextId ≤ g

/-- Without host procedures, all frames stay as they are in `s₀`. -/
def hostFree : Invariant where
  store s := s.Same s₀ s₀.nextId none ∧
    s.Sealed (reachable s₀ f) (Value.Each (Value.Within (reachable s₀ f)))
  scope := reachable s₀ f
  frame := reachable s₀ f
  expr _ := True
  value := Value.Each (Value.Within (reachable s₀ f))
  error _ := True

theorem hostFree_laws : (hostFree s₀ f).Laws where
  raised _ := trivial
  unwritable _ _ := trivial
  item _ _ := trivial
  literal {a} _ := by
    refine Value.Each.of_not_list ?_ ?_ <;> cases a <;> simp [Atom.value, Value.Within]
  undefined := Value.Each.of_not_list (by simp) trivial
  list := Value.each_list fun _ => trivial
  lookup k h hg := h.2.lookup (Value.Each.of_not_list (by simp) trivial) hg k
  scope h := h
  closure _ _ hg := Value.Each.of_not_list (by simp) hg
  body h := ⟨trivial, h.self⟩
  enter {s entries o} h ho hv := by
    refine ⟨⟨h.1.push _ _, h.2.push ho fun e he => hv _ (Bindings.mem_ofNames he)⟩, .inr h.1.size⟩
  arity _ := trivial
  form _ _ := trivial
  listExpected _ := trivial
  notExpression _ := trivial
  host h := h.self.elim

/-- At the beginning, what can be reached is as the invariant wants it. -/
theorem hostFree_store (h : s₀.HostFree f) : (hostFree s₀ f).store s₀ :=
  ⟨.refl _ _, h.sealed.union_new.imp fun _ hv => hv.imp fun _ => Value.Within.mono fun _ => .inl⟩

end Invariant

/-- **Writes are confined.** The frames that were there before an evaluation are there after it,
and wherever it is broken off on the way, and but for the frame of the evaluation they hold the same
bindings in the same order, inside the same frames. If no host procedure can be reached from the
frame of the evaluation, that one does so too. -/
theorem evaluate_frame {e : Expr} {f : FrameId} {w w' : World} {r : Except Error Value}
    (h : Finishes e f w (r, w') ∨
      ∃ stop n, (Evaluator.stopping stop n).evaluate e f w = some (r, w')) :
    w.store.nextId ≤ w'.store.nextId ∧
      (∀ g < w.store.nextId, g ≠ f → w'.store.frame g = w.store.frame g) ∧
      (w.store.HostFree f → ∀ g < w.store.nextId, w'.store.frame g = w.store.frame g) := by
  obtain ⟨stop, n, h⟩ : ∃ stop n, (Evaluator.stopping stop n).evaluate e f w = some (r, w') := by
    rcases h with ⟨n, h⟩ | h
    · exact ⟨fun _ _ _ _ => none, n, by rwa [Evaluator.stopping_never]⟩
    · exact h
  -- two invariants: only `f` is written to, and without host procedures not even `f`
  have hc := (Invariant.confined_laws w.store f).stopping (fun _ => trivial) stop n (e := e) trivial
    (.inl rfl) w r w' (Store.Same.refl _ _) h
  refine ⟨hc.1.size, fun g hg hne => hc.1.frame g hg ?_, fun hf g hg => ?_⟩
  · simpa using hne.symm
  · have hh := (Invariant.hostFree_laws w.store f).stopping (fun _ => trivial) stop n (e := e)
      trivial (.inl .self) w r w' (Invariant.hostFree_store _ _ hf) h
    exact hh.1.1.frame g hg (by simp)

/-- A host procedure that binds names, and a frame inside that of the procedure. -/
def Store.hosted : Store :=
  (empty.push [(.name "set", .procedure (.host .set))] none).push
    [(.name "x", .number (.int 1))] (some 0)

/-- `((lambda (y) (set "x" y)) (set "x" "new"))` -/
def Expr.twoWrites : Expr :=
  .list [.list [.symbol "lambda", .list [.symbol "y"],
      .list [.symbol "set", .atom (.str "x"), .symbol "y"]],
    .list [.symbol "set", .atom (.str "x"), .atom (.str "new")]]

/-- `(let ((z x)) (lambda () z))` -/
def Expr.capture : Expr :=
  .list [.symbol "let", .list [.list [.symbol "z", .symbol "x"]],
    .list [.symbol "lambda", .list [], .symbol "z"]]

/-- The frame of the host procedure stays as it was although the procedure is called in two frames,
and without host procedures all frames stay as they were. -/
theorem evaluate_frame_twoWrites :
    (∃ r w', Finishes .twoWrites 1 ⟨.hosted, true, "", #[]⟩ (r, w') ∧
        Store.hosted.nextId ≤ w'.store.nextId ∧
        ∀ g < Store.hosted.nextId, g ≠ 1 → w'.store.frame g = Store.hosted.frame g) ∧
      ∃ r w', Finishes .capture 2 ⟨.nested, true, "", #[]⟩ (r, w') ∧
        ∀ g < Store.nested.nextId, w'.store.frame g = Store.nested.frame g := by
  constructor
  · have hsome : (evaluate 3 .twoWrites 1 ⟨.hosted, true, "", #[]⟩).isSome := by decide +kernel
    obtain ⟨⟨r, w'⟩, h⟩ := Option.isSome_iff_exists.mp hsome
    have hframe := evaluate_frame (.inl ⟨3, h⟩)
    exact ⟨r, w', ⟨3, h⟩, hframe.1, hframe.2.1⟩
  · have hsome : (evaluate 2 .capture 2 ⟨.nested, true, "", #[]⟩).isSome := by decide +kernel
    obtain ⟨⟨r, w'⟩, h⟩ := Option.isSome_iff_exists.mp hsome
    exact ⟨r, w', ⟨2, h⟩, (evaluate_frame (.inl ⟨2, h⟩)).2.2 (Store.nested_hostFree 2)⟩

end MiniLisp
