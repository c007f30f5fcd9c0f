import MiniLisp.Scope.Bindings

/-!
# Frames and the store

A frame holds bindings and may stand inside another frame, the one outside of it. The store holds
all frames ever made; a frame is made inside one that is there already, so the way outwards from a
frame is finite. What a name stands for is told by the nearest frame on that way that binds it.
Names are only ever bound in a given frame, never further out.

## Main definitions

* `Frame`, `Store`: a frame and the store of all frames
* `Store.chain s f`: the frames from `f` outwards
* `Store.push`, `Store.bind`: a new frame, and a binding in a frame
* `Store.find?`, `Store.lookup`: the frame that tells what a name stands for, and the value
* `Store.frameText?`, `Store.chainText?`: the bindings of a frame and of a chain as text

## Main results

* `Store.frame_push_of_lt`, `Store.frame_bind_of_ne`: a new frame and a binding leave the other
  frames alone
* `Store.frame_push_self`, `Store.frame_bind_self`: what they do to the frame concerned
-/

namespace MiniLisp

/-- Bindings, and the frame outside. -/
structure Frame where
  bindings : Bindings
  outer : Option FrameId

/-- The frames made so far, in order; a frame is identified by its place. -/
structure Store where
  frames : Array Frame

namespace Store

/-- The store without frames. -/
def empty : Store := ⟨#[]⟩

/-- The frame with the given identity; of one that is not there, no bindings. -/
def frame (s : Store) (f : FrameId) : Frame := s.frames[f]?.getD ⟨[], none⟩

/-- The identity of the next frame to be made. -/
def nextId (s : Store) : FrameId := s.frames.size

/-- Makes a frame with the given bindings; its identity is `s.nextId`. -/
def push (s : Store) (b : Bindings) (outer : Option FrameId) : Store :=
  ⟨s.frames.push ⟨b, outer⟩⟩

/-- Binds a name in the given frame. -/
def bind (s : Store) (f : FrameId) (n : String) (v : Value) : Store :=
  ⟨s.frames.modify f fun fr => ⟨fr.bindings.set (.name n) v, fr.outer⟩⟩

@[simp] theorem nextId_push (s : Store) (b : Bindings) (o : Option FrameId) :
    (s.push b o).nextId = s.nextId + 1 := by
  simp [nextId, push]

@[simp] theorem nextId_bind (s : Store) (f : FrameId) (n : String) (v : Value) :
    (s.bind f n v).nextId = s.nextId := by
  simp [nextId, bind]

/-- The new frame is as it was asked for. -/
@[simp] theorem frame_push_self (s : Store) (b : Bindings) (o : Option FrameId) :
    (s.push b o).frame s.nextId = ⟨b, o⟩ := by
  simp [frame, push, nextId]

/-- A new frame leaves the others alone. -/
theorem frame_push_of_lt (s : Store) (b : Bindings) (o : Option FrameId) {f : FrameId}
    (h : f < s.nextId) : (s.push b o).frame f = s.frame f := by
  have hf : f ≠ s.frames.size := Nat.ne_of_lt h
  simp [frame, push, Array.getElem?_push, hf]

/-- A binding changes the bindings of its frame and not the frame outside of it. -/
theorem frame_bind_self (s : Store) {f : FrameId} (n : String) (v : Value) (h : f < s.nextId) :
    (s.bind f n v).frame f = ⟨(s.frame f).bindings.set (.name n) v, (s.frame f).outer⟩ := by
  have hf : f < s.frames.size := h
  simp [frame, bind, hf, Array.getElem_modify]

/-- A binding leaves the other frames alone. -/
theorem frame_bind_of_ne (s : Store) {f g : FrameId} (n : String) (v : Value) (h : g ≠ f) :
    (s.bind f n v).frame g = s.frame g := by
  simp [frame, bind, Array.getElem?_modify, h.symm]

/-- The frames from `f` outwards. -/
def chain (s : Store) (f : FrameId) : List FrameId :=
  f :: match (s.frame f).outer with
    | some g => if g < f then chain s g else []
    | none => []
termination_by f

/-- The nearest frame from `f` outwards that binds the key. -/
def find? (s : Store) (f : FrameId) (k : Key) : Option FrameId :=
  (s.chain f).find? fun g => (s.frame g).bindings.binds k

/-- What a key stands for in the frame `f`: its value in the nearest frame that binds it, and the
undefined value when none does. -/
def lookup (s : Store) (f : FrameId) (k : Key) : Value :=
  match s.find? f k with
  | some g => ((s.frame g).bindings.get? k).getD .undefined
  | none => .undefined

/-- The bindings of a frame as text, with a mark if there is a frame outside. -/
def frameText? (s : Store) (f : FrameId) : Option String := do
  let fr := s.frame f
  let text ← fr.bindings.text?
  some (text ++ if fr.outer.isSome then " -> ..." else "")

/-- The bindings of a frame and of the frames outside as text. -/
def chainText? (s : Store) (f : FrameId) : Option String := do
  let texts ← (s.chain f).mapM fun g => (s.frame g).bindings.text?
  some ("<Environment chain: " ++ " -> ".intercalate texts ++ ">")

end Store

end MiniLisp
